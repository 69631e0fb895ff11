import DiceFormula.Proofs.Phrases
import DiceFormula.Session

namespace DiceFormula

namespace Expr

variable {inv : Store → Prop} {limit : Limit.Reading}

/-- The bound of a quotient by way of the bounds of its operands, or of its outcomes. -/
theorem quotient_bound_keeps {memo : MemoName} {left right : Expr}
    (he : Keeps inv ((binary memo .div left right).outcomes limit)) {dividend divisor : Eval Number}
    (hx : Keeps inv dividend) (hy : Keeps inv divisor) (pick : Support → Except Fault Number) :
    Keeps inv
      (do
        if (← divisor).isZero then
          return ← MonadExcept.ofExcept (pick (← (binary memo .div left right).outcomes limit))
        let x ← dividend
        MonadExcept.ofExcept (Op.div.apply x (← divisor))) := by
  refine hy.bind fun y => Keeps.ite ?_ (hx.bind fun x => hy.bind fun y => Keeps.ofExcept)
  exact he.bind fun s => Keeps.ofExcept

/-- Bounds do to the memos no more than the outcomes of the parts do. -/
theorem low_keeps {e : Expr} (h : ∀ part ∈ e.parts, Keeps inv (part.outcomes limit)) :
    Keeps inv (e.low limit) := by
  induction e with
  | blank => exact Keeps.throw
  | number => exact Keeps.pure
  | roll _ count _ ihc => exact ihc (forall_parts_roll.mp h).1
  | binary memo op left right ihl ihr =>
    obtain ⟨hl, hr, he⟩ := forall_parts_binary.mp h
    cases op with
    | div => exact quotient_bound_keeps he (ihl hl) (ihr hr) Support.least
    | add | sub | mul | pow | unspecified =>
      exact (ihl hl).bind fun x => (ihr hr).bind fun y => Keeps.ofExcept

theorem high_keeps {e : Expr} (h : ∀ part ∈ e.parts, Keeps inv (part.outcomes limit)) :
    Keeps inv (e.high limit) := by
  induction e with
  | blank => exact Keeps.throw
  | number => exact Keeps.pure
  | roll _ count faces ihc ihf =>
    obtain ⟨hc, hf, -⟩ := forall_parts_roll.mp h
    exact (ihc hc).bind fun most => (ihf hf).bind fun top => Keeps.ofExcept
  | binary memo op left right ihl ihr =>
    obtain ⟨hl, hr, he⟩ := forall_parts_binary.mp h
    cases op with
    | div => exact quotient_bound_keeps he (ihl hl) (ihr hr) Support.greatest
    | add | sub | mul | pow | unspecified =>
      exact (ihl hl).bind fun x => (ihr hr).bind fun y => Keeps.ofExcept

theorem median_keeps {e : Expr} (h : ∀ part ∈ e.parts, Keeps inv (part.outcomes limit)) :
    Keeps inv (e.median limit) := by
  induction e with
  | blank => exact Keeps.throw
  | number => exact Keeps.pure
  | roll memo count faces =>
    exact (low_keeps h).bind fun low => (high_keeps h).bind fun high =>
      Keeps.ofExcept.bind fun span => Keeps.ofExcept
  | binary memo op left right ihl ihr =>
    obtain ⟨hl, hr, -⟩ := forall_parts_binary.mp h
    exact (ihl hl).bind fun x => Keeps.ofExcept.bind fun x => (ihr hr).bind fun y =>
      Keeps.ofExcept

/-- Questions do to the memos no more than the checks and the outcomes of the parts do. -/
theorem ask_keeps {e : Expr} (h : ∀ part ∈ e.parts, Keeps inv (part.outcomes limit))
    (hz : Keeps inv (e.mayBeZero limit)) (hn : Keeps inv (e.mayBeNegative limit)) (query : Query) :
    Keeps inv (e.ask limit query) := by
  cases query with
  | render | label | describe => exact Keeps.pure
  | low => exact (low_keeps h).bind fun _ => Keeps.pure
  | high => exact (high_keeps h).bind fun _ => Keeps.pure
  | median => exact (median_keeps h).bind fun _ => Keeps.pure
  | outcomes => exact (h e e.self_mem_parts).bind fun _ => Keeps.pure
  | mayBeZero => exact hz.bind fun _ => Keeps.pure
  | mayBeNegative => exact hn.bind fun _ => Keeps.pure
  | sample => exact Keeps.ofExcept.bind fun _ => Keeps.pure

/-- No question leaves an untrue entry, whether or not it was answered. -/
theorem Safe.ask_keeps {e : Expr} (he : e.Safe) (query : Query) :
    Keeps Store.Truthful (e.ask limit query) :=
  Expr.ask_keeps (fun part hpart => (outcomes_meets (he.parts part hpart)).keeps)
    (mayBeZero_meets he).keeps (mayBeNegative_meets he).keeps query

/-- The parts of a safe expression are safe. -/
theorem Safe.part {e part : Expr} (he : e.Safe) {kind : Part} (h : e.part? kind = some part) :
    part.Safe := by
  cases e with
  | blank => exact he.elim
  | number => cases kind <;> cases h
  | roll _ count faces =>
    cases kind with
    | count => exact Option.some.inj h ▸ he.1
    | faces => exact Option.some.inj h ▸ he.2.1
    | left | right | base | exponent => cases h
  | binary _ op left right =>
    cases kind with
    | left => exact Option.some.inj h ▸ he.1
    | right => exact Option.some.inj h ▸ he.2.1
    | base =>
      cases op with
      | pow => exact Option.some.inj h ▸ he.1
      | add | sub | mul | div | unspecified => cases h
    | exponent =>
      cases op with
      | pow => exact Option.some.inj h ▸ he.2.1
      | add | sub | mul | div | unspecified => cases h
    | count | faces => cases h

end Expr

/-- The outermost part has a meaning. -/
def Shape.Meaningful : Shape → Prop
  | blank | binary .unspecified _ _ => False
  | number _ | roll _ _ | binary _ _ _ => True

/-- An action that plants no entry of its own and builds nothing without a meaning. -/
def Action.Ordinary : Action → Prop
  | build _ _ shape => shape.Meaningful
  | memoize .. => False
  | parse .. | part .. | ask .. | memoOf _ | setLimit _ | clear _ | dump _ => True

namespace Session

/-- What ordinary actions make of the empty session, whether or not they fail. -/
inductive Reached : Session → Prop
  | start : Reached {}
  | step {session : Session} {action : Action} (h : Reached session) (ho : action.Ordinary) :
      Reached (session.step action).2

/-- All entries are true, and the named expressions are safe. -/
structure Sound (session : Session) : Prop where
  truthful : session.store.Truthful
  safe : ∀ entry ∈ session.names, entry.2.Safe

/-- What evaluation does to the memos it does to those of a sound session. -/
theorem eval_meets {work : Eval α} {post : α → Prop} {fail : Fault → Prop}
    (h : Meets Store.Truthful work post fail) : Meets Sound (eval work) post fail := by
  intro session hs
  have hw := h session.store hs.truthful
  simp only [eval]
  cases hr : work session.store with
  | ok a store =>
    rw [hr] at hw
    exact ⟨hw.1, hw.2, hs.safe⟩
  | error fault store =>
    rw [hr] at hw
    exact ⟨hw.1, hw.2, hs.safe⟩

theorem get_keeps : Keeps Sound (get : Work Session) := fun _ hs => ⟨trivial, hs⟩

theorem modify_keeps {f : Session → Session} (h : ∀ session, Sound session → Sound (f session)) :
    Keeps Sound (modify f : Work PUnit) := fun session hs => ⟨trivial, h session hs⟩

theorem mem_of_lookup {names : List (String × Expr)} {name : String} {e : Expr}
    (h : names.lookup name = some e) : (name, e) ∈ names := by
  obtain ⟨before, after, he, -⟩ := List.lookup_eq_some_iff.mp h
  simp [he]

theorem find_run {session : Session} {name : String} :
    find name session =
      match session.names.lookup name with
      | some e => .ok e session
      | none => .error (.given ("No expression is named " ++ name ++ ".")) session := by
  have hget : (get : Work Session) session = .ok session session := rfl
  simp only [find, Bind.bind, EStateM.bind, hget]
  cases session.names.lookup name with
  | some e => rfl
  | none => rfl

theorem find_meets {name : String} : Meets Sound (find name) Expr.Safe fun _ => True := by
  intro session hs
  rw [find_run]
  cases h : session.names.lookup name with
  | some e => exact ⟨hs.safe _ (mem_of_lookup h), hs⟩
  | none => exact ⟨trivial, hs⟩

theorem bind_keeps {name : String} {e : Expr} (he : e.Safe) : Keeps Sound (bind name e) := by
  refine Keeps.bind (modify_keeps fun session hs => ⟨hs.truthful, ?_⟩) fun _ => Keeps.pure
  intro entry hm
  rcases List.mem_cons.mp hm with rfl | hm
  · exact he
  · exact hs.safe entry hm

theorem perform_keeps {action : Action} (ho : action.Ordinary) :
    Keeps Sound (perform action) := by
  cases action with
  | parse name memo source =>
    refine get_keeps.bind fun session => ?_
    exact Meets.bind (eval_meets parse_meets) fun e he => bind_keeps he
  | build name memo shape =>
    refine get_keeps.bind fun session => ?_
    cases shape with
    | blank => exact ho.elim
    | number value => exact bind_keeps trivial
    | roll count faces =>
      refine Meets.bind find_meets fun count hc => Meets.bind find_meets fun faces hf => ?_
      exact Meets.bind (eval_meets (Expr.mkRoll_meets hc hf).anyFault) fun e he => bind_keeps he.2
    | binary op left right =>
      have hop : op ≠ .unspecified := by
        intro h
        subst h
        exact ho
      refine Meets.bind find_meets fun left hl => Meets.bind find_meets fun right hr => ?_
      exact Meets.bind (eval_meets (Expr.mkBinary_meets hop hl hr).anyFault) fun e he =>
        bind_keeps he.2
  | part name whole part =>
    refine Meets.bind find_meets fun e he => ?_
    cases hpart : e.part? part with
    | some child => exact bind_keeps (he.part hpart)
    | none => exact Keeps.throw
  | ask name query =>
    refine Meets.bind find_meets fun e he session hs => ?_
    have hkeeps : Keeps Store.Truthful (e.ask session.limit query) := he.ask_keeps query
    have hask := hkeeps session.store hs.truthful
    cases hr : e.ask session.limit query session.store with
    | ok answer store =>
      rw [hr] at hask
      exact ⟨trivial, hask.2, hs.safe⟩
    | error fault store =>
      rw [hr] at hask
      exact ⟨trivial, hask.2, hs.safe⟩
  | memoOf name => exact find_meets.keeps.bind fun e => Keeps.pure
  | setLimit value =>
    exact Keeps.bind (modify_keeps fun _ hs => ⟨hs.truthful, hs.safe⟩) fun _ => Keeps.pure
  | clear memo =>
    exact Keeps.bind (modify_keeps fun _ hs => ⟨hs.truthful.set Memo.truthful_empty, hs.safe⟩)
      fun _ => Keeps.pure
  | dump memo => exact get_keeps.bind fun session => Keeps.pure
  | memoize => exact ho.elim

theorem step_sound {session : Session} (hs : session.Sound) {action : Action}
    (ho : action.Ordinary) : (session.step action).2.Sound := by
  have hp := perform_keeps ho session hs
  simp only [step]
  cases hr : perform action session with
  | ok report session' =>
    rw [hr] at hp
    exact hp.2
  | error fault session' =>
    rw [hr] at hp
    exact hp.2

theorem Reached.sound {session : Session} (h : session.Reached) : session.Sound := by
  induction h with
  | start => exact ⟨Store.truthful_empty, fun _ hm => nomatch hm⟩
  | step _ ho ih => exact step_sound ih ho

/-- All sessions that a run of ordinary actions goes through are reached. -/
theorem Reached.run {session : Session} (h : session.Reached) {actions : List Action}
    (ho : ∀ action ∈ actions, action.Ordinary) :
    ∀ entry ∈ session.run actions, entry.2.Reached := by
  induction actions generalizing session with
  | nil => exact fun _ hm => nomatch hm
  | cons action actions ih =>
    have hstep := h.step (ho action List.mem_cons_self)
    intro entry hm
    rcases List.mem_cons.mp hm with rfl | hm
    · exact hstep
    · exact ih hstep (fun a ha => ho a (List.mem_cons_of_mem action ha)) entry hm

end Session

end DiceFormula
