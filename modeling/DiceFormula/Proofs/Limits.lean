import DiceFormula.Proofs.Sessions

namespace DiceFormula

/-- The other work does the same, unless the first one ends with a fault that is `bad`. -/
def Follows (bad : ε → Prop) (work other : EStateM ε σ α) : Prop :=
  ∀ s, other s = work s ∨ ∃ e s', work s = .error e s' ∧ bad e

namespace Follows

variable {bad : ε → Prop} {work other : EStateM ε σ α}

theorem refl (work : EStateM ε σ α) : Follows bad work work := fun _ => .inl rfl

theorem bind {next next' : α → EStateM ε σ β} (h : Follows bad work other)
    (hn : ∀ a, Follows bad (next a) (next' a)) : Follows bad (work >>= next) (other >>= next') := by
  intro s
  simp only [Bind.bind, EStateM.bind]
  rcases h s with heq | ⟨e, s', hr, he⟩
  · rw [heq]
    cases work s with
    | ok a s' => exact hn a s'
    | error e s' => exact .inl rfl
  · rw [hr]
    exact .inr ⟨e, s', rfl, he⟩

theorem bind_same {next : α → EStateM ε σ β} (h : Follows bad work other) :
    Follows bad (work >>= next) (other >>= next) :=
  h.bind fun a => refl (next a)

theorem same_bind {next next' : α → EStateM ε σ β} (hn : ∀ a, Follows bad (next a) (next' a)) :
    Follows bad (work >>= next) (work >>= next') :=
  (refl work).bind hn

theorem ite {c : Prop} [Decidable c] {work' other' : EStateM ε σ α} (h : Follows bad work other)
    (h' : Follows bad work' other') :
    Follows bad (if c then work else work') (if c then other else other') := by
  split
  · exact h
  · exact h'

theorem ofExcept {result result' : Except ε α}
    (h : result' = result ∨ ∃ e, result = .error e ∧ bad e) :
    Follows bad (MonadExcept.ofExcept result : EStateM ε σ α) (MonadExcept.ofExcept result') := by
  intro s
  rcases h with rfl | ⟨e, rfl, he⟩
  · exact .inl rfl
  · exact .inr ⟨e, s, rfl, he⟩

theorem adaptExcept {f : ε → ε'} {bad' : ε' → Prop} (h : Follows bad work other)
    (hf : ∀ e, bad e → bad' (f e)) : Follows bad' (work.adaptExcept f) (other.adaptExcept f) := by
  intro s
  simp only [EStateM.adaptExcept]
  rcases h s with heq | ⟨e, s', hr, he⟩
  · rw [heq]
    exact .inl rfl
  · rw [hr]
    exact .inr ⟨f e, s', rfl, hf e he⟩

theorem memoize {bad : Fault → Prop} {name : MemoName} {aspect : Aspect} {key : String}
    {work other : Eval aspect.Answer} (h : Follows bad work other) :
    Follows bad (DiceFormula.memoize name aspect key work)
      (DiceFormula.memoize name aspect key other) := by
  refine same_bind fun store => ?_
  split
  · exact refl _
  · exact h.bind_same

end Follows

/-- There were more pairs to visit than the limit allows. -/
def Fault.TooComplex : Fault → Prop
  | tooComplex .. => True
  | _ => False

instance : DecidablePred Fault.TooComplex
  | .tooComplex .. => .isTrue trivial
  | .format _ | .check _ | .limit _ | .number _ | .missing _ | .noOutcome | .given _ => .isFalse id

/-- Every enumeration that the first bound allows is allowed by the second one. -/
def Limit.Within (bound wider : Option Nat) : Prop := ∀ most ∈ wider, ∃ least ∈ bound, least ≤ most

section Work

variable {bound wider : Option Nat} (hw : Limit.Within bound wider)

include hw

/-- The limit has a say in enumerations only, where a wider one changes nothing but the refusal. -/
theorem Op.enumerate_within (key : String) (op : Op) (left right : Support) :
    op.enumerate (.ok wider) key left right = op.enumerate (.ok bound) key left right ∨
      ∃ fault, op.enumerate (.ok bound) key left right = .error fault ∧ fault.TooComplex := by
  simp only [enumerate]
  cases hb : bound.filter (· < left.size * right.size) with
  | some least => exact .inr ⟨_, rfl, trivial⟩
  | none =>
    have hnone : wider.filter (· < left.size * right.size) = none := by
      rw [Option.filter_eq_none_iff] at hb ⊢
      intro most hmost
      obtain ⟨least, hleast, hle⟩ := hw most hmost
      have := hb least hleast
      simp only [decide_eq_true_eq] at this ⊢
      omega
    rw [hnone]
    exact .inl rfl

theorem Op.outcomes_within (key : String) (op : Op) (left right : Support) :
    op.outcomes (.ok wider) key left right = op.outcomes (.ok bound) key left right ∨
      ∃ fault, op.outcomes (.ok bound) key left right = .error fault ∧ fault.TooComplex := by
  -- The shortcut does not know the limit.
  unfold Op.outcomes
  cases op.quick left right with
  | error fault => exact .inl rfl
  | ok quick =>
    cases quick with
    | some results => exact .inl rfl
    | none => exact Op.enumerate_within hw key op left right

namespace Expr

theorem outcomes_follows (e : Expr) :
    Follows Fault.TooComplex (e.outcomes (.ok bound)) (e.outcomes (.ok wider)) := by
  induction e with
  | blank | number => exact .refl _
  | roll memo count faces ihc ihf =>
    refine .memoize (ihf.bind fun faces => .same_bind fun top => .ite (.refl _) ?_)
    exact ihc.bind_same
  | binary memo op left right ihl ihr =>
    rw [outcomes_binary, outcomes_binary]
    refine .memoize (ihl.bind fun lefts => ihr.bind fun rights => .ofExcept ?_)
    exact Op.outcomes_within hw _ op lefts rights

/-- A look at the outcomes when the operands leave a question open. -/
theorem look_follows (e : Expr) (next : Support → Eval Bool) (possible : Bool) :
    Follows Fault.TooComplex
      (do if possible then next (← e.outcomes (.ok bound)) else return false)
      (do if possible then next (← e.outcomes (.ok wider)) else return false) :=
  .ite (outcomes_follows hw e).bind_same (.refl _)

theorem mayBeNegative_follows (e : Expr) :
    Follows Fault.TooComplex (e.mayBeNegative (.ok bound)) (e.mayBeNegative (.ok wider)) := by
  induction e with
  | blank | number | roll => exact .refl _
  | binary memo op left right ihl ihr =>
    have hlook := look_follows hw (binary memo op left right) fun s => do
      let least ← MonadExcept.ofExcept s.least
      Eval.ofNumber least.isNegative
    cases op with
    | add | mul | div => exact .memoize (ihl.bind fun b => .ite (hlook true) (ihr.bind hlook))
    | pow => exact .memoize (ihl.bind hlook)
    | sub | unspecified => exact .memoize (hlook true)

theorem bothPositive_follows (left right : Expr) :
    Follows Fault.TooComplex (bothPositive (.ok bound) left right)
      (bothPositive (.ok wider) left right) := by
  refine (outcomes_follows hw left).bind fun s => .same_bind fun least => .same_bind fun b => ?_
  exact .ite (outcomes_follows hw right).bind_same (.refl _)

theorem mayBeZero_follows (e : Expr) :
    Follows Fault.TooComplex (e.mayBeZero (.ok bound)) (e.mayBeZero (.ok wider)) := by
  induction e with
  | blank | number => exact .refl _
  | roll memo count faces ihc ihf => exact ihc.bind fun b => .ite (.refl _) ihf
  | binary memo op left right ihl ihr =>
    have hlook := look_follows hw (binary memo op left right) fun s => return s.hasZero
    cases op with
    | div =>
      refine .memoize ((outcomes_follows hw left).bind fun s => .same_bind fun least => ?_)
      exact (outcomes_follows hw right).bind_same
    | add => exact .memoize ((bothPositive_follows hw left right).bind fun b => hlook _)
    | mul | pow => exact .memoize (ihl.bind fun b => .ite (hlook true) (ihr.bind hlook))
    | sub | unspecified => exact .memoize (hlook true)

theorem mkRoll_follows (memo : MemoName) (count faces : Expr) :
    Follows Fault.TooComplex (mkRoll (.ok bound) memo count faces)
      (mkRoll (.ok wider) memo count faces) := by
  refine (mayBeNegative_follows hw count).bind fun b => .ite (.refl _) ?_
  exact (mayBeNegative_follows hw faces).bind_same

theorem mkBinary_follows (memo : MemoName) (op : Op) (left right : Expr) :
    Follows Fault.TooComplex (mkBinary (.ok bound) memo op left right)
      (mkBinary (.ok wider) memo op left right) := by
  cases op with
  | div =>
    rw [mkBinary_div, mkBinary_div]
    exact (mayBeZero_follows hw left).bind fun b => (mayBeZero_follows hw right).bind_same
  | pow => exact (mayBeNegative_follows hw right).bind_same
  | add | sub | mul | unspecified => exact .refl _

theorem quotient_bound_follows {memo : MemoName} {left right : Expr}
    {dividend dividend' divisor divisor' : Eval Number}
    (hx : Follows Fault.TooComplex dividend dividend')
    (hy : Follows Fault.TooComplex divisor divisor') (pick : Support → Except Fault Number) :
    Follows Fault.TooComplex
      (do
        if (← divisor).isZero then
          let e := binary memo .div left right
          return ← MonadExcept.ofExcept (pick (← e.outcomes (.ok bound)))
        let x ← dividend
        MonadExcept.ofExcept (Op.div.apply x (← divisor)))
      (do
        if (← divisor').isZero then
          let e := binary memo .div left right
          return ← MonadExcept.ofExcept (pick (← e.outcomes (.ok wider)))
        let x ← dividend'
        MonadExcept.ofExcept (Op.div.apply x (← divisor'))) :=
  hy.bind fun _ => .ite (outcomes_follows hw _).bind_same (hx.bind fun _ => hy.bind_same)

theorem low_follows (e : Expr) :
    Follows Fault.TooComplex (e.low (.ok bound)) (e.low (.ok wider)) := by
  induction e with
  | blank | number => exact .refl _
  | roll _ count _ ihc => exact ihc
  | binary memo op left right ihl ihr =>
    cases op with
    | div => exact quotient_bound_follows hw ihl ihr Support.least
    | add | sub | mul | pow | unspecified => exact ihl.bind fun x => ihr.bind_same

theorem high_follows (e : Expr) :
    Follows Fault.TooComplex (e.high (.ok bound)) (e.high (.ok wider)) := by
  induction e with
  | blank | number => exact .refl _
  | roll _ count faces ihc ihf => exact ihc.bind fun most => ihf.bind_same
  | binary memo op left right ihl ihr =>
    cases op with
    | div => exact quotient_bound_follows hw ihl ihr Support.greatest
    | add | sub | mul | pow | unspecified => exact ihl.bind fun x => ihr.bind_same

theorem median_follows (e : Expr) :
    Follows Fault.TooComplex (e.median (.ok bound)) (e.median (.ok wider)) := by
  induction e with
  | blank | number => exact .refl _
  | roll memo count faces =>
    exact (low_follows hw _).bind fun low => (high_follows hw _).bind_same
  | binary _ op left right ihl ihr => exact ihl.bind fun x => .same_bind fun x => ihr.bind_same

theorem ask_follows (e : Expr) (query : Query) :
    Follows Fault.TooComplex (e.ask (.ok bound) query) (e.ask (.ok wider) query) := by
  cases query with
  | render | label | describe | sample => exact .refl _
  | low => exact (low_follows hw e).bind_same
  | high => exact (high_follows hw e).bind_same
  | median => exact (median_follows hw e).bind_same
  | outcomes => exact (outcomes_follows hw e).bind_same
  | mayBeZero => exact (mayBeZero_follows hw e).bind_same
  | mayBeNegative => exact (mayBeNegative_follows hw e).bind_same

end Expr

theorem Instr.perform_follows (memo : MemoName) (stack : List Expr) (instr : Instr) :
    Follows Fault.TooComplex (instr.perform (.ok bound) memo stack)
      (instr.perform (.ok wider) memo stack) := by
  unfold perform
  split
  · exact .refl _
  · split
    · exact (Expr.mkRoll_follows hw memo _ _).bind_same
    · exact .refl _
  · split
    · exact (Expr.mkBinary_follows hw memo _ _ _).bind_same
    · exact .refl _

theorem Cursor.build_follows (memo : MemoName) (cursor : Cursor) (stack : List Expr)
    (steps : List Step) :
    Follows (fun halt => halt.fault.TooComplex) (build (.ok bound) memo cursor stack steps)
      (build (.ok wider) memo cursor stack steps) := by
  induction steps generalizing stack with
  | nil => exact .refl _
  | cons step steps ih =>
    refine Follows.bind (Follows.adaptExcept ?_ fun _ => id) ih
    exact Instr.perform_follows hw memo stack step.instr

/-- A formula is read the same way under both limits, up to the place where the narrower one ends
it. -/
theorem parse_follows (memo : MemoName) (source : String) :
    Follows Fault.TooComplex (parse (.ok bound) memo source) (parse (.ok wider) memo source) := by
  rw [parse_eq, parse_eq]
  split
  · exact .refl _
  · refine Follows.bind_same (Follows.adaptExcept ?_ fun _ => id)
    exact (Cursor.build_follows hw memo _ [] _).bind_same

end Work

namespace Session

/-- The session with another limit in force. -/
def under (bound : Option Nat) (session : Session) : Session := { session with limit := .ok bound }

/-- The two do the same in sessions that differ in the limit only, unless the first one ends for too
many pairs. -/
def Tracks (bound wider : Option Nat) (work other : Work α) : Prop :=
  ∀ session : Session,
    (∃ a, ∃ next : Session, work (session.under bound) = .ok a (next.under bound) ∧
      other (session.under wider) = .ok a (next.under wider)) ∨
    ∃ fault, ∃ next : Session, work (session.under bound) = .error fault (next.under bound) ∧
      (other (session.under wider) = .error fault (next.under wider) ∨ fault.TooComplex)

namespace Tracks

variable {bound wider : Option Nat} {work other : Work α}

theorem pure {a : α} : Tracks bound wider (Pure.pure a) (Pure.pure a) :=
  fun session => .inl ⟨a, session, rfl, rfl⟩

theorem throw {fault : Fault} : Tracks bound wider (throw fault : Work α) (throw fault) :=
  fun session => .inr ⟨fault, session, rfl, .inl rfl⟩

theorem bind {next next' : α → Work β} (h : Tracks bound wider work other)
    (hn : ∀ a, Tracks bound wider (next a) (next' a)) :
    Tracks bound wider (work >>= next) (other >>= next') := by
  intro session
  simp only [Bind.bind, EStateM.bind]
  rcases h session with ⟨a, later, hr, ho⟩ | ⟨fault, later, hr, ho⟩
  · rw [hr, ho]
    exact hn a later
  · rw [hr]
    refine .inr ⟨fault, later, rfl, ho.imp_left fun ho => ?_⟩
    rw [ho]

/-- Work that looks at the session. -/
theorem get_bind {next next' : Session → Work β}
    (hn : ∀ session : Session,
      Tracks bound wider (next (session.under bound)) (next' (session.under wider))) :
    Tracks bound wider (get >>= next) (get >>= next') :=
  fun session => hn session session

theorem modify {f : Session → Session}
    (hf : ∀ limit session, f (under limit session) = under limit (f session)) :
    Tracks bound wider (modify f : Work PUnit) (modify f) :=
  fun session => .inl ⟨⟨⟩, f session, congrArg _ (hf bound session), congrArg _ (hf wider session)⟩

theorem eval {work other : Eval α} (h : Follows Fault.TooComplex work other) :
    Tracks bound wider (eval work) (eval other) := by
  intro session
  simp only [Session.eval, under]
  rcases h session.store with heq | ⟨fault, later, hr, hf⟩
  · rw [heq]
    cases work session.store with
    | ok a later => exact .inl ⟨a, { session with store := later }, rfl, rfl⟩
    | error fault later => exact .inr ⟨fault, { session with store := later }, rfl, .inl rfl⟩
  · rw [hr]
    exact .inr ⟨fault, { session with store := later }, rfl, .inr hf⟩

theorem find {name : String} : Tracks bound wider (find name) (Session.find name) := by
  refine get_bind fun session => ?_
  simp only [under]
  split
  · exact pure
  · exact throw

theorem name {name : String} {e : Expr} :
    Tracks bound wider (Session.bind name e) (Session.bind name e) :=
  bind (.modify fun _ _ => rfl) fun _ => pure

end Tracks

end Session

/-- An action that leaves the limit as it is. -/
def Action.KeepsLimit : Action → Prop
  | setLimit _ => False
  | parse .. | build .. | part .. | ask .. | memoOf _ | clear _ | dump _ | memoize .. => True

/-- The action, or the question that it asked, was ended for too many pairs. -/
def Overruns : Except Fault Report → Prop
  | .error fault | .ok (.answer (.error fault)) => fault.TooComplex
  | .ok _ => False

instance : DecidablePred Overruns
  | .error fault | .ok (.answer (.error fault)) => inferInstanceAs (Decidable fault.TooComplex)
  | .ok (.answer (.ok _)) | .ok .nothing | .ok (.text _) | .ok (.memo _) | .ok (.memoized ..) =>
    .isFalse id

namespace Session

variable {bound wider : Option Nat} (hw : Limit.Within bound wider)

/-- Planted computations do not know the limit. -/
theorem memoize_tracks {memo : MemoName} {aspect : Aspect} {key : String} {value : aspect.Answer}
    {inner : Option aspect.Answer} {failure : Option Fault} :
    Tracks bound wider (perform (.memoize memo aspect key value inner failure))
      (perform (.memoize memo aspect key value inner failure)) :=
  .get_bind fun _ => .bind (.eval (.refl _)) fun _ => .pure

include hw

/-- Actions other than questions end with a fault of their own when the limit ends them. -/
theorem perform_tracks {action : Action} (ha : action.KeepsLimit)
    (hq : ∀ name query, action ≠ .ask name query) :
    Tracks bound wider (perform action) (perform action) := by
  cases action with
  | parse name memo source =>
    exact .get_bind fun _ => .bind (.eval (parse_follows hw memo source)) fun _ => .name
  | build name memo shape =>
    refine .get_bind fun _ => ?_
    cases shape with
    | blank | number => exact .name
    | roll count faces =>
      refine .bind .find fun count => .bind .find fun faces => ?_
      exact .bind (.eval (Expr.mkRoll_follows hw memo count faces)) fun _ => .name
    | binary op left right =>
      refine .bind .find fun left => .bind .find fun right => ?_
      exact .bind (.eval (Expr.mkBinary_follows hw memo op left right)) fun _ => .name
  | part name whole part =>
    refine .bind .find fun e => ?_
    cases e.part? part with
    | some child => exact .name
    | none => exact .throw
  | ask name query => exact absurd rfl (hq name query)
  | memoOf name => exact .bind .find fun _ => .pure
  | setLimit => exact ha.elim
  | clear memo => exact .bind (.modify fun _ _ => rfl) fun _ => .pure
  | dump memo => exact .get_bind fun _ => .pure
  | memoize => exact memoize_tracks

/-- An action does the same under both limits, unless it is ended by the narrower one. -/
theorem step_under (session : Session) {action : Action} (ha : action.KeepsLimit) :
    ∃ report, ∃ next : Session, (session.under bound).step action = (report, next.under bound) ∧
      (¬ Overruns report → (session.under wider).step action = (report, next.under wider)) := by
  by_cases hq : ∃ name query, action = .ask name query
  · obtain ⟨name, query, rfl⟩ := hq
    simp only [step, perform, Bind.bind, EStateM.bind, find_run, under]
    cases session.names.lookup name with
    | none => exact ⟨_, session, rfl, fun _ => rfl⟩
    | some e =>
      rcases Expr.ask_follows hw e query session.store with heq | ⟨fault, later, hr, hf⟩
      · simp only [heq]
        cases e.ask (.ok bound) query session.store with
        | ok answer later => exact ⟨_, { session with store := later }, rfl, fun _ => rfl⟩
        | error fault later => exact ⟨_, { session with store := later }, rfl, fun _ => rfl⟩
      · simp only [hr]
        exact ⟨_, { session with store := later }, rfl,
          fun hn => absurd hf hn⟩
  · have hq' : ∀ name query, action ≠ .ask name query := fun name query h => hq ⟨name, query, h⟩
    simp only [step]
    rcases perform_tracks hw ha hq' session with ⟨a, next, hr, ho⟩ | ⟨fault, next, hr, ho⟩
    · rw [hr, ho]
      exact ⟨_, next, rfl, fun _ => rfl⟩
    · rw [hr]
      refine ⟨_, next, rfl, fun hn => ?_⟩
      rcases ho with ho | hf
      · rw [ho]
      · exact absurd hf hn

/-- Actions in order do the same under both limits, unless one is ended by the narrower one. -/
theorem run_under {session : Session} {actions : List Action}
    (ha : ∀ action ∈ actions, action.KeepsLimit)
    (hn : ∀ entry ∈ (session.under bound).run actions, ¬ Overruns entry.1) :
    (session.under wider).run actions =
      ((session.under bound).run actions).map fun entry => (entry.1, entry.2.under wider) := by
  induction actions generalizing session with
  | nil => rfl
  | cons action actions ih =>
    obtain ⟨hkeeps, ha⟩ := List.forall_mem_cons.mp ha
    obtain ⟨report, next, hstep, hsame⟩ := step_under hw session hkeeps
    simp only [run, hstep, List.forall_mem_cons] at hn
    obtain ⟨hfirst, hrest⟩ := hn
    simp only [run, hstep, hsame hfirst, List.map_cons, ih ha hrest]
    rfl

end Session

/-- A formula is parsed on empty memos and then asked questions, in order. -/
def inquiry (memo : MemoName) (source : String) (queries : List Query) (bound : Option Nat) :
    List (Except Fault Report × Session) :=
  (Session.under bound {}).run (.parse "" memo source :: queries.map (.ask ""))

/-- When neither the formula nor a question about it is ended for too many pairs, a wider limit
leaves all as it is: the expression or the fault of the formula, the answers, and the memos after
each step. -/
theorem wider_limit_same_inquiry {bound wider : Option Nat} (hw : Limit.Within bound wider)
    {memo : MemoName} {source : String} {queries : List Query}
    (hn : ∀ entry ∈ inquiry memo source queries bound, ¬ Overruns entry.1) :
    inquiry memo source queries wider =
      (inquiry memo source queries bound).map fun entry => (entry.1, entry.2.under wider) := by
  refine Session.run_under hw ?_ hn
  simp only [List.forall_mem_cons, List.forall_mem_map]
  exact ⟨trivial, fun _ _ => trivial⟩

theorem wider_limit_same_inquiry_quotient :
    Limit.Within (some 30) none ∧
      (∀ entry ∈ inquiry "" "(1d6-3)/2d3" [.outcomes, .mayBeZero, .low] (some 30),
        ¬ Overruns entry.1) ∧
      inquiry "" "(1d6-3)/2d3" [.outcomes, .mayBeZero, .low] none =
        (inquiry "" "(1d6-3)/2d3" [.outcomes, .mayBeZero, .low] (some 30)).map fun entry =>
          (entry.1, entry.2.under none) := by
  have hw : Limit.Within (some 30) none := nofun
  have hn : ∀ entry ∈ inquiry "" "(1d6-3)/2d3" [.outcomes, .mayBeZero, .low] (some 30),
      ¬ Overruns entry.1 := by
    decide +kernel
  exact ⟨hw, hn, wider_limit_same_inquiry hw hn⟩

end DiceFormula
