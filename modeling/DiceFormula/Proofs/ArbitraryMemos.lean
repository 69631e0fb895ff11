import DiceFormula.Proofs.Constructions
import DiceFormula.Proofs.Repeats
import DiceFormula.Proofs.Truth

namespace DiceFormula

/-- The fault lies in the text of a formula. -/
def Fault.Textual : Fault → Prop
  | format _ => True
  | _ => False

/-- The result is not refused for a text. -/
def Textless (result : Except Fault α) : Prop := ∀ fault, result = .error fault → ¬ fault.Textual

namespace Textless

theorem ok {a : α} : Textless (.ok a : Except Fault α) := nofun

theorem error {fault : Fault} (h : ¬ fault.Textual) : Textless (.error fault : Except Fault α) := by
  intro fault' h'
  cases h'
  exact h

theorem number {result : Except Number.Fault α} : Textless (result.mapError Fault.number) := by
  cases result with
  | ok a => exact ok
  | error fault => exact error id

theorem bind {result : Except Fault α} {next : α → Except Fault β} (h : Textless result)
    (hn : ∀ a, Textless (next a)) : Textless (result >>= next) := by
  cases result with
  | ok a => exact hn a
  | error fault => exact error (h fault rfl)

theorem map {result : Except Fault α} {f : α → β} (h : Textless result) :
    Textless (f <$> result) := by
  cases result with
  | ok a => exact ok
  | error fault => exact error (h fault rfl)

theorem mapM {f : α → Except Fault β} (h : ∀ a, Textless (f a)) (l : List α) :
    Textless (l.mapM f) := by
  induction l with
  | nil => exact ok
  | cons a l ih =>
    rw [List.mapM_cons]
    exact (h a).bind fun b => ih.bind fun bs => ok

theorem foldlM {f : β → α → Except Fault β} (h : ∀ b a, Textless (f b a)) (l : List α) (b : β) :
    Textless (l.foldlM f b) := by
  induction l generalizing b with
  | nil => exact ok
  | cons a l ih => exact (h b a).bind fun b => ih b

end Textless

namespace Support

theorem textless_bound {value : Option Int} : Textless (bound value) := by
  cases value with
  | none => exact .error id
  | some v => exact .ok

theorem textless_first {before : Number → Number → Except Number.Fault Bool}
    {values : List Number} : Textless (first before values) := by
  cases values with
  | nil => exact .error id
  | cons x rest => exact .number

theorem textless_least {s : Support} : Textless s.least := by
  cases s with
  | integers o => exact textless_bound
  | mixed values => exact textless_first

theorem textless_greatest {s : Support} : Textless s.greatest := by
  cases s with
  | integers o => exact textless_bound
  | mixed values => exact textless_first

theorem textless_leastAbs {s : Support} : Textless s.leastAbs := by
  cases s with
  | integers o => exact textless_bound
  | mixed values => exact Textless.number.bind fun _ => textless_least

theorem textless_greatestAbs {s : Support} : Textless s.greatestAbs := by
  cases s with
  | integers o => exact textless_bound
  | mixed values => exact Textless.number.bind fun _ => textless_greatest

theorem textless_totals {lowest top : Number} {counts : List Number} :
    Textless (totals lowest top counts) := by
  have hascending : Textless (ascending counts) := by
    unfold ascending
    split
    · exact .ok
    · exact .error id
  have hpush (spans : List Span) (span : Span) : Textless (Span.pushOn spans span) := by
    cases spans with
    | nil => exact .ok
    | cons last done =>
      refine Textless.number.bind fun next => Textless.number.bind fun apart => ?_
      split
      · exact .ok
      · exact Textless.number.bind fun _ => .ok
  have hrun (span : Span) : Textless span.run? := by
    unfold Span.run?
    split
    · exact .ok
    · exact .error id
  refine hascending.bind fun counts => (Textless.foldlM (fun spans c => ?_) counts []).bind
    fun spans => (Textless.mapM hrun _).bind fun _ => .ok
  exact Textless.number.bind fun low => Textless.number.bind fun high => hpush spans _

theorem textless_ofRoll {counts faces : Support} {top : Number} :
    Textless (ofRoll counts faces top) := by
  unfold ofRoll
  split
  · exact .ok
  · exact textless_totals

end Support

namespace Op

theorem textless_apply {op : Op} {x y : Number} : Textless (op.apply x y) := by
  cases op with
  | unspecified => exact .error id
  | add | sub | mul | div | pow => exact .number

theorem textless_pairs {op : Op} {left right : Support} : Textless (op.pairs left right) :=
  (Textless.mapM (fun _ => Textless.mapM (fun _ => textless_apply) _) _).bind fun _ => .ok

theorem textless_enumerate {limit : Limit.Reading} {key : String} {op : Op}
    {left right : Support} : Textless (op.enumerate limit key left right) := by
  have hresults : Textless (op.results left right) := by
    unfold results
    split
    · split
      · exact .ok
      · exact textless_pairs
    · exact textless_pairs
  cases limit with
  | error fault => exact .error id
  | ok bound =>
    simp only [enumerate]
    split
    · exact .error id
    · exact hresults

theorem textless_shortcut {op : Op} {left right : Outcomes} :
    Textless (op.shortcut left right) := by
  unfold shortcut
  split
  · exact .ok
  · exact .error id
  · exact .error id
  · exact .ok
  · exact .ok

theorem textless_shortcutMixed {op : Op} {left right : Support} :
    Textless (op.shortcutMixed left right) := by
  have hdense (s : Support) : Textless s.isDense :=
    Support.textless_greatest.bind fun _ => Support.textless_least.bind fun _ =>
      Textless.number.bind fun _ => Textless.number.bind fun _ => .ok
  have hbetween (low high : Number) : Textless (Support.between low high) := by
    unfold Support.between
    split
    · exact .ok
    · exact .error id
  have hends (lower upper : Number) : Textless (do
      let low ← op.apply (← left.least) lower
      let high ← op.apply (← left.greatest) upper
      return some (← Support.between low high) : Except Fault (Option Support)) :=
    Support.textless_least.bind fun _ => textless_apply.bind fun low =>
      Support.textless_greatest.bind fun _ => textless_apply.bind fun high =>
        (hbetween low high).bind fun _ => .ok
  unfold shortcutMixed
  split
  · exact .ok
  refine (hdense left).bind fun dense => ?_
  split
  · refine (hdense right).bind fun dense => ?_
    split
    · split
      · exact Support.textless_greatest.bind fun _ => Support.textless_least.bind fun _ =>
          hends _ _
      · exact Support.textless_least.bind fun _ => Support.textless_greatest.bind fun _ =>
          hends _ _
    · exact .ok
  · exact .ok

theorem textless_outcomes {limit : Limit.Reading} {key : String} {op : Op}
    {left right : Support} : Textless (op.outcomes limit key left right) := by
  have hquick : Textless (op.quick left right) := by
    unfold quick
    split
    · exact textless_shortcut.map
    · exact textless_shortcutMixed
  refine hquick.bind fun quick => ?_
  cases quick with
  | some results => exact .ok
  | none => exact textless_enumerate

end Op

/-- What holds of the memos holds again when an answer has been kept under a key that is allowed. -/
def Store.Admits (inv : Store → Prop) (allowed : MemoName → String → Prop) : Prop :=
  ∀ (store : Store) (memo : MemoName) (aspect : Aspect) (key : String) (answer : aspect.Answer),
    inv store → allowed memo key → inv (store.keep memo aspect key answer).2

/-- All parts keep their answers under keys that are allowed. -/
def Expr.KeysIn (allowed : MemoName → String → Prop) (e : Expr) : Prop :=
  ∀ part ∈ e.parts, allowed part.memo part.render

/-- What holds of the memos holds behind work that is memoized under a key that is allowed. -/
theorem Store.Admits.memoize {inv : Store → Prop} {allowed : MemoName → String → Prop}
    (ha : Store.Admits inv allowed) {memo : MemoName} {aspect : Aspect} {key : String}
    {work : Eval aspect.Answer} {fail : Fault → Prop} (hk : allowed memo key)
    (h : Meets inv work (fun _ => True) fail) :
    Meets inv (DiceFormula.memoize memo aspect key work) (fun _ => True) fail :=
  h.memoize (fun _ _ _ _ => trivial) fun store answer hs _ =>
    ⟨trivial, ha store memo aspect key answer hs hk⟩

/-- The work keeps what holds of the memos, and is not ended for a text. -/
def Eval.Textless (inv : Store → Prop) (work : Eval α) : Prop :=
  Meets inv work (fun _ => True) fun fault => ¬ fault.Textual

namespace Eval.Textless

variable {inv : Store → Prop}

theorem pure {a : α} : Eval.Textless inv (Pure.pure a) := Meets.pure trivial

theorem throw {fault : Fault} (h : ¬ fault.Textual) : Eval.Textless inv (throw fault : Eval α) :=
  Meets.throw h

theorem bind {work : Eval α} {next : α → Eval β} (h : Eval.Textless inv work)
    (hn : ∀ a, Eval.Textless inv (next a)) : Eval.Textless inv (work >>= next) :=
  Meets.bind h fun a _ => hn a

theorem ite {c : Prop} [Decidable c] {work other : Eval α} (h : Eval.Textless inv work)
    (ho : Eval.Textless inv other) : Eval.Textless inv (if c then work else other) := by
  split
  · exact h
  · exact ho

theorem ofExcept {result : Except Fault α} (h : DiceFormula.Textless result) :
    Eval.Textless inv (MonadExcept.ofExcept result) := by
  cases result with
  | ok a => exact pure
  | error fault => exact throw (h fault rfl)

theorem ofNumber {result : Except Number.Fault α} : Eval.Textless inv (Eval.ofNumber result) :=
  ofExcept .number

theorem memoize {allowed : MemoName → String → Prop} (ha : Store.Admits inv allowed)
    {memo : MemoName} {aspect : Aspect} {key : String} {work : Eval aspect.Answer}
    (hk : allowed memo key) (h : Eval.Textless inv work) :
    Eval.Textless inv (DiceFormula.memoize memo aspect key work) :=
  ha.memoize hk h

end Eval.Textless

namespace Expr

variable {inv : Store → Prop} {allowed : MemoName → String → Prop} {limit : Limit.Reading}

section Evaluation

variable (ha : Store.Admits inv allowed)

include ha

theorem outcomes_textless {e : Expr} (he : e.KeysIn allowed) :
    Eval.Textless inv (e.outcomes limit) := by
  induction e with
  | blank => exact .throw id
  | number => exact .pure
  | roll memo count faces ihc ihf =>
    obtain ⟨hc, hf, hk⟩ := forall_parts_roll.mp he
    refine .memoize ha hk ((ihf hf).bind fun faces => ?_)
    refine .bind (.ofExcept Support.textless_greatest) fun top => ?_
    exact .ite .pure ((ihc hc).bind fun counts => .ofExcept Support.textless_ofRoll)
  | binary memo op left right ihl ihr =>
    obtain ⟨hl, hr, hk⟩ := forall_parts_binary.mp he
    rw [outcomes_binary]
    refine .memoize ha hk ((ihl hl).bind fun lefts => (ihr hr).bind fun rights => ?_)
    exact .ofExcept Op.textless_outcomes

theorem mayBeNegative_textless {e : Expr} (he : e.KeysIn allowed) :
    Eval.Textless inv (e.mayBeNegative limit) := by
  induction e with
  | blank => exact .throw id
  | number => exact .pure
  | roll => exact .pure
  | binary memo op left right ihl ihr =>
    obtain ⟨hl, hr, hk⟩ := forall_parts_binary.mp he
    have hlook (possible : Bool) : Eval.Textless inv (if possible then do
        let least ← MonadExcept.ofExcept (← (binary memo op left right).outcomes limit).least
        Eval.ofNumber least.isNegative
      else return false) :=
      .ite ((outcomes_textless ha he).bind fun s => .bind (.ofExcept Support.textless_least)
        fun _ => .ofNumber) .pure
    refine .memoize ha hk ?_
    cases op with
    | add | mul | div =>
      exact (ihl hl).bind fun b => .ite (Eval.Textless.pure.bind hlook) ((ihr hr).bind hlook)
    | pow => exact (ihl hl).bind hlook
    | sub | unspecified => exact Eval.Textless.pure.bind hlook

theorem bothPositive_textless {left right : Expr} (hl : left.KeysIn allowed)
    (hr : right.KeysIn allowed) : Eval.Textless inv (bothPositive limit left right) :=
  (outcomes_textless ha hl).bind fun _ => .bind (.ofExcept Support.textless_least) fun _ =>
    .bind .ofNumber fun _ => .ite ((outcomes_textless ha hr).bind fun _ =>
      .bind (.ofExcept Support.textless_least) fun _ => .ofNumber) .pure

theorem mayBeZero_textless {e : Expr} (he : e.KeysIn allowed) :
    Eval.Textless inv (e.mayBeZero limit) := by
  induction e with
  | blank => exact .throw id
  | number => exact .pure
  | roll _ count faces ihc ihf =>
    obtain ⟨hc, hf, -⟩ := forall_parts_roll.mp he
    exact (ihc hc).bind fun b => .ite .pure (ihf hf)
  | binary memo op left right ihl ihr =>
    obtain ⟨hl, hr, hk⟩ := forall_parts_binary.mp he
    have hlook (possible : Bool) : Eval.Textless inv (if possible then do
        return (← (binary memo op left right).outcomes limit).hasZero
      else return false) :=
      .ite ((outcomes_textless ha he).bind fun s => .pure) .pure
    refine .memoize ha hk ?_
    cases op with
    | div =>
      exact (outcomes_textless ha hl).bind fun _ =>
        .bind (.ofExcept Support.textless_leastAbs) fun _ =>
          (outcomes_textless ha hr).bind fun _ =>
            .bind (.ofExcept Support.textless_greatestAbs) fun _ => .ofNumber
    | add =>
      exact (bothPositive_textless ha hl hr).bind fun b => Eval.Textless.pure.bind hlook
    | mul | pow =>
      exact (ihl hl).bind fun b => .ite (Eval.Textless.pure.bind hlook) ((ihr hr).bind hlook)
    | sub | unspecified => exact Eval.Textless.pure.bind hlook

theorem mkRoll_textless {memo : MemoName} {count faces : Expr} (hc : count.KeysIn allowed)
    (hf : faces.KeysIn allowed) :
    Meets inv (mkRoll limit memo count faces) (· = roll memo count faces)
      fun fault => ¬ fault.Textual := by
  refine Meets.bind (mayBeNegative_textless ha hc) fun b _ => ?_
  refine Meets.guard (fun _ => id) fun _ => ?_
  refine Meets.bind (mayBeNegative_textless ha hf) fun b _ => ?_
  exact Meets.guard (fun _ => id) fun _ => Meets.pure rfl

theorem mkBinary_textless {memo : MemoName} {op : Op} {left right : Expr}
    (hl : left.KeysIn allowed) (hr : right.KeysIn allowed) :
    Meets inv (mkBinary limit memo op left right) (· = binary memo op left right)
      fun fault => ¬ fault.Textual := by
  cases op with
  | add | sub | mul | unspecified => exact Meets.pure rfl
  | div =>
    rw [mkBinary_div]
    refine Meets.bind (mayBeZero_textless ha hl) fun zero _ => ?_
    refine Meets.bind (mayBeZero_textless ha hr) fun b _ => ?_
    exact Meets.guard (fun _ => id) fun _ => Meets.pure rfl
  | pow =>
    refine Meets.bind (mayBeNegative_textless ha hr) fun b _ => ?_
    exact Meets.guard (fun _ => id) fun _ => Meets.pure rfl

/-- Expressions are built as they are written or refused for what they are, and nothing is kept but
under keys that are allowed. -/
theorem constructs_allowed {memo : MemoName} (hm : ∀ key, allowed memo key) :
    Constructs limit memo inv (KeysIn allowed) fun _ fault => ¬ fault.Textual where
  number value := by simpa [KeysIn, parts, Expr.memo] using hm _
  roll _ _ hc hf := (mkRoll_textless ha hc hf).weaken fun e he => by
    subst he
    exact ⟨rfl, forall_parts_roll.mpr ⟨hc, hf, hm _⟩⟩
  binary _ _ _ _ hl hr := (mkBinary_textless ha hl hr).weaken fun e he => by
    subst he
    exact ⟨rfl, forall_parts_binary.mpr ⟨hl, hr, hm _⟩⟩

end Evaluation

/-- Whatever the memos hold, expressions are built as they are written or refused for what they
are. -/
theorem constructs_textless {memo : MemoName} :
    Constructs limit memo (fun _ => True) (KeysIn fun _ _ => True) fun _ fault =>
      ¬ fault.Textual :=
  constructs_allowed (fun _ _ _ _ _ _ _ => trivial) fun _ => trivial

end Expr

end DiceFormula
