import DiceFormula.Proofs.Contract
import DiceFormula.Proofs.Entries
import DiceFormula.Proofs.Operators
import DiceFormula.Proofs.Outlines

namespace DiceFormula

/-- No entry is lost or changed. -/
def Store.Kept (old new : Store) : Prop :=
  ∀ (memo : MemoName) (aspect : Aspect) (key : String) (answer : aspect.Answer),
    (old.memo memo).find? aspect key = some answer → (new.memo memo).find? aspect key = some answer

namespace Store.Kept

variable {old mid new : Store}

theorem refl : Kept old old := fun _ _ _ _ h => h

theorem trans (h : Kept old mid) (h' : Kept mid new) : Kept old new :=
  fun _ _ _ _ hf => h' _ _ _ _ (h _ _ _ _ hf)

theorem keep (memo : MemoName) (aspect : Aspect) (key : String) (answer : aspect.Answer) :
    Kept old (old.keep memo aspect key answer).2 :=
  fun _ _ _ _ => find?_keep_of_some

end Store.Kept

/-- Work that has given an answer gives it again, without anything new to remember, for as long as
no entry is lost. -/
def Repeats (work : EStateM ε Store α) : Prop :=
  ∀ (old new : Store) (a : α), work old = .ok a new →
    old.Kept new ∧ ∀ later, new.Kept later → work later = .ok a later

namespace Repeats

variable {work : EStateM ε Store α}

theorem bind {next : α → EStateM ε Store β} (h : Repeats work) (hn : ∀ a, Repeats (next a)) :
    Repeats (work >>= next) := by
  intro old new b hr
  obtain ⟨a, mid, hw, hnext⟩ := exists_of_bind_ok hr
  obtain ⟨hfirst, hagain⟩ := h old mid a hw
  obtain ⟨hrest, hlast⟩ := hn a mid new b hnext
  refine ⟨hfirst.trans hrest, fun later hl => ?_⟩
  exact (bind_of_ok (hagain later (hrest.trans hl))).trans (hlast later hl)

theorem adaptExcept {f : ε → ε'} (h : Repeats work) : Repeats (work.adaptExcept f) := by
  intro old new a hr
  obtain ⟨hkept, hagain⟩ := h old new a (adaptExcept_ok.mp hr)
  exact ⟨hkept, fun later hl => adaptExcept_ok.mpr (hagain later hl)⟩

/-- The entry that holds the answer is what gives it again. -/
theorem memoize {memo : MemoName} {aspect : Aspect} {key : String} {work : Eval aspect.Answer}
    (h : Repeats work) : Repeats (DiceFormula.memoize memo aspect key work) := by
  intro old new a hr
  have hstored := memoize_stores hr
  refine ⟨?_, fun later hl => ?_⟩
  · rw [memoize_run] at hr
    cases hf : (old.memo memo).find? aspect key with
    | some found =>
      rw [hf] at hr
      cases hr
      exact .refl
    | none =>
      rw [hf] at hr
      cases hw : work old with
      | error fault mid =>
        rw [hw] at hr
        cases hr
      | ok answer mid =>
        rw [hw] at hr
        cases hr
        exact (h old mid answer hw).1.trans (.keep memo aspect key answer)
  · rw [memoize_run, hl _ _ _ _ hstored]

/-- What follows may take for granted that the answer is given again. -/
theorem bind_eq {next next' : α → EStateM ε Store β} {store : Store} (h : Repeats work)
    (hn : ∀ a mid, store.Kept mid → (∀ later, mid.Kept later → work later = .ok a later) →
      next a mid = next' a mid) : (work >>= next) store = (work >>= next') store := by
  simp only [Bind.bind, EStateM.bind]
  cases hw : work store with
  | error e mid => rfl
  | ok a mid =>
    obtain ⟨hkept, hagain⟩ := h store mid a hw
    exact hn a mid hkept hagain

end Repeats

/-- Work on the memos that only asks them can be done again. -/
theorem Outline.repeats {ε α : Type} {work : EStateM ε Store α} (o : Outline work) :
    Repeats work := by
  induction o with
  | pure a =>
    intro old new b h
    cases h
    exact ⟨.refl, fun _ _ => rfl⟩
  | throw e => exact fun _ _ _ h => by cases h
  | bind first rest ihf ihr => exact ihf.bind ihr
  | adapt f inner ih => exact ih.adaptExcept
  | memoize inner ih => exact ih.memoize

namespace Expr

variable {limit : Limit.Reading} {memo : MemoName} {op : Op} {left right : Expr}

/-- The outcomes of an operation are those of the operator on the outcomes of the operands. That
sums and differences may ask for these twice makes no difference. -/
theorem outcomes_binary :
    (binary memo op left right).outcomes limit =
      memoize memo .outcomes (binary memo op left right).render (do
        let lefts ← left.outcomes limit
        let rights ← right.outcomes limit
        MonadExcept.ofExcept
          (op.outcomes limit (binary memo op left right).render lefts rights)) := by
  have hpairs (h : op.onRuns? = none) := @Op.outcomes_of_onRuns limit
    (binary memo op left right).render op h
  cases op with
  | add | sub =>
    rw [outcomes]
    congr 1
    funext store
    refine (left.outcomesOutline limit).repeats.bind_eq fun lefts mid _ hleft => ?_
    refine (right.outcomesOutline limit).repeats.bind_eq fun rights last hkept hright => ?_
    rw [Op.outcomes]
    cases Op.quick _ lefts rights with
    | error fault => rfl
    | ok quick =>
      cases quick with
      | some results => rfl
      | none => exact (bind_of_ok (hleft last hkept)).trans (bind_of_ok (hright last .refl))
  | mul | div | pow | unspecified =>
    simp only [hpairs rfl]
    rfl

/-- A quotient is built by the answers for its operands. That the divisor may be asked twice makes
no difference. -/
theorem mkBinary_div :
    mkBinary limit memo .div left right = (do
      let zero ← left.mayBeZero limit
      if ← right.mayBeZero limit then
        throw (.check (if zero then .zeroOverZero else .zeroDivisor))
      return binary memo .div left right) := by
  unfold mkBinary
  refine bind_congr fun zero => ?_
  cases zero with
  | false => rfl
  | true =>
    funext store
    refine (right.mayBeZeroOutline limit).repeats.bind_eq fun b mid _ hagain => ?_
    cases b with
    | true => rfl
    | false => exact bind_of_ok (hagain mid .refl)

end Expr

end DiceFormula
