import DiceFormula.Proofs.Contract
import DiceFormula.Proofs.Entries
import DiceFormula.Proofs.Extremes
import DiceFormula.Proofs.Texts

namespace DiceFormula

/-- What is true of an expression under each aspect, by its values alone. -/
def Expr.Answers (e : Expr) : (aspect : Aspect) → aspect.Answer → Prop
  | .outcomes, s => ∃ o, s = .integers o ∧ ∀ v, v ∈ o ↔ e.Yields v
  | .zero, b => b = true ↔ e.Yields 0
  | .negative, b => b = true ↔ ∃ v, e.Yields v ∧ v < 0

theorem Expr.Answers.unique {e : Expr} {aspect : Aspect} {a b : aspect.Answer}
    (ha : e.Answers aspect a) (hb : e.Answers aspect b) : a = b := by
  cases aspect with
  | outcomes =>
    obtain ⟨o, rfl, ho⟩ := ha
    obtain ⟨p, rfl, hp⟩ := hb
    rw [Outcomes.ext_of_mem fun v => (ho v).trans (hp v).symm]
  | zero => exact Bool.eq_iff_iff.mpr (Iff.trans ha hb.symm)
  | negative => exact Bool.eq_iff_iff.mpr (Iff.trans ha hb.symm)

/-- The answers depend on the text alone. -/
theorem Expr.Answers.of_render_eq {e f : Expr} (he : e.Safe) (hf : f.Safe)
    (h : e.render = f.render) {aspect : Aspect} {a : aspect.Answer} (ha : e.Answers aspect a) :
    f.Answers aspect a := by
  have hy := Expr.yields_eq_of_render_eq he.concrete hf.concrete h
  cases aspect <;> simpa only [Answers, ← hy] using ha

/-- An entry is true when it answers for a safe expression with the text of the key. -/
def Aspect.TrueOf (aspect : Aspect) (key : String) (answer : aspect.Answer) : Prop :=
  ∃ e : Expr, e.Safe ∧ e.render = key ∧ e.Answers aspect answer

/-- All entries are true. -/
def Memo.Truthful (memo : Memo) : Prop :=
  ∀ aspect key answer, (key, answer) ∈ memo.entries aspect → aspect.TrueOf key answer

def Store.Truthful (store : Store) : Prop := ∀ name, (store.memo name).Truthful

theorem Memo.truthful_empty : Memo.Truthful {} := by
  intro aspect key answer h
  cases aspect <;> cases h

theorem Memo.Truthful.insert {memo : Memo} (h : memo.Truthful) {aspect : Aspect} {key : String}
    {answer : aspect.Answer} (ha : aspect.TrueOf key answer) :
    (memo.insert key aspect answer).Truthful := by
  intro aspect' key' answer' hm
  -- An insertion touches the table of its aspect only.
  cases aspect <;> cases aspect' <;>
    first
    | exact h _ _ _ hm
    | rcases List.mem_cons.mp hm with he | hm
      · cases he
        exact ha
      · exact h _ _ _ hm

theorem Memo.mem_entries_of_find? {memo : Memo} {aspect : Aspect} {key : String}
    {answer : aspect.Answer} (h : memo.find? aspect key = some answer) :
    (key, answer) ∈ memo.entries aspect := by
  obtain ⟨before, after, he, -⟩ := List.lookup_eq_some_iff.mp h
  simp [he]

/-- In a truthful memo an entry for the text of a safe expression answers for this expression. -/
theorem Memo.Truthful.answers {memo : Memo} (h : memo.Truthful) {e : Expr} (he : e.Safe)
    {aspect : Aspect} {answer : aspect.Answer} (hf : memo.find? aspect e.render = some answer) :
    e.Answers aspect answer := by
  obtain ⟨f, hs, hr, ha⟩ := h _ _ _ (Memo.mem_entries_of_find? hf)
  exact ha.of_render_eq hs he hr

namespace Store

theorem truthful_empty : Store.Truthful {} := fun _ => Memo.truthful_empty

theorem Truthful.set {store : Store} (h : store.Truthful) {name : MemoName} {memo : Memo}
    (hm : memo.Truthful) : (store.set name memo).Truthful := by
  intro other
  rw [memo_set]
  split
  · exact hm
  · exact h other

/-- Keeping a true answer yields a true answer and leaves true entries, whether or not there was one
already. -/
theorem Truthful.keep {store : Store} (h : store.Truthful) {e : Expr} (he : e.Safe)
    {name : MemoName} {aspect : Aspect} {answer : aspect.Answer} (ha : e.Answers aspect answer) :
    e.Answers aspect (store.keep name aspect e.render answer).1 ∧
      (store.keep name aspect e.render answer).2.Truthful := by
  simp only [Store.keep, Memo.keep]
  cases hf : (store.memo name).find? aspect e.render with
  | some first => exact ⟨(h name).answers he hf, h.set (h name)⟩
  | none => exact ⟨ha, h.set ((h name).insert ⟨e, he, rfl, ha⟩)⟩

end Store

/-- Remembered or worked out, the answer meets `post` when all entries do and keeping one leaves
that so. -/
theorem Meets.memoize {inv : Store → Prop} {name : MemoName} {aspect : Aspect} {key : String}
    {work : Eval aspect.Answer} {post : aspect.Answer → Prop} {fail : Fault → Prop}
    (hknown : ∀ store answer, inv store →
      (store.memo name).find? aspect key = some answer → post answer)
    (hkeep : ∀ store answer, inv store → post answer →
      post (store.keep name aspect key answer).1 ∧ inv (store.keep name aspect key answer).2)
    (h : Meets inv work post fail) :
    Meets inv (DiceFormula.memoize name aspect key work) post fail := by
  intro store hs
  rw [memoize_run]
  cases hf : (store.memo name).find? aspect key with
  | some answer => exact ⟨hknown store answer hs hf, hs⟩
  | none =>
    have hw := h store hs
    cases hr : work store with
    | ok answer later =>
      rw [hr] at hw
      exact hkeep later answer hw.2 hw.1
    | error fault later =>
      rw [hr] at hw
      exact hw

/-- Remembered or worked out, the answer is true, and so is what the memos hold after it. -/
theorem memoize_meets {e : Expr} (he : e.Safe) {name : MemoName} {aspect : Aspect}
    {work : Eval aspect.Answer} {fail : Fault → Prop}
    (h : Meets Store.Truthful work (e.Answers aspect) fail) :
    Meets Store.Truthful (memoize name aspect e.render work) (e.Answers aspect) fail :=
  h.memoize (fun _ _ hs hf => (hs name).answers he hf) fun _ _ hs ha => hs.keep he ha

end DiceFormula
