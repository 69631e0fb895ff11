import DiceFormula.Memo

namespace DiceFormula

namespace Memo

variable {memo : Memo} {aspect aspect' : Aspect} {key key' : String} {answer : aspect.Answer}

@[simp] theorem find?_insert_self :
    (memo.insert key aspect answer).find? aspect key = some answer := by
  cases aspect <;> simp [insert, find?, entries]

/-- An insertion touches one table, and there one key. -/
theorem find?_insert_of_ne (h : ¬ (aspect' = aspect ∧ key' = key)) :
    (memo.insert key aspect answer).find? aspect' key' = memo.find? aspect' key' := by
  cases aspect <;> cases aspect' <;>
    first
    | rfl
    | have hne : key' ≠ key := fun hk => h ⟨rfl, hk⟩
      simp [insert, find?, entries, List.lookup_cons, beq_false_of_ne hne]

end Memo

namespace Store

theorem lookup_filter_ne {name other : MemoName} (hne : other ≠ name)
    (memos : List (MemoName × Memo)) :
    (memos.filter fun entry => entry.1 != name).lookup other = memos.lookup other := by
  induction memos with
  | nil => rfl
  | cons entry memos ih =>
    obtain ⟨n, memo⟩ := entry
    by_cases hn : n = name
    · subst hn
      simp [List.lookup_cons, beq_false_of_ne hne, ih]
    · simp [hn, List.lookup_cons, ih]

theorem memo_set {store : Store} {name other : MemoName} {memo : Memo} :
    (store.set name memo).memo other = if other = name then memo else store.memo other := by
  by_cases h : other = name
  · simp [set, Store.memo, h]
  · simp only [set, Store.memo, h, if_false]
    rw [List.lookup_cons, beq_false_of_ne h]
    simp [lookup_filter_ne h]

variable {store : Store} {memo other : MemoName} {aspect aspect' : Aspect} {key key' : String}
  {answer : aspect.Answer}

theorem memo_keep_of_ne (h : other ≠ memo) :
    (store.keep memo aspect key answer).2.memo other = store.memo other := by
  simp only [keep, memo_set, if_neg h]

theorem memo_keep_self :
    (store.keep memo aspect key answer).2.memo memo =
      ((store.memo memo).keep aspect key answer).2 := by
  simp only [keep, memo_set, if_pos]

/-- What is kept is what has been there first. -/
theorem keep_fst :
    (store.keep memo aspect key answer).1 = ((store.memo memo).find? aspect key).getD answer := by
  simp only [keep, Memo.keep]
  cases (store.memo memo).find? aspect key with
  | some first | none => rfl

theorem find?_keep_self :
    ((store.keep memo aspect key answer).2.memo memo).find? aspect key =
      some (((store.memo memo).find? aspect key).getD answer) := by
  rw [memo_keep_self]
  simp only [Memo.keep]
  cases hf : (store.memo memo).find? aspect key with
  | some first => exact hf
  | none => exact Memo.find?_insert_self

/-- An answer that is there already stays, and only the key that is asked for is new. -/
theorem find?_keep_of_some {found : aspect'.Answer}
    (h : (store.memo other).find? aspect' key' = some found) :
    ((store.keep memo aspect key answer).2.memo other).find? aspect' key' = some found := by
  by_cases hm : other = memo
  · subst hm
    rw [memo_keep_self]
    simp only [Memo.keep]
    cases hf : (store.memo other).find? aspect key with
    | some first => exact h
    | none =>
      have hne : ¬ (aspect' = aspect ∧ key' = key) := by
        rintro ⟨rfl, rfl⟩
        rw [hf] at h
        cases h
      exact (Memo.find?_insert_of_ne hne).trans h
  · rw [memo_keep_of_ne hm]
    exact h

theorem find?_of_keep {found : aspect'.Answer}
    (h : ((store.keep memo aspect key answer).2.memo other).find? aspect' key' = some found) :
    (store.memo other).find? aspect' key' = some found ∨ other = memo ∧ key' = key := by
  by_cases hm : other = memo
  · subst hm
    by_cases hk : aspect' = aspect ∧ key' = key
    · exact .inr ⟨rfl, hk.2⟩
    · rw [memo_keep_self] at h
      simp only [Memo.keep] at h
      cases hf : (store.memo other).find? aspect key with
      | some first =>
        rw [hf] at h
        exact .inl h
      | none =>
        rw [hf] at h
        exact .inl ((Memo.find?_insert_of_ne hk).symm.trans h)
  · rw [memo_keep_of_ne hm] at h
    exact .inl h

end Store

section Memoize

variable {memo : MemoName} {aspect : Aspect} {key : String} {work : Eval aspect.Answer}
  {store later : Store}

theorem memoize_run :
    memoize memo aspect key work store =
      match (store.memo memo).find? aspect key with
      | some answer => .ok answer store
      | none =>
        match work store with
        | .ok answer store' =>
          .ok (store'.keep memo aspect key answer).1 (store'.keep memo aspect key answer).2
        | .error fault store' => .error fault store' := by
  have hget : (get : Eval Store) store = .ok store store := rfl
  simp only [memoize, bind, EStateM.bind, hget]
  cases (store.memo memo).find? aspect key with
  | some answer => rfl
  | none =>
    simp only [EStateM.bind]
    cases work store with
    | ok answer store' => rfl
    | error fault store' => rfl

/-- An answer that is given is remembered. -/
theorem memoize_stores {answer : aspect.Answer}
    (h : memoize memo aspect key work store = .ok answer later) :
    (later.memo memo).find? aspect key = some answer := by
  rw [memoize_run] at h
  cases hf : (store.memo memo).find? aspect key with
  | some first =>
    rw [hf] at h
    cases h
    exact hf
  | none =>
    rw [hf] at h
    cases hr : work store with
    | ok answer' mid =>
      rw [hr] at h
      cases h
      rw [Store.find?_keep_self, Store.keep_fst]
    | error fault mid =>
      rw [hr] at h
      cases h

end Memoize

end DiceFormula
