import DiceFormula.Proofs.Extremes
import DiceFormula.Support.Combine

namespace DiceFormula

theorem Number.powNat_eq_pow (x : Int) (n : Nat) : powNat x n = x.pow n := by
  change powNat x n = x ^ n
  unfold powNat
  split
  · rename_i h
    rw [h, Int.pow_zero]
  · split
    · rename_i hn hx
      -- The bases that do not grow: zero, one and minus one.
      have hcases : x = 0 ∨ x = 1 ∨ x = -1 := by omega
      rcases hcases with rfl | rfl | rfl
      · rw [Int.zero_pow hn]
        split <;> rfl
      · rw [Int.one_pow]
        split <;> rfl
      · rw [Int.neg_pow, Int.one_pow]
        split
        · rename_i heven
          rw [heven]
          rfl
        · have hodd : n % 2 = 1 := by omega
          rw [hodd]
          rfl
    · rfl

theorem Number.truncDiv_integers {x y : Int} (hy : y ≠ 0) :
    truncDiv (.integer x) (.integer y) = .ok (.integer (x.tdiv y)) := by
  have hq : (if (decide (x < 0) != decide (y < 0)) = true then -((x.natAbs : Int) / y.natAbs)
      else x.natAbs / y.natAbs) = x.tdiv y := by
    cases x with
    | ofNat m =>
      cases y with
      | ofNat n =>
        have hm : ¬ ((m : Int) < 0) := by omega
        have hn : ¬ ((n : Int) < 0) := by omega
        simp [Int.tdiv, hm, hn]
      | negSucc n => simp [Int.tdiv]
    | negSucc m => cases y <;> simp [Int.tdiv]
  simp only [truncDiv, Number.abs, floorDiv, isNegative, less, bind, Except.bind, pure, Except.pure,
    Int.natCast_eq_zero, Int.natAbs_eq_zero, hy, if_false, neg]
  rw [← hq]
  split <;> rfl

namespace Op

/-- The results of an operator, by pairs unless there is a shortcut. -/
def outcomes (limit : Limit.Reading) (key : String) (op : Op) (left right : Support) :
    Except Fault Support := do
  match ← op.quick left right with
  | some results => return results
  | none => op.enumerate limit key left right

theorem apply_integers {op : Op} {x y : Int} (h : op.isWholeAt y = true) :
    op.apply (.integer x) (.integer y) = .ok (.integer (op.value x y)) := by
  cases op with
  | add => rfl
  | sub => rfl
  | mul => rfl
  | div =>
    have hy : y ≠ 0 := by simpa [isWholeAt] using h
    simp only [apply, Number.truncDiv_integers hy]
    rfl
  | pow =>
    have hy : 0 ≤ y := by simpa [isWholeAt] using h
    simp only [apply, Number.pow, if_pos hy]
    rfl
  | unspecified => simp [isWholeAt] at h

theorem mem_image {op : Op} {left right : Outcomes} {v : Int} :
    v ∈ op.image left right ↔ ∃ x ∈ left, ∃ y ∈ right, v = op.value x y := by
  simp only [image, Outcomes.mem_ofList, List.mem_flatMap, List.mem_map, Outcomes.mem_toList]
  constructor
  · intro h
    obtain ⟨x, hx, y, hy, rfl⟩ := h
    exact ⟨x, hx, y, hy, rfl⟩
  · intro h
    obtain ⟨x, hx, y, hy, rfl⟩ := h
    exact ⟨x, hx, y, hy, rfl⟩

/-- A run of two runs holds the results of their members, and no others. -/
theorem mem_onRuns {op : Op} {f : Run → Run → Run} (hf : op.onRuns? = some f) {r s : Run}
    {v : Int} : v ∈ f r s ↔ ∃ x ∈ r, ∃ y ∈ s, v = op.value x y := by
  have hr := r.le
  have hs := s.le
  cases op with
  | add =>
    cases hf
    simp only [Run.mem_iff, Run.add, value]
    constructor
    · intro hv
      exact ⟨max r.lo (v - s.hi), by omega, v - max r.lo (v - s.hi), by omega, by omega⟩
    · intro h
      obtain ⟨x, hx, y, hy, rfl⟩ := h
      omega
  | sub =>
    cases hf
    simp only [Run.mem_iff, Run.sub, value]
    constructor
    · intro hv
      exact ⟨max r.lo (v + s.lo), by omega, max r.lo (v + s.lo) - v, by omega, by omega⟩
    · intro h
      obtain ⟨x, hx, y, hy, rfl⟩ := h
      omega
  | mul => cases hf
  | div => cases hf
  | pow => cases hf
  | unspecified => cases hf

variable {limit : Limit.Reading} {key : String} {op : Op}

/-- The operators that make a run of two runs do so under any limit. -/
theorem outcomes_ofRun {f : Run → Run → Run} (hf : op.onRuns? = some f) (r s : Run) :
    op.outcomes limit key (.integers (.ofRun r)) (.integers (.ofRun s)) =
      .ok (.integers (.ofRun (f r s))) := by
  simp only [outcomes, quick, shortcut, Outcomes.ofRun, hf]
  rfl

/-- The other operators go through the pairs. -/
theorem outcomes_of_onRuns (h : op.onRuns? = none) (left right : Support) :
    op.outcomes limit key left right = op.enumerate limit key left right := by
  have hquick : op.quick left right = .ok none := by
    cases left <;> cases right <;> simp [quick, shortcut, shortcutMixed, h] <;> rfl
  rw [outcomes, hquick]
  rfl

/-- Unless an operator makes a run of two runs, it goes through the pairs. -/
theorem outcomes_eq_enumerate {left right : Outcomes} (hl : ∃ v, v ∈ left)
    (hr : ∃ v, v ∈ right)
    (h : op.onRuns? = none ∨ ¬ ((∃ r, left = .ofRun r) ∧ ∃ s, right = .ofRun s)) :
    op.outcomes limit key (.integers left) (.integers right) =
      op.enumerate limit key (.integers left) (.integers right) := by
  have hnone : op.shortcut left right = .ok none := by
    unfold shortcut
    split
    · rfl
    · rename_i hleft
      exact absurd hleft (Outcomes.runs_ne_nil hl)
    · rename_i hright
      exact absurd hright (Outcomes.runs_ne_nil hr)
    · rename_i f r s hf hleft hright
      rcases h with hnone | hruns
      · rw [hnone] at hf
        cases hf
      · exact absurd ⟨⟨r, Outcomes.eq_ofRun hleft⟩, s, Outcomes.eq_ofRun hright⟩ hruns
    · rfl
  simp only [outcomes, quick, hnone]
  rfl

end Op

/-- The faults by which the limit ends an evaluation: the setting cannot be used, or there are more
pairs to visit than it allows. -/
def Limit.Stops (limit : Limit.Reading) : DiceFormula.Fault → Prop
  | .limit fault => limit = .error fault
  | .tooComplex _ loops bound => limit = .ok (some bound) ∧ bound < loops
  | _ => False

theorem Limit.not_stops_none {fault : DiceFormula.Fault} : ¬ Limit.Stops (.ok none) fault := by
  cases fault <;> simp [Stops]

namespace Op

theorem results_integers {op : Op} {left right : Outcomes}
    (hw : ∀ y ∈ right, op.isWholeAt y = true) :
    op.results (.integers left) (.integers right) = .ok (.integers (op.image left right)) := by
  have hall : right.toList.all op.isWholeAt = true :=
    List.all_eq_true.mpr fun y hy => hw y (Outcomes.mem_toList.mp hy)
  simp [results, hall]

theorem enumerate_integers (limit : Limit.Reading) (key : String) {op : Op} (left : Outcomes)
    {right : Outcomes} (hw : ∀ y ∈ right, op.isWholeAt y = true) :
    op.enumerate limit key (.integers left) (.integers right) =
        .ok (.integers (op.image left right)) ∨
      ∃ fault, op.enumerate limit key (.integers left) (.integers right) = .error fault ∧
        Limit.Stops limit fault := by
  unfold enumerate
  cases limit with
  | error fault => exact .inr ⟨_, rfl, rfl⟩
  | ok bound =>
    dsimp only
    split
    · rename_i b hb
      obtain ⟨hbound, hlt⟩ := Option.filter_eq_some_iff.mp hb
      exact .inr ⟨_, rfl, congrArg _ hbound, by simpa using hlt⟩
    · exact .inl (results_integers hw)

theorem enumerate_bounded {bound : Nat} {key : String} {op : Op} {left right : Outcomes}
    (hw : ∀ y ∈ right, op.isWholeAt y = true) :
    op.enumerate (.ok (some bound)) key (.integers left) (.integers right) =
      if bound < left.size * right.size then
        .error (.tooComplex key (left.size * right.size) bound)
      else .ok (.integers (op.image left right)) := by
  by_cases h : bound < left.size * right.size
  · simp [enumerate, Support.size, Option.filter, h]
  · simp [enumerate, Support.size, Option.filter, h, results_integers hw]

section Signs

variable {op : Op} {x y : Int}

theorem value_nonneg (ho : op = .add ∨ op = .mul ∨ op = .div) (hx : 0 ≤ x) (hy : 0 ≤ y) :
    0 ≤ op.value x y := by
  rcases ho with rfl | rfl | rfl
  · exact Int.add_nonneg hx hy
  · exact Int.mul_nonneg hx hy
  · exact Int.tdiv_nonneg hx hy

theorem value_pow_nonneg (hx : 0 ≤ x) : 0 ≤ Op.pow.value x y := by
  rw [value, Number.powNat_eq_pow]
  exact Int.pow_nonneg hx

theorem value_ne_zero (ho : op = .mul ∨ op = .pow) (hx : x ≠ 0) (hy : y ≠ 0) :
    op.value x y ≠ 0 := by
  rcases ho with rfl | rfl
  · exact Int.mul_ne_zero hx hy
  · rw [value, Number.powNat_eq_pow]
    exact Int.pow_ne_zero hx

/-- A quotient without its fraction is zero when the divisor is the larger. -/
theorem value_div_eq_zero (hy : y ≠ 0) : Op.div.value x y = 0 ↔ x.natAbs < y.natAbs := by
  rw [value, ← Int.natAbs_eq_zero, Int.natAbs_tdiv]
  exact Nat.div_eq_zero_iff_lt (by omega)

end Signs

end Op

end DiceFormula
