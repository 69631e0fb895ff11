import DiceFormula.Proofs.Extremes
import DiceFormula.Proofs.Spans

namespace DiceFormula

namespace Run

/-- The runs ascend and hold the integers with `p` and no others. The integers next to a run are
missing, so that no run can be longer and no two of them touch. -/
structure Resolve (runs : List Run) (p : Int → Prop) : Prop where
  ascending : runs.Pairwise fun r s => r.lo < s.lo
  forward : ∀ r ∈ runs, r.lo ≤ r.hi
  apart : runs.Pairwise fun r s => r.hi + 1 < s.lo
  union : ∀ v, (∃ r ∈ runs, r.lo ≤ v ∧ v ≤ r.hi) ↔ p v
  maximal : ∀ r ∈ runs, ¬ p (r.lo - 1) ∧ ¬ p (r.hi + 1)

/-- A run that reaches an integer next to another run is not separate from it. -/
theorem not_mem_beside {r : Run} {runs : List Run} (h : runs.Pairwise Before) (hr : r ∈ runs)
    {v : Int} (hv : v = r.lo - 1 ∨ v = r.hi + 1) : ¬ ∃ s ∈ runs, v ∈ s := by
  obtain ⟨front, behind, rfl⟩ := List.append_of_mem hr
  obtain ⟨-, hrest, hfront⟩ := List.pairwise_append.mp h
  have hle := r.le
  rintro ⟨s, hs, hlo, hhi⟩
  rcases List.mem_append.mp hs with hs | hs
  · have hbefore : s.hi + 1 < r.lo := hfront s hs r List.mem_cons_self
    omega
  · rcases List.mem_cons.mp hs with rfl | hs
    · omega
    · have hbehind : r.hi + 1 < s.lo := (List.pairwise_cons.mp hrest).1 s hs
      omega

/-- Separate runs are the maximal ones of their members. -/
theorem resolve_of_apart {runs : List Run} {p : Int → Prop} (h : runs.Pairwise Before)
    (hp : ∀ v, (∃ r ∈ runs, v ∈ r) ↔ p v) : Resolve runs p where
  ascending := h.imp fun {r s} hrs => by
    have := r.le
    simp only [Before] at hrs
    omega
  forward r _ := r.le
  apart := h
  union := hp
  maximal r hr := by
    rw [← hp, ← hp]
    exact ⟨not_mem_beside h hr (.inl rfl), not_mem_beside h hr (.inr rfl)⟩

end Run

namespace Outcomes

/-- Separate runs in order are kept as they are. -/
theorem runs_ofRuns {runs : List Run} (h : runs.Pairwise Run.Before) :
    (ofRuns runs).runs = runs := by
  have hsame : ofRuns runs = ⟨runs, h⟩ := ext_of_mem fun v => mem_ofRuns
  rw [hsame]

/-- One more count pushes its totals on the stack. -/
theorem totals_concat {lowest top c : Int} (h : c * lowest ≤ c * top) (done : List Int) :
    totals lowest top (done ++ [c]) =
      Run.pushOn (totals lowest top done) ⟨c * lowest, c * top, h⟩ := by
  simp [totals, Run.between?_of_le h]

variable {lowest top : Int} {counts : Outcomes}

/-- The totals of the first counts are maximal runs. -/
theorem totals_resolve (h0 : 0 ≤ lowest) (ht : lowest ≤ top) (hpos : ∀ c ∈ counts, 0 ≤ c)
    {done rest : List Int} (hcounts : counts.toList = done ++ rest) :
    Run.Resolve (totals lowest top done).reverse fun v =>
      ∃ c ∈ done, c * lowest ≤ v ∧ v ≤ c * top := by
  have hascending : (done ++ rest).Pairwise (· < ·) := hcounts ▸ counts.pairwise_toList
  have hdone : ∀ c ∈ done, 0 ≤ c := fun c hc =>
    hpos c (mem_toList.mp (hcounts ▸ List.mem_append_left rest hc))
  obtain ⟨hstacked, hmem⟩ := totals_spec h0 ht (List.pairwise_append.mp hascending).1 hdone
  refine Run.resolve_of_apart (List.pairwise_reverse.mpr hstacked) fun v => ?_
  simpa only [List.mem_reverse] using hmem v

/-- The totals of a roll are merged count by count. After each of the counts in order the runs are
the maximal ones of all totals so far, and in the end they are those of the outcomes. -/
theorem roll_merges_maximal_runs (hlowest : lowest = 0 ∨ lowest = 1) (htop : 1 ≤ top)
    (hpos : ∀ c ∈ counts, 0 ≤ c) :
    counts.toList.Pairwise (· < ·) ∧ (∀ c, c ∈ counts.toList ↔ c ∈ counts) ∧
    totals lowest top [] = [] ∧
    (∀ done c rest, counts.toList = done ++ c :: rest →
      ∃ h : c * lowest ≤ c * top, totals lowest top (done ++ [c]) =
        Run.pushOn (totals lowest top done) ⟨c * lowest, c * top, h⟩) ∧
    (∀ done rest, counts.toList = done ++ rest →
      Run.Resolve (totals lowest top done).reverse fun v =>
        ∃ c ∈ done, c * lowest ≤ v ∧ v ≤ c * top) ∧
    ∀ faces : Outcomes, lowest = (if (0 : Int) ∈ faces then 0 else 1) →
      (ofRoll counts faces top).runs = (totals lowest top counts.toList).reverse ∧
      Run.Resolve (ofRoll counts faces top).runs (· ∈ ofRoll counts faces top) := by
  have h0 : 0 ≤ lowest := by omega
  have ht : lowest ≤ top := by omega
  refine ⟨counts.pairwise_toList, fun c => mem_toList, rfl, ?_, ?_, ?_⟩
  · intro done c rest hcounts
    have hc : 0 ≤ c := hpos c (mem_toList.mp (by simp [hcounts]))
    exact ⟨Int.mul_le_mul_of_nonneg_left ht hc, totals_concat _ done⟩
  · exact fun done rest => totals_resolve h0 ht hpos
  · rintro faces rfl
    have hall := totals_resolve h0 ht hpos (List.append_nil counts.toList).symm
    refine ⟨runs_ofRuns hall.apart, Run.resolve_of_apart (ofRoll _ _ _).apart fun v => Iff.rfl⟩

/-- One, four or five dice with two faces: the totals of the last two counts are one run. -/
theorem roll_merges_maximal_runs_gap :
    let counts : Outcomes := .ofRuns [⟨4, 5, by decide⟩, .single 1]
    counts.toList = [1, 4, 5] ∧ (∀ c ∈ counts, 0 ≤ c) ∧
      (Run.Resolve (totals 1 2 [1, 4]).reverse fun v =>
        ∃ c ∈ [1, 4], c * 1 ≤ v ∧ v ≤ c * 2) ∧
      (totals 1 2 [1, 4, 5]).reverse = [⟨1, 2, by decide⟩, ⟨4, 10, by decide⟩] ∧
      (ofRoll counts (.single 2) 2).runs = (totals 1 2 [1, 4, 5]).reverse := by
  intro counts
  have hcounts : counts.toList = [1, 4, 5] := by decide
  have hpos : ∀ c ∈ counts, 0 ≤ c := by
    intro c hc
    have hmem : c ∈ [1, 4, 5] := hcounts ▸ mem_toList.mpr hc
    simp only [List.mem_cons, List.not_mem_nil, or_false] at hmem
    omega
  obtain ⟨-, -, -, -, hfirst, hlast⟩ :=
    @roll_merges_maximal_runs 1 2 counts (.inr rfl) (by decide) hpos
  refine ⟨hcounts, hpos, hfirst [1, 4] [5] hcounts, by decide, ?_⟩
  rw [← hcounts]
  exact (hlast (.single 2) (by decide)).1

end Outcomes

end DiceFormula
