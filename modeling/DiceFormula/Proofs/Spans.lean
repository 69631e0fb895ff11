import DiceFormula.Outcomes.Totals

namespace DiceFormula

namespace Run

/-- A stack of separate runs, the highest on top. -/
def Stacked (runs : List Run) : Prop := runs.Pairwise fun r s => s.Before r

theorem stacked_pushOn {runs : List Run} {r : Run} (h : Stacked runs)
    (hlo : ∀ s ∈ runs, s.lo ≤ r.lo) : Stacked (pushOn runs r) := by
  cases runs with
  | nil => exact List.pairwise_singleton _ _
  | cons last done =>
    obtain ⟨hd, ht⟩ := List.pairwise_cons.mp h
    simp only [pushOn]
    split
    · exact List.pairwise_cons.mpr ⟨hd, ht⟩
    · rename_i hgap
      have hb : last.Before r := Int.not_le.mp hgap
      refine List.pairwise_cons.mpr ⟨?_, h⟩
      intro s hs
      rcases List.mem_cons.mp hs with rfl | hs
      · exact hb
      · exact (hd s hs).trans hb

theorem lo_le_of_mem_pushOn {runs : List Run} {r : Run} (hlo : ∀ s ∈ runs, s.lo ≤ r.lo) :
    ∀ s ∈ pushOn runs r, s.lo ≤ r.lo := by
  cases runs with
  | nil => simp [pushOn]
  | cons last done =>
    have hlast := hlo last List.mem_cons_self
    have hdone := fun s hs => hlo s (List.mem_cons_of_mem last hs)
    simp only [pushOn]
    split
    · intro s hs
      rcases List.mem_cons.mp hs with rfl | hs
      · exact hlast
      · exact hdone s hs
    · intro s hs
      rcases List.mem_cons.mp hs with rfl | hs
      · exact Int.le_refl _
      · exact hlo s hs

theorem mem_extend {last r : Run} (hlo : last.lo ≤ r.lo) (hnear : r.lo ≤ last.hi + 1) {v : Int} :
    v ∈ last.extend r.hi ↔ v ∈ r ∨ v ∈ last := by
  have := r.le
  simp only [mem_iff, extend]
  omega

theorem mem_pushOn {runs : List Run} {r : Run} (hlo : ∀ s ∈ runs, s.lo ≤ r.lo) {v : Int} :
    (∃ s ∈ pushOn runs r, v ∈ s) ↔ v ∈ r ∨ ∃ s ∈ runs, v ∈ s := by
  cases runs with
  | nil => simp [pushOn]
  | cons last done =>
    simp only [pushOn]
    split
    · rename_i hnear
      simp only [List.mem_cons, exists_eq_or_imp,
        mem_extend (hlo last List.mem_cons_self) hnear, or_assoc]
    · simp

/-- Runs pushed in the order of their starts stay separate, and no member is lost or added. -/
theorem foldl_pushOn {rs acc : List Run} (hs : Stacked acc)
    (hlo : ∀ s ∈ acc, ∀ r ∈ rs, s.lo ≤ r.lo) (hasc : rs.Pairwise fun r r' => r.lo ≤ r'.lo) :
    Stacked (rs.foldl pushOn acc) ∧
      ∀ v, (∃ s ∈ rs.foldl pushOn acc, v ∈ s) ↔ (∃ r ∈ rs, v ∈ r) ∨ ∃ s ∈ acc, v ∈ s := by
  induction rs generalizing acc with
  | nil => exact ⟨hs, by simp⟩
  | cons r rs ih =>
    obtain ⟨hr, hasc⟩ := List.pairwise_cons.mp hasc
    have hacc : ∀ s ∈ acc, s.lo ≤ r.lo := fun s h => hlo s h r List.mem_cons_self
    have hnext : ∀ s ∈ pushOn acc r, ∀ r' ∈ rs, s.lo ≤ r'.lo := fun s h r' h' =>
      Int.le_trans (lo_le_of_mem_pushOn hacc s h) (hr r' h')
    obtain ⟨hstack, hmem⟩ := ih (stacked_pushOn hs hacc) hnext hasc
    refine ⟨hstack, fun v => (hmem v).trans ?_⟩
    simp only [mem_pushOn hacc, List.mem_cons, exists_eq_or_imp]
    exact or_left_comm.trans or_assoc.symm

theorem between?_eq_some {lo hi : Int} {r : Run} (h : between? lo hi = some r) :
    r.lo = lo ∧ r.hi = hi := by
  unfold between? at h
  split at h
  · cases h
    exact ⟨rfl, rfl⟩
  · cases h

theorem between?_of_le {lo hi : Int} (h : lo ≤ hi) : between? lo hi = some ⟨lo, hi, h⟩ := by
  simp [between?, h]

theorem pairwise_toList (r : Run) : r.toList.Pairwise (· < ·) := by
  refine List.pairwise_map.mpr (List.pairwise_lt_range.imp ?_)
  intro i j hij
  omega

end Run

namespace Outcomes

theorem pairwise_toList (o : Outcomes) : o.toList.Pairwise (· < ·) := by
  refine List.pairwise_flatMap.mpr ⟨fun r _ => r.pairwise_toList, o.apart.imp ?_⟩
  intro r s hrs v hv w hw
  have hv := (Run.mem_toList.mp hv).2
  have hw := (Run.mem_toList.mp hw).1
  simp only [Run.Before] at hrs
  omega

/-- For counts in order the totals are separate runs, and they hold the totals between `lowest` and
`top` times each count. -/
theorem totals_spec {lowest top : Int} {counts : List Int} (h0 : 0 ≤ lowest) (ht : lowest ≤ top)
    (hasc : counts.Pairwise (· < ·)) (hpos : ∀ c ∈ counts, 0 ≤ c) :
    Run.Stacked (totals lowest top counts) ∧
      ∀ v, (∃ r ∈ totals lowest top counts, v ∈ r) ↔
        ∃ c ∈ counts, c * lowest ≤ v ∧ v ≤ c * top := by
  have horder : (counts.filterMap fun c => Run.between? (c * lowest) (c * top)).Pairwise
      fun r r' => r.lo ≤ r'.lo := by
    refine List.pairwise_filterMap.mpr (hasc.imp ?_)
    intro c c' hcc r hr r' hr'
    rw [(Run.between?_eq_some hr).1, (Run.between?_eq_some hr').1]
    exact Int.mul_le_mul_of_nonneg_right (Int.le_of_lt hcc) h0
  have hempty : Run.Stacked [] := List.Pairwise.nil
  obtain ⟨hs, hm⟩ := Run.foldl_pushOn hempty (by simp) horder
  refine ⟨hs, fun v => (hm v).trans ?_⟩
  constructor
  · intro h
    rcases h with ⟨r, hr, hv⟩ | ⟨s, hs, -⟩
    · obtain ⟨c, hc, hb⟩ := List.mem_filterMap.mp hr
      obtain ⟨hlo, hhi⟩ := Run.between?_eq_some hb
      exact ⟨c, hc, hlo ▸ hv.1, hhi ▸ hv.2⟩
    · cases hs
  · intro h
    obtain ⟨c, hc, hv⟩ := h
    have hle : c * lowest ≤ c * top := Int.mul_le_mul_of_nonneg_left ht (hpos c hc)
    exact .inl ⟨_, List.mem_filterMap.mpr ⟨c, hc, Run.between?_of_le hle⟩, hv⟩

theorem mem_ofRoll {counts faces : Outcomes} {top : Int} (htop : 1 ≤ top)
    (hpos : ∀ c ∈ counts, 0 ≤ c) {v : Int} :
    v ∈ ofRoll counts faces top ↔
      ∃ c ∈ counts, c * (if (0 : Int) ∈ faces then 0 else 1) ≤ v ∧ v ≤ c * top := by
  have h0 : 0 ≤ (if (0 : Int) ∈ faces then 0 else 1 : Int) := by split <;> omega
  have ht : (if (0 : Int) ∈ faces then 0 else 1 : Int) ≤ top := by split <;> omega
  obtain ⟨-, hm⟩ := totals_spec h0 ht counts.pairwise_toList
    fun c hc => hpos c (mem_toList.mp hc)
  simp only [ofRoll, mem_ofRuns, List.mem_reverse, hm, mem_toList]

end Outcomes

end DiceFormula
