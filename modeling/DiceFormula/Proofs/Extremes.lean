import DiceFormula.Support

namespace DiceFormula

namespace Run

/-- Behind a run that stands before all others, members of the others keep their distance. -/
theorem before_member {r : Run} {runs : List Run} (h : ∀ s ∈ runs, r.Before s) {v : Int}
    (hv : ∃ s ∈ runs, v ∈ s) : r.hi + 1 < v := by
  obtain ⟨s, hs, hvs⟩ := hv
  have hb := h s hs
  simp only [Before] at hb
  simp only [mem_iff] at hvs
  omega

theorem mem_lo (r : Run) : r.lo ∈ r := ⟨Int.le_refl _, r.le⟩

theorem mem_hi (r : Run) : r.hi ∈ r := ⟨r.le, Int.le_refl _⟩

theorem head_lo_le {r : Run} {runs : List Run} (h : ∀ s ∈ runs, r.Before s) {v : Int}
    (hv : ∃ s ∈ r :: runs, v ∈ s) : r.lo ≤ v := by
  obtain ⟨s, hs, hvs⟩ := hv
  rcases List.mem_cons.mp hs with rfl | hs
  · exact hvs.1
  · have := before_member h ⟨s, hs, hvs⟩
    have := r.le
    omega

/-- The first run of separate runs ends no later than that of runs with the same members. -/
theorem head_hi_le {r s : Run} {xs ys : List Run} (hx : ∀ t ∈ xs, r.Before t)
    (hlo : r.lo = s.lo) (h : ∀ v, (∃ t ∈ s :: ys, v ∈ t) → ∃ t ∈ r :: xs, v ∈ t) :
    s.hi ≤ r.hi := by
  by_cases hle : s.hi ≤ r.hi
  · exact hle
  have hr := r.le
  -- The place right behind `r` is in `s`, but no run of the first list reaches it.
  obtain ⟨t, ht, hv⟩ := h (r.hi + 1) ⟨s, List.mem_cons_self, by simp only [mem_iff]; omega⟩
  rcases List.mem_cons.mp ht with rfl | ht
  · simp only [mem_iff] at hv
    omega
  · have := before_member hx ⟨t, ht, hv⟩
    omega

/-- Separate runs are determined by their members. -/
theorem eq_of_same_members {xs ys : List Run} (hx : xs.Pairwise Before) (hy : ys.Pairwise Before)
    (h : ∀ v, (∃ r ∈ xs, v ∈ r) ↔ ∃ r ∈ ys, v ∈ r) : xs = ys := by
  induction xs generalizing ys with
  | nil =>
    cases ys with
    | nil => rfl
    | cons s ys => simpa using (h s.lo).mpr ⟨s, List.mem_cons_self, s.mem_lo⟩
  | cons r xs ih =>
    cases ys with
    | nil => simpa using (h r.lo).mp ⟨r, List.mem_cons_self, r.mem_lo⟩
    | cons s ys =>
      obtain ⟨hrx, hxs⟩ := List.pairwise_cons.mp hx
      obtain ⟨hsy, hys⟩ := List.pairwise_cons.mp hy
      have hlo : r.lo = s.lo := by
        have := head_lo_le hsy ((h r.lo).mp ⟨r, List.mem_cons_self, r.mem_lo⟩)
        have := head_lo_le hrx ((h s.lo).mpr ⟨s, List.mem_cons_self, s.mem_lo⟩)
        omega
      have hhi : r.hi = s.hi := Int.le_antisymm (head_hi_le hsy hlo.symm fun v => (h v).mp)
        (head_hi_le hrx hlo fun v => (h v).mpr)
      have hrs : r = s := by
        cases r
        cases s
        simp_all
      subst hrs
      have htail : ∀ v, (∃ t ∈ xs, v ∈ t) ↔ ∃ t ∈ ys, v ∈ t := by
        intro v
        have hv := h v
        simp only [List.mem_cons, exists_eq_or_imp] at hv
        constructor
        · intro hm
          have hfar := before_member hrx hm
          exact (hv.mp (.inr hm)).resolve_left fun hr => by have := hr.2; omega
        · intro hm
          have hfar := before_member hsy hm
          exact (hv.mpr (.inr hm)).resolve_left fun hr => by have := hr.2; omega
      rw [ih hxs hys htail]

end Run

namespace Outcomes

theorem ext_of_mem {o p : Outcomes} (h : ∀ v, v ∈ o ↔ v ∈ p) : o = p := by
  cases o with
  | mk xs hx =>
    cases p with
    | mk ys hy =>
      have := Run.eq_of_same_members hx hy h
      subst this
      rfl

theorem mem_ofRun {v : Int} {r : Run} : v ∈ ofRun r ↔ v ∈ r := by
  simp [mem_iff, ofRun]

/-- A set is a run when there is no other run in its list. -/
theorem eq_ofRun {o : Outcomes} {r : Run} (h : o.runs = [r]) : o = ofRun r := by
  cases o
  cases h
  rfl

theorem mem_single {v w : Int} : v ∈ single w ↔ v = w := mem_ofRun.trans Run.mem_single

theorem runs_ne_nil {o : Outcomes} (h : ∃ v, v ∈ o) : o.runs ≠ [] := by
  obtain ⟨v, r, hr, -⟩ := h
  exact List.ne_nil_of_mem hr

theorem min?_of_nonempty {o : Outcomes} (h : ∃ v, v ∈ o) :
    ∃ m, o.min? = some m ∧ m ∈ o ∧ ∀ v ∈ o, m ≤ v := by
  cases o with
  | mk runs apart =>
    cases runs with
    | nil => exact absurd rfl (runs_ne_nil h)
    | cons r rest =>
      obtain ⟨hr, -⟩ := List.pairwise_cons.mp apart
      exact ⟨r.lo, rfl, ⟨r, List.mem_cons_self, r.mem_lo⟩, fun v hv => Run.head_lo_le hr hv⟩

theorem max?_of_nonempty {o : Outcomes} (h : ∃ v, v ∈ o) :
    ∃ m, o.max? = some m ∧ m ∈ o ∧ ∀ v ∈ o, v ≤ m := by
  have hne := runs_ne_nil h
  have hsplit := List.dropLast_concat_getLast hne
  have hlast := List.getLast_mem hne
  refine ⟨(o.runs.getLast hne).hi, ?_, ⟨_, hlast, Run.mem_hi _⟩, ?_⟩
  · rw [max?, List.getLast?_eq_some_getLast hne]
    rfl
  · intro v hv
    obtain ⟨r, hr, hvr⟩ := hv
    have hapart := o.apart
    rw [← hsplit] at hr hapart
    rcases List.mem_append.mp hr with hr | hr
    · have hb := (List.pairwise_append.mp hapart).2.2 r hr _ List.mem_cons_self
      have := (o.runs.getLast hne).le
      have := hvr.2
      simp only [Run.Before] at hb
      omega
    · rw [List.mem_singleton.mp hr] at hvr
      exact hvr.2

/-- A member of a run without zero lies between the absolute values of its ends. -/
theorem natAbs_between {r : Run} (hz : ¬ (0 : Int) ∈ r) {v : Int} (hv : v ∈ r) :
    min r.lo.natAbs r.hi.natAbs ≤ v.natAbs ∧ v.natAbs ≤ max r.lo.natAbs r.hi.natAbs := by
  simp only [Run.mem_iff] at hz hv
  omega

theorem minAbs?_of_nonempty {o : Outcomes} (h : ∃ v, v ∈ o) :
    ∃ m, o.minAbs? = some m ∧ (∃ v ∈ o, v.natAbs = m) ∧ ∀ v ∈ o, m ≤ v.natAbs := by
  by_cases hz : (0 : Int) ∈ o
  · exact ⟨0, by simp [minAbs?, hz], ⟨0, hz, rfl⟩, fun v _ => Nat.zero_le _⟩
  · have hne : (o.runs.map fun r => min r.lo.natAbs r.hi.natAbs) ≠ [] := by
      simpa using runs_ne_nil h
    obtain ⟨m, hm⟩ := Option.ne_none_iff_exists'.mp (mt List.min?_eq_none_iff.mp hne)
    obtain ⟨hmem, hle⟩ := List.min?_eq_some_iff.mp hm
    refine ⟨m, by rw [minAbs?, if_neg hz, hm], ?_, ?_⟩
    · obtain ⟨r, hr, rfl⟩ := List.mem_map.mp hmem
      by_cases hlo : r.lo.natAbs ≤ r.hi.natAbs
      · exact ⟨r.lo, ⟨r, hr, r.mem_lo⟩, by omega⟩
      · exact ⟨r.hi, ⟨r, hr, r.mem_hi⟩, by omega⟩
    · intro v hv
      obtain ⟨r, hr, hv⟩ := hv
      have := hle _ (List.mem_map_of_mem hr)
      have := natAbs_between (fun h0 => hz ⟨r, hr, h0⟩) hv
      omega

theorem maxAbs?_of_nonempty {o : Outcomes} (h : ∃ v, v ∈ o) :
    ∃ m, o.maxAbs? = some m ∧ (∃ v ∈ o, v.natAbs = m) ∧ ∀ v ∈ o, v.natAbs ≤ m := by
  have hne : (o.runs.map fun r => max r.lo.natAbs r.hi.natAbs) ≠ [] := by
    simpa using runs_ne_nil h
  obtain ⟨m, hm⟩ := Option.ne_none_iff_exists'.mp (mt List.max?_eq_none_iff.mp hne)
  obtain ⟨hmem, hle⟩ := List.max?_eq_some_iff.mp hm
  refine ⟨m, hm, ?_, ?_⟩
  · obtain ⟨r, hr, rfl⟩ := List.mem_map.mp hmem
    by_cases hlo : r.lo.natAbs ≤ r.hi.natAbs
    · exact ⟨r.hi, ⟨r, hr, r.mem_hi⟩, by omega⟩
    · exact ⟨r.lo, ⟨r, hr, r.mem_lo⟩, by omega⟩
  · intro v hv
    obtain ⟨r, hr, hv⟩ := hv
    have := hle _ (List.mem_map_of_mem hr)
    simp only [Run.mem_iff] at hv
    omega

end Outcomes

namespace Support

variable {o : Outcomes}

theorem least_integers (h : ∃ v, v ∈ o) :
    ∃ m, (integers o).least = .ok (.integer m) ∧ m ∈ o ∧ ∀ v ∈ o, m ≤ v := by
  obtain ⟨m, hm, hs⟩ := Outcomes.min?_of_nonempty h
  exact ⟨m, by simp [least, bound, hm], hs⟩

theorem greatest_integers (h : ∃ v, v ∈ o) :
    ∃ m, (integers o).greatest = .ok (.integer m) ∧ m ∈ o ∧ ∀ v ∈ o, v ≤ m := by
  obtain ⟨m, hm, hs⟩ := Outcomes.max?_of_nonempty h
  exact ⟨m, by simp [greatest, bound, hm], hs⟩

theorem leastAbs_integers (h : ∃ v, v ∈ o) :
    ∃ m : Nat, (integers o).leastAbs = .ok (.integer m) ∧ (∃ v ∈ o, v.natAbs = m) ∧
      ∀ v ∈ o, m ≤ v.natAbs := by
  obtain ⟨m, hm, hs⟩ := Outcomes.minAbs?_of_nonempty h
  exact ⟨m, by simp [leastAbs, bound, hm], hs⟩

theorem greatestAbs_integers (h : ∃ v, v ∈ o) :
    ∃ m : Nat, (integers o).greatestAbs = .ok (.integer m) ∧ (∃ v ∈ o, v.natAbs = m) ∧
      ∀ v ∈ o, v.natAbs ≤ m := by
  obtain ⟨m, hm, hs⟩ := Outcomes.maxAbs?_of_nonempty h
  exact ⟨m, by simp [greatestAbs, bound, hm], hs⟩

end Support

end DiceFormula
