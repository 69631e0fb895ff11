import DiceFormula.Proofs.Contiguity
import DiceFormula.Proofs.Repeats
import DiceFormula.Proofs.Truth

namespace DiceFormula.Expr

section Roll

variable {memo : MemoName} {count faces : Expr}

theorem roll_nonneg {v : Int} (hv : (roll memo count faces).Yields v) : 0 ≤ v := by
  obtain ⟨n, -, hn⟩ := hv
  exact throws_nonneg hn

/-- A roll can be zero when its count can, or when its dice can be blank. -/
theorem Safe.roll_zero (he : (roll memo count faces).Safe) :
    (roll memo count faces).Yields 0 ↔ count.Yields 0 ∨ faces.Yields 0 := by
  obtain ⟨hc, -, hpos, -⟩ := he
  simp only [Yields, throws_zero]
  constructor
  · intro h
    rcases h with ⟨n, hn, h0 | hf⟩
    · have : n = 0 := by have := hpos n hn; omega
      exact .inl (this ▸ hn)
    · exact .inr hf
  · intro h
    rcases h with h0 | hf
    · exact ⟨0, h0, .inl rfl⟩
    · obtain ⟨n, hn⟩ := hc.exists_yields
      exact ⟨n, hn, .inr hf⟩

theorem Safe.roll_blank (he : (roll memo count faces).Safe)
    (hz : ∀ f, faces.Yields f → f = 0) {v : Int} :
    v ∈ Outcomes.single 0 ↔ (roll memo count faces).Yields v := by
  obtain ⟨n, hn⟩ := he.1.exists_yields
  simp only [Outcomes.mem_single, Yields, throws_blank he.2.1.exists_yields hz]
  constructor
  · exact fun hv => ⟨n, hn, hv⟩
  · intro h
    obtain ⟨_, _, hv⟩ := h
    exact hv

/-- The merged spans of all counts hold the totals of the roll. -/
theorem Safe.mem_ofRoll (he : (roll memo count faces).Safe) {cs fs : Outcomes} {top : Int}
    (hcs : ∀ v, v ∈ cs ↔ count.Yields v) (hfs : ∀ v, v ∈ fs ↔ faces.Yields v)
    (htop : top ∈ fs) (hmax : ∀ v ∈ fs, v ≤ top) (hpos : top ≠ 0) {v : Int} :
    v ∈ Outcomes.ofRoll cs fs top ↔ (roll memo count faces).Yields v := by
  obtain ⟨-, -, hcount, hface⟩ := he
  have h1 : 1 ≤ top := by
    have := hface top ((hfs top).mp htop)
    omega
  have hbound : ∀ f, faces.Yields f → 0 ≤ f ∧ f ≤ top := fun f hf =>
    ⟨hface f hf, hmax f ((hfs f).mpr hf)⟩
  have hlow : faces.Yields 0 ∧ (if (0 : Int) ∈ fs then 0 else 1 : Int) = 0 ∨
      ¬ faces.Yields 0 ∧ (if (0 : Int) ∈ fs then 0 else 1 : Int) = 1 := by
    by_cases h0 : (0 : Int) ∈ fs
    · exact .inl ⟨(hfs 0).mp h0, if_pos h0⟩
    · exact .inr ⟨fun hf => h0 ((hfs 0).mpr hf), if_neg h0⟩
  rw [Outcomes.mem_ofRoll h1 fun c hc => hcount c ((hcs c).mp hc)]
  simp only [Yields, throws_iff hbound ((hfs top).mp htop) h1 hlow, hcs]
  constructor
  · intro h
    obtain ⟨c, hc, hv⟩ := h
    refine ⟨c, hc, ?_⟩
    rwa [Int.toNat_of_nonneg (hcount c hc)]
  · intro h
    obtain ⟨c, hc, hv⟩ := h
    refine ⟨c, hc, ?_⟩
    rwa [Int.toNat_of_nonneg (hcount c hc)] at hv

end Roll

/-- Evaluation finds all values and no others. A limit can stop it at parts only that go through
pairs. -/
theorem outcomes_meets_of {e : Expr} (he : e.Safe) {limit : Limit.Reading} {fail : Fault → Prop}
    (hstop : ∀ part ∈ e.parts, part.Enumerates → ∀ fault, Limit.Stops limit fault → fail fault) :
    Meets Store.Truthful (e.outcomes limit) (e.Answers .outcomes) fail := by
  induction e with
  | blank => exact he.elim
  | number memo value => exact Meets.pure ⟨.single value, rfl, fun v => Outcomes.mem_single⟩
  | roll memo count faces ihc ihf =>
    obtain ⟨hcount, hfaces, -⟩ := forall_parts_roll.mp hstop
    rw [outcomes]
    refine memoize_meets he (Meets.bind (ihf he.2.1 hfaces) ?_)
    intro s hs
    obtain ⟨fs, rfl, hfs⟩ := hs
    obtain ⟨top, htop, hmem, hmax⟩ := Support.greatest_integers (he.2.1.exists_mem hfs)
    refine Meets.bind_ofExcept htop ?_
    by_cases hz : top = 0
    · have hblank : ∀ f, faces.Yields f → f = 0 := fun f hf => by
        have := he.2.2.2 f hf
        have := hmax f ((hfs f).mpr hf)
        omega
      rw [if_pos (by simpa [Number.isZero] using hz)]
      exact Meets.pure ⟨.single 0, rfl, fun v => he.roll_blank hblank⟩
    · rw [if_neg (by simpa [Number.isZero] using hz)]
      refine Meets.bind (ihc he.1 hcount) ?_
      intro s hs
      obtain ⟨cs, rfl, hcs⟩ := hs
      exact Meets.ofExcept_ok rfl
        ⟨.ofRoll cs fs top, rfl, fun v => he.mem_ofRoll hcs hfs hmem hmax hz⟩
  | binary memo op left right ihl ihr =>
    obtain ⟨hleft, hright, hwhole⟩ := forall_parts_binary.mp hstop
    rw [outcomes_binary]
    refine memoize_meets he (Meets.bind (ihl he.1 hleft) ?_)
    intro s hs
    obtain ⟨ls, rfl, hls⟩ := hs
    refine Meets.bind (ihr he.2.1 hright) ?_
    intro s hs
    obtain ⟨rs, rfl, hrs⟩ := hs
    by_cases hpairs : (binary memo op left right).Enumerates
    · rw [he.operation_by_pairs hls hrs hpairs]
      have hw : ∀ y ∈ rs, op.isWholeAt y = true := fun y hy => he.2.2 y ((hrs y).mp hy)
      rcases Op.enumerate_integers limit (binary memo op left right).render ls hw with
        ho | ⟨fault, hf, hfault⟩
      · exact Meets.ofExcept_ok ho
          ⟨_, rfl, fun v => Op.mem_image.trans (yields_binary hls hrs)⟩
      · exact Meets.ofExcept_error hf (hwhole hpairs fault hfault)
    · obtain ⟨r, hquick, hr⟩ := he.operation_of_runs hls hrs hpairs
      exact Meets.ofExcept_ok (hquick limit _) ⟨_, rfl, hr⟩

/-- Evaluation finds all values and no others, unless the limit stops it. -/
theorem outcomes_meets {e : Expr} (he : e.Safe) {limit : Limit.Reading} :
    Meets Store.Truthful (e.outcomes limit) (e.Answers .outcomes) (Limit.Stops limit) :=
  outcomes_meets_of he fun _ _ _ _ h => h

end DiceFormula.Expr
