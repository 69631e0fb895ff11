import DiceFormula.Proofs.Evaluation

namespace DiceFormula.Expr

section Checks

variable {inv : Store → Prop} {fail : Fault → Prop} {P Q G : Prop}

/-- Two questions in turn, the second one only when the first is answered with no. -/
theorem either_meets {first second : Eval Bool} (hf : Meets inv first (· = true ↔ P) fail)
    (hs : Meets inv second (· = true ↔ Q) fail) :
    Meets inv (do if ← first then pure true else second) (· = true ↔ P ∨ Q) fail := by
  refine Meets.bind hf fun b hb => ?_
  cases b with
  | true => exact Meets.pure ⟨fun _ => .inl (hb.mp rfl), fun _ => rfl⟩
  | false =>
    refine hs.weaken fun c hc => hc.trans ⟨.inr, ?_⟩
    intro h
    rcases h with hp | hq
    · cases hb.mpr hp
    · exact hq

/-- A cheap question that must be answered with yes wherever the thorough one is. -/
theorem thorough_meets {cheap thorough : Eval Bool} (hc : Meets inv cheap (· = true ↔ P) fail)
    (ht : Meets inv thorough (· = true ↔ G) fail) (hgp : G → P) :
    Meets inv (do if ← cheap then thorough else return false) (· = true ↔ G) fail := by
  refine Meets.bind hc fun b hb => ?_
  cases b with
  | true => exact ht
  | false =>
    have hno : ¬ G := fun hg => by cases hb.mpr (hgp hg)
    exact Meets.pure (by simp [hno])

/-- Two cheap questions, of which one must be answered with yes wherever the thorough one is. -/
theorem thorough_meets_either {first second thorough : Eval Bool}
    (hf : Meets inv first (· = true ↔ P) fail) (hs : Meets inv second (· = true ↔ Q) fail)
    (ht : Meets inv thorough (· = true ↔ G) fail) (hg : G → P ∨ Q) :
    Meets inv (do
      if ← first then
        let possible ← pure true
        if possible then thorough else return false
      else
        let possible ← second
        if possible then thorough else return false) (· = true ↔ G) fail := by
  refine Meets.bind hf fun b hb => ?_
  cases b with
  | true => exact ht
  | false =>
    refine thorough_meets hs ht fun h => (hg h).resolve_left fun hp => ?_
    cases hb.mpr hp

end Checks

section Predicates

variable {limit : Limit.Reading} {fail : Fault → Prop}

/-- Evaluation finds the values of the expression, or ends with a fault that is allowed. -/
def Evaluates (limit : Limit.Reading) (fail : Fault → Prop) (e : Expr) : Prop :=
  Meets Store.Truthful (e.outcomes limit) (e.Answers .outcomes) fail

/-- Work that goes on with the least outcome goes on with the least value. -/
theorem least_meets {e : Expr} (he : e.Safe) (ho : e.Evaluates limit fail)
    {next : Number → Eval α} {post : α → Prop}
    (hn : ∀ m : Int, e.Yields m → (∀ v, e.Yields v → m ≤ v) →
      Meets Store.Truthful (next (.integer m)) post fail) :
    Meets Store.Truthful
      (do
        let s ← e.outcomes limit
        let least ← MonadExcept.ofExcept s.least
        next least) post fail := by
  refine Meets.bind ho ?_
  intro s hs
  obtain ⟨o, rfl, ho⟩ := hs
  obtain ⟨m, hm, hmem, hmin⟩ := Support.least_integers (he.exists_mem ho)
  refine Meets.bind_ofExcept hm ?_
  exact hn m ((ho m).mp hmem) fun v hv => hmin v ((ho v).mpr hv)

/-- The look at the outcomes for a negative one. -/
theorem negative_outcomes_meets {e : Expr} (he : e.Safe) (ho : e.Evaluates limit fail) :
    Meets Store.Truthful
      (do
        let least ← MonadExcept.ofExcept (← e.outcomes limit).least
        Eval.ofNumber least.isNegative)
      (e.Answers .negative) fail := by
  refine least_meets he ho fun m hm hmin => Meets.ofExcept_ok rfl ?_
  simp only [Answers, decide_eq_true_eq]
  constructor
  · exact fun h => ⟨m, hm, h⟩
  · intro h
    obtain ⟨v, hv, h⟩ := h
    have := hmin v hv
    omega

/-- The look at the outcomes for zero. -/
theorem zero_outcomes_meets {e : Expr} (ho : e.Evaluates limit fail) :
    Meets Store.Truthful (do return (← e.outcomes limit).hasZero) (e.Answers .zero) fail := by
  refine Meets.bind ho ?_
  intro s hs
  obtain ⟨o, rfl, ho⟩ := hs
  refine Meets.pure ?_
  simp only [Answers, Support.hasZero, decide_eq_true_eq]
  exact ho 0

section Operands

variable {memo : MemoName} {op : Op} {left right : Expr}

/-- Sums, products and quotients of numbers that are not negative are none. -/
theorem negative_operand (ho : op = .add ∨ op = .mul ∨ op = .div)
    (h : ∃ v, (binary memo op left right).Yields v ∧ v < 0) :
    (∃ x, left.Yields x ∧ x < 0) ∨ ∃ y, right.Yields y ∧ y < 0 := by
  obtain ⟨v, ⟨x, y, hx, hy, rfl⟩, hneg⟩ := h
  by_cases hx0 : x < 0
  · exact .inl ⟨x, hx, hx0⟩
  · refine .inr ⟨y, hy, ?_⟩
    by_cases hy0 : y < 0
    · exact hy0
    · have := Op.value_nonneg ho (Int.not_lt.mp hx0) (Int.not_lt.mp hy0)
      omega

theorem negative_base (h : ∃ v, (binary memo .pow left right).Yields v ∧ v < 0) :
    ∃ x, left.Yields x ∧ x < 0 := by
  obtain ⟨v, ⟨x, y, hx, hy, rfl⟩, hneg⟩ := h
  refine ⟨x, hx, ?_⟩
  by_cases hx0 : x < 0
  · exact hx0
  · have := Op.value_pow_nonneg (y := y) (Int.not_lt.mp hx0)
    omega

theorem zero_operand (ho : op = .mul ∨ op = .pow)
    (h : (binary memo op left right).Yields 0) : left.Yields 0 ∨ right.Yields 0 := by
  obtain ⟨x, y, hx, hy, h0⟩ := h
  by_cases hx0 : x = 0
  · exact .inl (hx0 ▸ hx)
  · by_cases hy0 : y = 0
    · exact .inr (hy0 ▸ hy)
    · exact absurd h0.symm (Op.value_ne_zero ho hx0 hy0)

end Operands

theorem mayBeNegative_meets_of {e : Expr} (he : e.Safe)
    (ho : ∀ part ∈ e.parts, part.Evaluates limit fail) :
    Meets Store.Truthful (e.mayBeNegative limit) (e.Answers .negative) fail := by
  induction e with
  | blank => exact he.elim
  | number memo value =>
    refine Meets.pure ?_
    simp only [Answers, Yields, decide_eq_true_eq]
    constructor
    · exact fun h => ⟨value, rfl, h⟩
    · intro h
      obtain ⟨_, rfl, h⟩ := h
      exact h
  | roll memo count faces =>
    refine Meets.pure ?_
    simp only [Answers, Bool.false_eq_true, false_iff]
    intro h
    obtain ⟨v, hv, h⟩ := h
    have := roll_nonneg hv
    omega
  | binary memo op left right ihl ihr =>
    obtain ⟨hl, hr, hwhole⟩ := forall_parts_binary.mp ho
    have hlook := negative_outcomes_meets he hwhole
    rw [mayBeNegative]
    refine memoize_meets he ?_
    cases op with
    | add | mul | div =>
      exact thorough_meets_either (ihl he.1 hl) (ihr he.2.1 hr) hlook (negative_operand (by simp))
    | pow => exact thorough_meets (ihl he.1 hl) hlook negative_base
    | sub | unspecified => exact hlook

theorem positive_iff {e : Expr} {m : Int} (hm : e.Yields m) (hmin : ∀ v, e.Yields v → m ≤ v) :
    0 < m ↔ ∀ v, e.Yields v → 0 < v := by
  constructor
  · intro h v hv
    have := hmin v hv
    omega
  · exact fun h => h m hm

theorem bothPositive_meets {left right : Expr} (hl : left.Safe) (hr : right.Safe)
    (hlo : left.Evaluates limit fail) (hro : right.Evaluates limit fail) :
    Meets Store.Truthful (bothPositive limit left right)
      (· = true ↔ (∀ x, left.Yields x → 0 < x) ∧ ∀ y, right.Yields y → 0 < y) fail := by
  refine least_meets hl hlo fun m hm hmin => ?_
  refine Meets.bind_ofExcept (a := decide (0 < m)) rfl ?_
  rw [← positive_iff hm hmin]
  by_cases h : 0 < m
  · rw [if_pos (decide_eq_true h)]
    refine least_meets hr hro fun k hk hkmin => Meets.ofExcept_ok rfl ?_
    rw [← positive_iff hk hkmin]
    simp [h]
  · rw [if_neg (by simpa using h)]
    exact Meets.pure (by simp [h])

/-- A quotient can be zero when the smallest dividend is smaller than the largest divisor, both by
absolute value. -/
theorem zero_quotient_meets {memo : MemoName} {left right : Expr}
    (he : (binary memo .div left right).Safe) (hlo : left.Evaluates limit fail)
    (hro : right.Evaluates limit fail) :
    Meets Store.Truthful
      (do
        let least ← MonadExcept.ofExcept (← left.outcomes limit).leastAbs
        let greatest ← MonadExcept.ofExcept (← right.outcomes limit).greatestAbs
        Eval.ofNumber (least.less greatest))
      ((binary memo .div left right).Answers .zero) fail := by
  obtain ⟨hl, hr, hw⟩ := he
  refine Meets.bind hlo ?_
  intro s hs
  obtain ⟨ls, rfl, hls⟩ := hs
  obtain ⟨least, hleast, ⟨x, hx, hxl⟩, hmin⟩ := Support.leastAbs_integers (hl.exists_mem hls)
  refine Meets.bind_ofExcept hleast ?_
  refine Meets.bind hro ?_
  intro s hs
  obtain ⟨rs, rfl, hrs⟩ := hs
  obtain ⟨greatest, hgreatest, ⟨y, hy, hyg⟩, hmax⟩ :=
    Support.greatestAbs_integers (hr.exists_mem hrs)
  refine Meets.bind_ofExcept hgreatest ?_
  refine Meets.ofExcept_ok rfl ?_
  have hnz : ∀ z, right.Yields z → z ≠ 0 := fun z hz => by simpa [Op.isWholeAt] using hw z hz
  simp only [Answers, Yields, decide_eq_true_eq, Int.ofNat_lt]
  constructor
  · intro h
    refine ⟨x, y, (hls x).mp hx, (hrs y).mp hy, ?_⟩
    exact ((Op.value_div_eq_zero (hnz y ((hrs y).mp hy))).mpr (by omega)).symm
  · intro h
    obtain ⟨x', y', hx', hy', h0⟩ := h
    have hlt := (Op.value_div_eq_zero (hnz y' hy')).mp h0.symm
    have := hmin x' ((hls x').mpr hx')
    have := hmax y' ((hrs y').mpr hy')
    omega

/-- A sum can be zero only when one of its sides is not positive. -/
theorem zero_sum {memo : MemoName} {left right : Expr}
    (h : (binary memo .add left right).Yields 0) :
    ¬ ((∀ x, left.Yields x → 0 < x) ∧ ∀ y, right.Yields y → 0 < y) := by
  intro hpos
  obtain ⟨hl, hr⟩ := hpos
  obtain ⟨x, y, hx, hy, h0⟩ := h
  have := hl x hx
  have := hr y hy
  simp only [Op.value] at h0
  omega

theorem mayBeZero_meets_of {e : Expr} (he : e.Safe)
    (ho : ∀ part ∈ e.parts, part.Evaluates limit fail) :
    Meets Store.Truthful (e.mayBeZero limit) (e.Answers .zero) fail := by
  induction e with
  | blank => exact he.elim
  | number memo value =>
    refine Meets.pure ?_
    simp only [Answers, Yields, beq_iff_eq]
    exact eq_comm
  | roll memo count faces ihc ihf =>
    obtain ⟨hc, hf, -⟩ := forall_parts_roll.mp ho
    refine (either_meets (ihc he.1 hc) (ihf he.2.1 hf)).weaken fun b hb => ?_
    exact hb.trans he.roll_zero.symm
  | binary memo op left right ihl ihr =>
    obtain ⟨hl, hr, hwhole⟩ := forall_parts_binary.mp ho
    have hlo := hl left left.self_mem_parts
    have hro := hr right right.self_mem_parts
    have hlook := zero_outcomes_meets hwhole
    cases op with
    | add =>
      unfold mayBeZero
      refine memoize_meets he (Meets.bind (bothPositive_meets he.1 he.2.1 hlo hro) fun b hb => ?_)
      refine thorough_meets (Meets.pure ?_) hlook zero_sum
      rw [← hb]
      cases b <;> simp
    | mul | pow =>
      unfold mayBeZero
      refine memoize_meets he ?_
      exact thorough_meets_either (ihl he.1 hl) (ihr he.2.1 hr) hlook (zero_operand (by simp))
    | div =>
      unfold mayBeZero
      exact memoize_meets he (zero_quotient_meets he hlo hro)
    | sub | unspecified =>
      unfold mayBeZero
      exact memoize_meets he hlook

theorem Safe.evaluates {e : Expr} (he : e.Safe) :
    ∀ part ∈ e.parts, part.Evaluates limit (Limit.Stops limit) :=
  fun part hpart => outcomes_meets (he.parts part hpart)

/-- Whether a negative value is possible is answered right, unless the limit stops the look at the
outcomes. -/
theorem mayBeNegative_meets {e : Expr} (he : e.Safe) :
    Meets Store.Truthful (e.mayBeNegative limit) (e.Answers .negative) (Limit.Stops limit) :=
  mayBeNegative_meets_of he he.evaluates

theorem mayBeZero_meets {e : Expr} (he : e.Safe) :
    Meets Store.Truthful (e.mayBeZero limit) (e.Answers .zero) (Limit.Stops limit) :=
  mayBeZero_meets_of he he.evaluates

end Predicates

end DiceFormula.Expr
