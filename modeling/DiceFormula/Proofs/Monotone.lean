import DiceFormula.Proofs.Bounds
import DiceFormula.Proofs.Unsigned

namespace DiceFormula

/-- Every draw between integer bounds that leave a value is answered as `pick` chooses. -/
def Roller.Picks (roller : Roller σ) (pick : Int → Int → Int) : Prop :=
  ∀ state low high, low ≤ high →
    ∃ state', roller.draw low (.integer high) state = .ok (.integer (pick low high)) state'

/-- A choice between two bounds stays between them. -/
def Chooses (pick : Int → Int → Int) : Prop :=
  ∀ low high, low ≤ high → low ≤ pick low high ∧ pick low high ≤ high

def lower (low _ : Int) : Int := low

def upper (_ high : Int) : Int := high

theorem lower_chooses : Chooses lower := fun _ _ h => ⟨Int.le_refl _, h⟩

theorem upper_chooses : Chooses upper := fun _ _ h => ⟨h, Int.le_refl _⟩

theorem Script.low_picks : Script.low.roller.Picks lower := fun _ _ _ _ => ⟨_, rfl⟩

theorem Script.high_picks : Script.high.roller.Picks upper := fun _ _ _ _ => ⟨_, rfl⟩

namespace Expr

/-- Expressions that grow with every die: no number is negative, no die blank, no base zero, and the
divisors are numbers. -/
inductive Monotone : Expr → Prop
  | number (memo : MemoName) {value : Int} (nonneg : 0 ≤ value) : Monotone (.number memo value)
  | roll (memo : MemoName) {count faces : Expr} (hc : count.Monotone) (hf : faces.Monotone)
      (shown : ¬ faces.Yields 0) : Monotone (.roll memo count faces)
  | binary (memo : MemoName) {op : Op} {left right : Expr}
      (grows : op = .add ∨ op = .mul ∨ op = .pow) (hl : left.Monotone) (hr : right.Monotone)
      (base : op = .pow → ¬ left.Yields 0) : Monotone (.binary memo op left right)
  | quotient (memo memo' : MemoName) {left : Expr} {value : Int} (hl : left.Monotone)
      (positive : 1 ≤ value) : Monotone (.binary memo .div left (.number memo' value))

/-- What the expression comes to when every die shows what `pick` chooses. -/
def steered (pick : Int → Int → Int) : Expr → Int
  | blank _ => 0
  | number _ value => value
  | roll _ count faces => count.steered pick * pick 1 (faces.steered pick)
  | binary _ op left right => op.value (left.steered pick) (right.steered pick)

variable {e : Expr} {pick : Int → Int → Int}

theorem Monotone.unsigned (h : e.Monotone) : e.Unsigned True := by
  induction h with
  | number _ nonneg => exact nonneg
  | roll _ _ _ _ ihc ihf => exact ⟨ihc, ihf⟩
  | binary _ grows _ _ _ ihl ihr => rcases grows with rfl | rfl | rfl <;> exact ⟨ihl, ihr⟩
  | quotient _ _ _ positive ihl => exact ⟨trivial, ihl, Int.le_trans (by decide) positive⟩

/-- A value other than zero is positive. -/
theorem Monotone.positive (h : e.Monotone) (h0 : ¬ e.Yields 0) {v : Int} (hv : e.Yields v) :
    1 ≤ v := by
  have hnonneg := h.unsigned.nonneg v hv
  have hne : v ≠ 0 := by
    rintro rfl
    exact h0 hv
  omega

theorem Monotone.safe (h : e.Monotone) : e.Safe := by
  induction h with
  | number => trivial
  | roll _ hc hf _ ihc ihf => exact ⟨ihc, ihf, hc.unsigned.nonneg, hf.unsigned.nonneg⟩
  | binary _ grows _ hr _ ihl ihr =>
    refine ⟨ihl, ihr, fun y hy => ?_⟩
    rcases grows with rfl | rfl | rfl
    · rfl
    · rfl
    · exact decide_eq_true (hr.unsigned.nonneg y hy)
  | quotient _ _ _ positive ihl =>
    refine ⟨ihl, trivial, ?_⟩
    rintro _ rfl
    exact decide_eq_true (by omega)

end Expr

/-- Sums, products and powers grow with both operands, from operands on that are not negative. -/
theorem Op.value_le_value {op : Op} (ho : op = .add ∨ op = .mul ∨ op = .pow) {x x' y y' : Int}
    (hx : 0 ≤ x) (hy : 0 ≤ y) (hxx : x ≤ x') (hyy : y ≤ y') (hpow : op = .pow → 1 ≤ x) :
    op.value x y ≤ op.value x' y' := by
  rcases ho with rfl | rfl | rfl
  · exact Int.add_le_add hxx hyy
  · exact Int.mul_le_mul hxx hyy hy (by omega)
  · simp only [value, Number.powNat_eq_pow]
    change x ^ y.toNat ≤ x' ^ y'.toNat
    calc x ^ y.toNat ≤ x ^ y'.toNat := pow_le_pow_right₀ (hpow rfl) (Int.toNat_le_toNat hyy)
      _ ≤ x' ^ y'.toNat := pow_le_pow_left₀ hx hxx _

namespace Expr

section Values

variable {e : Expr} {pick : Int → Int → Int}

theorem Monotone.steered_yields (h : e.Monotone) (hp : Chooses pick) :
    e.Yields (e.steered pick) := by
  induction h with
  | number => rfl
  | @roll _ count faces hc hf shown ihc ihf =>
    refine ⟨_, ihc, ?_⟩
    obtain ⟨hlo, hhi⟩ := hp 1 _ (hf.positive shown ihf)
    have hthrows := throws_same ihf (.inr ⟨hlo, hhi⟩) (count.steered pick).toNat
    rwa [Int.toNat_of_nonneg (hc.unsigned.nonneg _ ihc)] at hthrows
  | binary _ _ _ _ _ ihl ihr => exact ⟨_, _, ihl, ihr, rfl⟩
  | quotient _ _ _ _ ihl => exact ⟨_, _, ihl, rfl, rfl⟩

/-- The extreme answers lead to the extreme values. -/
theorem Monotone.between (h : e.Monotone) {v : Int} (hv : e.Yields v) :
    e.steered lower ≤ v ∧ v ≤ e.steered upper := by
  induction h generalizing v with
  | number =>
    obtain rfl := hv
    exact ⟨Int.le_refl _, Int.le_refl _⟩
  | @roll _ count faces hc hf shown ihc ihf =>
    -- Each die shows at least one and at most the greatest number of faces.
    obtain ⟨n, hn, hthrows⟩ := hv
    have htop := hf.steered_yields upper_chooses
    have hbound : ∀ f, faces.Yields f → 0 ≤ f ∧ f ≤ faces.steered upper := fun f hf' =>
      ⟨hf.unsigned.nonneg f hf', (ihf hf').2⟩
    obtain ⟨hlo, hhi⟩ := (throws_iff hbound htop (hf.positive shown htop) (.inr ⟨shown, rfl⟩)).mp
      hthrows
    rw [Int.toNat_of_nonneg (hc.unsigned.nonneg n hn)] at hlo hhi
    obtain ⟨hlow, hhigh⟩ := ihc hn
    refine ⟨Int.le_trans ?_ hlo, Int.le_trans hhi ?_⟩
    · exact Int.mul_le_mul_of_nonneg_right hlow (show (0 : Int) ≤ 1 by decide)
    · exact Int.mul_le_mul_of_nonneg_right hhigh (hbound _ htop).1
  | binary _ grows hl hr base ihl ihr =>
    obtain ⟨x, y, hx, hy, rfl⟩ := hv
    have hlow := hl.steered_yields lower_chooses
    have hlow' := hr.steered_yields lower_chooses
    constructor
    · exact Op.value_le_value grows (hl.unsigned.nonneg _ hlow) (hr.unsigned.nonneg _ hlow')
        (ihl hx).1 (ihr hy).1 fun hpow => hl.positive (base hpow) hlow
    · exact Op.value_le_value grows (hl.unsigned.nonneg x hx) (hr.unsigned.nonneg y hy)
        (ihl hx).2 (ihr hy).2 fun hpow => hl.positive (base hpow) hx
  | @quotient _ _ left value _ positive ihl =>
    have hpos : 0 < value := by omega
    obtain ⟨x, _, hx, rfl, rfl⟩ := hv
    exact ⟨Int.tdiv_le_tdiv hpos (ihl hx).1, Int.tdiv_le_tdiv hpos (ihl hx).2⟩

/-- When the lowest sample is positive, zero is no value. -/
theorem Monotone.not_yields_zero (h : e.Monotone) (h1 : 1 ≤ e.steered lower) : ¬ e.Yields 0 := by
  intro h0
  have := (h.between h0).1
  omega

end Values

section Bounds

variable {e : Expr} {limit : Limit.Reading}

/-- The lower bound comes from the lower bounds of the operands, without a look at any outcomes. -/
theorem Monotone.low_eq (h : e.Monotone) : e.low limit = pure (.integer (e.steered lower)) := by
  have hsafe := h.safe
  induction h with
  | number => rfl
  | roll _ _ _ _ ihc ihf => rw [low, ihc hsafe.1, steered, lower, Int.mul_one]
  | binary _ grows _ hr _ ihl ihr =>
    have hwhole := hsafe.2.2 _ (hr.steered_yields lower_chooses)
    rcases grows with rfl | rfl | rfl <;>
      exact operation_bound_eq (ihl hsafe.1) (ihr hsafe.2.1) hwhole
  | quotient _ _ _ positive ihl => exact quotient_bound_eq (ihl hsafe.1) rfl (hsafe.2.2 _ rfl)

theorem Monotone.high_eq (h : e.Monotone) : e.high limit = pure (.integer (e.steered upper)) := by
  have hsafe := h.safe
  induction h with
  | number => rfl
  | roll _ _ _ _ ihc ihf =>
    rw [high, ihc hsafe.1, ihf hsafe.2.1]
    rfl
  | binary _ grows _ hr _ ihl ihr =>
    have hwhole := hsafe.2.2 _ (hr.steered_yields upper_chooses)
    rcases grows with rfl | rfl | rfl <;>
      exact operation_bound_eq (ihl hsafe.1) (ihr hsafe.2.1) hwhole
  | quotient _ _ _ positive ihl => exact quotient_bound_eq (ihl hsafe.1) rfl (hsafe.2.2 _ rfl)

end Bounds

section Samples

variable {e : Expr} {inv : σ → Prop} {fail : Fault → Prop}

theorem total_same {die : Sampling σ Number} {shown : Int}
    (h : Meets inv die (· = .integer shown) fail) (sum : Int) (n : Nat) :
    Meets inv (Sampling.total die (.integer sum) n) (· = .integer (sum + n * shown)) fail := by
  induction n generalizing sum with
  | zero => exact Meets.pure (by simp)
  | succ n ih =>
    refine Meets.bind h ?_
    rintro _ rfl
    refine Meets.bind_ofExcept (a := Number.integer (sum + shown)) rfl ?_
    refine (ih (sum + shown)).weaken ?_
    rintro _ rfl
    rw [Int.natCast_add_one]
    congr 1
    ring

variable {roller : Roller σ} {pick : Int → Int → Int}

theorem single_steered (hr : roller.Picks pick) {faces : Int} (hf : 1 ≤ faces) :
    Meets (fun _ => True) (roller.single (.integer faces)) (· = .integer (pick 1 faces))
      fun _ => False := by
  have h0 : faces ≠ 0 := by omega
  unfold Roller.single
  rw [if_neg (by simpa [Number.isZero] using h0)]
  intro state _
  obtain ⟨state', hdraw⟩ := hr state 1 faces hf
  rw [hdraw]
  exact ⟨rfl, trivial⟩

/-- A source that always chooses in the same way steers the sample. -/
theorem Monotone.sample_steered (h : e.Monotone) (hp : Chooses pick) (hr : roller.Picks pick) :
    Meets (fun _ => True) (e.sample roller) (· = .integer (e.steered pick)) fun _ => False := by
  have hsafe := h.safe
  induction h with
  | number => exact Meets.pure rfl
  | @roll _ count faces hc hf shown ihc ihf =>
    have hdie : Meets (fun _ => True) (do roller.single (← faces.sample roller))
        (· = .integer (pick 1 (faces.steered pick))) fun _ => False := by
      refine Meets.bind (ihf hsafe.2.1) ?_
      rintro _ rfl
      exact single_steered hr (hf.positive shown (hf.steered_yields hp))
    refine Meets.bind (ihc hsafe.1) ?_
    rintro _ rfl
    refine (total_same hdie 0 _).weaken ?_
    rintro _ rfl
    rw [Int.toNat_of_nonneg (hc.unsigned.nonneg _ (hc.steered_yields hp)), Int.zero_add]
    rfl
  | binary _ _ _ hr' _ ihl ihr =>
    refine Meets.bind (ihl hsafe.1) ?_
    rintro _ rfl
    refine Meets.bind (ihr hsafe.2.1) ?_
    rintro _ rfl
    exact Meets.ofExcept_ok (Op.apply_integers (hsafe.2.2 _ (hr'.steered_yields hp))) rfl
  | quotient _ _ _ _ ihl =>
    refine Meets.bind (ihl hsafe.1) ?_
    rintro _ rfl
    exact Meets.ofExcept_ok (Op.apply_integers (hsafe.2.2 _ rfl)) rfl

end Samples

end Expr

/-- The bounds of an expression that grows with every die are its extreme outcomes, and what it is
sampled to when all draws are answered by their lower or all by their upper bound. -/
theorem bounds_tight {e : Expr} (h : e.Monotone) :
    ∃ (o : Outcomes) (least greatest : Int),
      (∀ now : Session, now.Reached →
        ∃ later, e.outcomes (.ok none) now.store = .ok (.integers o) later) ∧
      IsLeast {v | v ∈ o} least ∧ IsGreatest {v | v ∈ o} greatest ∧
      (∀ limit store, e.low limit store = .ok (.integer least) store) ∧
      (∀ limit store, e.high limit store = .ok (.integer greatest) store) ∧
      ∀ (σ : Type) (roller : Roller σ) (start : σ),
        (roller.Picks lower → ∃ stop, e.sample roller start = .ok (.integer least) stop) ∧
        (roller.Picks upper → ∃ stop, e.sample roller start = .ok (.integer greatest) stop) := by
  obtain ⟨o, ho, hnow⟩ := h.safe.same_outcomes
  refine ⟨o, e.steered lower, e.steered upper, hnow, ⟨?_, ?_⟩, ⟨?_, ?_⟩, ?_, ?_, ?_⟩
  · exact (ho _).mpr (h.steered_yields lower_chooses)
  · exact fun v hv => (h.between ((ho v).mp hv)).1
  · exact (ho _).mpr (h.steered_yields upper_chooses)
  · exact fun v hv => (h.between ((ho v).mp hv)).2
  · intro limit store
    rw [h.low_eq]
    rfl
  · intro limit store
    rw [h.high_eq]
    rfl
  · intro σ roller start
    have hsample {pick : Int → Int → Int} (hp : Chooses pick) (hr : roller.Picks pick) :
        ∃ stop, e.sample roller start = .ok (.integer (e.steered pick)) stop := by
      obtain ⟨_, stop, hrun, rfl, -⟩ :=
        (h.sample_steered hp hr).returns (fun _ => id) (s := start) trivial
      exact ⟨stop, hrun⟩
    exact ⟨hsample lower_chooses, hsample upper_chooses⟩

/-- Dice whose faces are rolled too, in a power and a quotient. -/
theorem bounds_tight_nested :
    ∃ e parsed, parse (.ok none) "" "((1+1d2)d(2d4))^1d2*3/2" {} = .ok e parsed ∧ e.Monotone ∧
      Script.low.roller.Picks lower ∧ Script.high.roller.Picks upper ∧
      ∃ (o : Outcomes) (least greatest : Int),
        (∀ now : Session, now.Reached →
          ∃ later, e.outcomes (.ok none) now.store = .ok (.integers o) later) ∧
        IsLeast {v | v ∈ o} least ∧ IsGreatest {v | v ∈ o} greatest ∧
        (∀ limit store, e.low limit store = .ok (.integer least) store) ∧
        (∀ limit store, e.high limit store = .ok (.integer greatest) store) ∧
        ∀ (σ : Type) (roller : Roller σ) (start : σ),
          (roller.Picks lower → ∃ stop, e.sample roller start = .ok (.integer least) stop) ∧
          (roller.Picks upper →
            ∃ stop, e.sample roller start = .ok (.integer greatest) stop) := by
  have hparse : ∃ e parsed,
      parse (.ok none) "" "((1+1d2)d(2d4))^1d2*3/2" {} = .ok e parsed ∧ e.Monotone := by
    refine ⟨?_, ?_, ?_, ?_⟩
    rotate_left 2
    · cbv
      rfl
    · have number (value : Nat) : Expr.Monotone (.number "" value) :=
        .number "" (Int.natCast_nonneg value)
      have hcoin := Expr.Monotone.roll "" (number 1) (number 2)
        ((number 2).not_yields_zero (by decide))
      have hfaces := Expr.Monotone.roll "" (number 2) (number 4)
        ((number 4).not_yields_zero (by decide))
      have hcount := Expr.Monotone.binary "" (.inl rfl) (number 1) hcoin (by simp)
      have hbase := Expr.Monotone.roll "" hcount hfaces (hfaces.not_yields_zero (by decide))
      have hpower := Expr.Monotone.binary "" (.inr (.inr rfl)) hbase hcoin
        fun _ => hbase.not_yields_zero (by decide)
      have hproduct := Expr.Monotone.binary "" (.inr (.inl rfl)) hpower (number 3) (by simp)
      exact .quotient "" "" hproduct (by decide)
  obtain ⟨e, parsed, hp, hmono⟩ := hparse
  exact ⟨e, parsed, hp, hmono, Script.low_picks, Script.high_picks, bounds_tight hmono⟩

end DiceFormula
