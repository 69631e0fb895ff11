import DiceFormula.Expr

namespace DiceFormula

/-- A die shows a number from one up to its faces, or zero when it has none. -/
def Shows (faces shown : Int) : Prop :=
  faces = 0 ∧ shown = 0 ∨ 1 ≤ shown ∧ shown ≤ faces

/-- The sum of a number of dice can be `v` when each die picks its faces anew. -/
def Throws (faces : Int → Prop) : Nat → Int → Prop
  | 0, v => v = 0
  | n + 1, v => ∃ f shown rest, faces f ∧ Shows f shown ∧ Throws faces n rest ∧ v = shown + rest

/-- The sets of values without any shortcut: all sums of dice for all counts, and the operator on
all pairs of operands. -/
def Expr.Yields : Expr → Int → Prop
  | blank _, _ => False
  | number _ value, v => v = value
  | roll _ count faces, v => ∃ n, count.Yields n ∧ Throws faces.Yields n.toNat v
  | binary _ op left right, v => ∃ x y, left.Yields x ∧ right.Yields y ∧ v = op.value x y

/-- All parts, from left to right and operands before the whole. -/
def Expr.parts : Expr → List Expr
  | blank memo => [blank memo]
  | number memo value => [number memo value]
  | roll memo count faces => count.parts ++ faces.parts ++ [roll memo count faces]
  | binary memo op left right => left.parts ++ right.parts ++ [binary memo op left right]

/-- No part can go wrong: counts and faces are never negative, and each operator has an integer
result with all values of its second operand. -/
def Expr.Safe : Expr → Prop
  | blank _ => False
  | number _ _ => True
  | roll _ count faces =>
    count.Safe ∧ faces.Safe ∧ (∀ n, count.Yields n → 0 ≤ n) ∧ ∀ f, faces.Yields f → 0 ≤ f
  | binary _ op left right =>
    left.Safe ∧ right.Safe ∧ ∀ y, right.Yields y → op.isWholeAt y = true

theorem Shows.nonneg {faces shown : Int} (h : Shows faces shown) : 0 ≤ shown := by
  rcases h with ⟨-, h⟩ | ⟨h, -⟩ <;> omega

/-- A die can show as much as it has faces. -/
theorem shows_self {faces : Int} (h : 0 ≤ faces) : Shows faces faces := by
  by_cases h0 : faces = 0
  · exact .inl ⟨h0, h0⟩
  · exact .inr ⟨by omega, Int.le_refl _⟩

theorem exists_shows {faces : Int} (h : 0 ≤ faces) : ∃ shown, Shows faces shown :=
  ⟨faces, shows_self h⟩

section Throws

variable {faces : Int → Prop}

theorem throws_nonneg {n : Nat} {v : Int} (h : Throws faces n v) : 0 ≤ v := by
  induction n generalizing v with
  | zero => simp only [Throws] at h; omega
  | succ n ih =>
    obtain ⟨f, shown, rest, -, hs, hr, rfl⟩ := h
    have := hs.nonneg
    have := ih hr
    omega

theorem exists_throws (hf : ∀ f, faces f → 0 ≤ f) (hne : ∃ f, faces f) (n : Nat) :
    ∃ v, Throws faces n v := by
  induction n with
  | zero => exact ⟨0, rfl⟩
  | succ n ih =>
    obtain ⟨f, h⟩ := hne
    obtain ⟨shown, hs⟩ := exists_shows (hf f h)
    obtain ⟨rest, hr⟩ := ih
    exact ⟨shown + rest, f, shown, rest, h, hs, hr, rfl⟩

/-- Blank dice total zero, however many there are. -/
theorem throws_blank (hne : ∃ f, faces f) (hz : ∀ f, faces f → f = 0) {n : Nat} {v : Int} :
    Throws faces n v ↔ v = 0 := by
  induction n generalizing v with
  | zero => rfl
  | succ n ih =>
    constructor
    · intro h
      obtain ⟨f, shown, rest, hf, hs, hr, rfl⟩ := h
      have h0 := hz f hf
      have := ih.mp hr
      rcases hs with ⟨-, h⟩ | ⟨h, h'⟩ <;> omega
    · intro h
      subst h
      obtain ⟨f, hf⟩ := hne
      exact ⟨f, 0, 0, hf, .inl ⟨hz f hf, rfl⟩, ih.mpr rfl, rfl⟩

/-- One die out of `faces` shows the numbers from one to the most faces, and zero when it can be
blank. -/
theorem shows_iff {lowest top : Int} (hf : ∀ f, faces f → 0 ≤ f ∧ f ≤ top) (ht : faces top)
    (h1 : 1 ≤ top) (hl : faces 0 ∧ lowest = 0 ∨ ¬ faces 0 ∧ lowest = 1) {v : Int} :
    (∃ f, faces f ∧ Shows f v) ↔ lowest ≤ v ∧ v ≤ top := by
  constructor
  · intro h
    rcases h with ⟨f, h, ⟨rfl, rfl⟩ | ⟨hv, hvf⟩⟩
    · rcases hl with ⟨-, rfl⟩ | ⟨hn, -⟩
      · omega
      · exact absurd h hn
    · have := hf f h
      omega
  · intro h
    obtain ⟨hlo, hhi⟩ := h
    by_cases hv : 1 ≤ v
    · exact ⟨top, ht, .inr ⟨hv, hhi⟩⟩
    · rcases hl with ⟨h0, rfl⟩ | ⟨-, rfl⟩
      · exact ⟨0, h0, .inl ⟨rfl, by omega⟩⟩
      · omega

/-- The totals of `n` dice leave nothing out between `n` times the lowest and `n` times the highest
number of one die. -/
theorem throws_iff {lowest top : Int} (hf : ∀ f, faces f → 0 ≤ f ∧ f ≤ top) (ht : faces top)
    (h1 : 1 ≤ top) (hl : faces 0 ∧ lowest = 0 ∨ ¬ faces 0 ∧ lowest = 1) {n : Nat} {v : Int} :
    Throws faces n v ↔ n * lowest ≤ v ∧ v ≤ n * top := by
  have hle : lowest ≤ top := by rcases hl with ⟨-, rfl⟩ | ⟨-, rfl⟩ <;> omega
  have hone := @shows_iff faces lowest top hf ht h1 hl
  induction n generalizing v with
  | zero => simp only [Throws, Int.ofNat_zero, Int.zero_mul]; omega
  | succ n ih =>
    have hmul : (n : Int) * lowest ≤ n * top := Int.mul_le_mul_of_nonneg_left hle (by omega)
    simp only [Int.natCast_add, Int.natCast_one, Int.add_mul, Int.one_mul]
    constructor
    · intro h
      obtain ⟨f, shown, rest, h, hs, hr, rfl⟩ := h
      have hshown := hone.mp ⟨f, h, hs⟩
      have hrest := ih.mp hr
      omega
    · intro hv
      -- The first die shows as much of `v` as leaves a total that the other dice can have.
      have hsplit : ∃ shown, (lowest ≤ shown ∧ shown ≤ top) ∧
          n * lowest ≤ v - shown ∧ v - shown ≤ n * top :=
        ⟨max lowest (v - n * top), by omega, by omega⟩
      obtain ⟨shown, hshown, hrest⟩ := hsplit
      obtain ⟨f, h, hs⟩ := hone.mpr hshown
      exact ⟨f, shown, v - shown, h, hs, ih.mpr hrest, by omega⟩

/-- Dice total zero when there is none, or when all can be blank. -/
theorem throws_zero {n : Nat} :
    Throws faces n 0 ↔ n = 0 ∨ faces 0 := by
  constructor
  · intro h
    cases n with
    | zero => exact .inl rfl
    | succ n =>
      obtain ⟨f, shown, rest, h, hs, hr, h0⟩ := h
      have := throws_nonneg hr
      rcases hs with ⟨rfl, -⟩ | ⟨hs, -⟩
      · exact .inr h
      · omega
  · intro h
    rcases h with rfl | h
    · rfl
    · induction n with
      | zero => rfl
      | succ n ih => exact ⟨0, 0, 0, h, .inl ⟨rfl, rfl⟩, ih, rfl⟩

/-- Dice can all show the same. -/
theorem throws_same {f shown : Int} (hf : faces f) (hs : Shows f shown) (n : Nat) :
    Throws faces n (n * shown) := by
  induction n with
  | zero => exact Int.zero_mul shown
  | succ n ih =>
    refine ⟨f, shown, n * shown, hf, hs, ih, ?_⟩
    rw [Int.natCast_add_one, Int.add_mul, Int.one_mul, Int.add_comm]

end Throws

namespace Expr

theorem self_mem_parts (e : Expr) : e ∈ e.parts := by
  cases e <;> simp [parts]

theorem forall_parts_roll {P : Expr → Prop} {memo : MemoName} {count faces : Expr} :
    (∀ part ∈ (roll memo count faces).parts, P part) ↔
      (∀ part ∈ count.parts, P part) ∧ (∀ part ∈ faces.parts, P part) ∧
        P (roll memo count faces) := by
  simp [parts, or_imp, forall_and]

theorem forall_parts_binary {P : Expr → Prop} {memo : MemoName} {op : Op} {left right : Expr} :
    (∀ part ∈ (binary memo op left right).parts, P part) ↔
      (∀ part ∈ left.parts, P part) ∧ (∀ part ∈ right.parts, P part) ∧
        P (binary memo op left right) := by
  simp [parts, or_imp, forall_and]

theorem parts_subset {e part : Expr} (h : part ∈ e.parts) : part.parts ⊆ e.parts := by
  induction e with
  | blank | number =>
    obtain rfl := List.mem_singleton.mp h
    exact List.Subset.refl _
  | roll memo first second ihf ihs | binary memo op first second ihf ihs =>
    simp only [parts, List.mem_append, List.mem_singleton] at h
    rcases h with (h | h) | rfl
    · exact fun p hp => by simp [parts, ihf h hp]
    · exact fun p hp => by simp [parts, ihs h hp]
    · exact List.Subset.refl _

theorem Safe.parts {e : Expr} (he : e.Safe) : ∀ part ∈ e.parts, part.Safe := by
  induction e with
  | blank => exact he.elim
  | number => simpa [Expr.parts] using he
  | roll memo count faces ihc ihf =>
    exact forall_parts_roll.mpr ⟨ihc he.1, ihf he.2.1, he⟩
  | binary memo op left right ihl ihr =>
    exact forall_parts_binary.mpr ⟨ihl he.1, ihr he.2.1, he⟩

theorem Safe.exists_yields {e : Expr} (h : e.Safe) : ∃ v, e.Yields v := by
  induction e with
  | blank => exact h.elim
  | number memo value => exact ⟨value, rfl⟩
  | roll memo count faces ihc ihf =>
    obtain ⟨hc, hf, -, hpos⟩ := h
    obtain ⟨n, hn⟩ := ihc hc
    obtain ⟨v, hv⟩ := exists_throws hpos (ihf hf) n.toNat
    exact ⟨v, n, hn, hv⟩
  | binary memo op left right ihl ihr =>
    obtain ⟨hl, hr, -⟩ := h
    obtain ⟨x, hx⟩ := ihl hl
    obtain ⟨y, hy⟩ := ihr hr
    exact ⟨_, x, y, hx, hy, rfl⟩

/-- Only an operator with a meaning has integer results. -/
theorem Safe.op_ne {memo : MemoName} {op : Op} {left right : Expr}
    (h : (binary memo op left right).Safe) : op ≠ .unspecified := by
  intro h
  subst h
  obtain ⟨y, hy⟩ := h.2.1.exists_yields
  exact absurd (h.2.2 y hy) (by simp [Op.isWholeAt])

end Expr

end DiceFormula
