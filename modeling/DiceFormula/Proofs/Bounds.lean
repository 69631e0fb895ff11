import DiceFormula.Proofs.Formulas

namespace DiceFormula

namespace Number

variable {n : Int}

/-- The result is no integer, if there is one. -/
def Fractional (result : Except Fault Number) : Prop := ∀ n : Int, result ≠ .ok (.integer n)

theorem Fractional.bind {result : Except Fault α} {next : α → Except Fault Number}
    (h : ∀ a, Fractional (next a)) : Fractional (result >>= next) := by
  cases result with
  | ok a => exact h a
  | error fault => exact nofun

theorem fractional_powDoubles (x y : Float) : Fractional (powDoubles x y) := by
  unfold powDoubles
  split
  · split <;> exact nofun
  · split
    · exact nofun
    · split
      · split <;> exact nofun
      · split
        · exact .bind fun _ => nofun
        · split
          · exact .bind fun _ => nofun
          · exact .bind fun _ => nofun

theorem fractional_powReal (x y : Number) : Fractional (powReal x y) := by
  refine .bind fun u => .bind fun v => ?_
  split
  · exact nofun
  · split
    · exact nofun
    · split <;> exact nofun
    · exact fractional_powDoubles u v

/-- Powers with a negative exponent lie off the integers. -/
theorem fractional_pow (x : Number) {w : Int} (hw : w < 0) : Fractional (x.pow (.integer w)) := by
  cases x with
  | integer v =>
    rw [pow, if_neg (Int.not_le.mpr hw)]
    exact fractional_powReal _ _
  | real | undefined => exact fractional_powReal _ _
  | complex =>
    refine .bind fun _ => .bind fun _ => ?_
    intro n h
    cases h

end Number

namespace Expr

section Applied

variable {limit : Limit.Reading} {op : Op} {first second : Eval Number} {x y : Int}

theorem apply_eq (hy : op.isWholeAt y = true) :
    (MonadExcept.ofExcept (op.apply (.integer x) (.integer y)) : Eval Number) =
      pure (.integer (op.value x y)) := by
  rw [Op.apply_integers hy]
  rfl

/-- The bound of an operation by way of the bounds of its operands. -/
theorem operation_bound_eq (hx : first = pure (.integer x)) (hy : second = pure (.integer y))
    (hw : op.isWholeAt y = true) :
    (do
      let x ← first
      MonadExcept.ofExcept (op.apply x (← second))) = pure (.integer (op.value x y)) := by
  subst hx hy
  exact apply_eq hw

/-- The outcomes of a quotient are not looked at unless the bound of its divisor is zero. -/
theorem quotient_bound_eq {memo : MemoName} {left right : Expr}
    {pick : Support → Except Fault Number} (hx : first = pure (.integer x))
    (hy : second = pure (.integer y)) (hw : Op.div.isWholeAt y = true) :
    (do
      if (← second).isZero then
        return ← MonadExcept.ofExcept (pick (← (binary memo .div left right).outcomes limit))
      let x ← first
      MonadExcept.ofExcept (Op.div.apply x (← second))) =
        pure (.integer (Op.div.value x y)) := by
  subst hx hy
  have h0 : y ≠ 0 := by simpa [Op.isWholeAt] using hw
  rw [pure_bind, if_neg (by simpa [Number.isZero] using h0)]
  exact apply_eq hw

variable {inv : Store → Prop} {fail : Fault → Prop}

theorem operation_bound_meets (hx : Meets inv first (· = .integer x) fail)
    (hy : Meets inv second (· = .integer y) fail) (hw : op.isWholeAt y = true) :
    Meets inv
      (do
        let x ← first
        MonadExcept.ofExcept (op.apply x (← second))) (· = .integer (op.value x y)) fail := by
  refine Meets.bind hx ?_
  rintro _ rfl
  refine Meets.bind hy ?_
  rintro _ rfl
  exact Meets.ofExcept_ok (Op.apply_integers hw) rfl

end Applied

variable {e : Expr} {limit : Limit.Reading}

/-- The upper bound is always reached: by the upper bounds of the operands, which are values too. -/
theorem Safe.high_attained (he : e.Safe) :
    ∃ v, e.Yields v ∧ ∀ limit, e.high limit = pure (.integer v) := by
  induction e with
  | blank => exact he.elim
  | number memo value => exact ⟨value, rfl, fun _ => rfl⟩
  | roll memo count faces ihc ihf =>
    obtain ⟨hc, hf, hcount, hfaces⟩ := he
    obtain ⟨n, hn, hmost⟩ := ihc hc
    obtain ⟨f, hface, htop⟩ := ihf hf
    refine ⟨n * f, ⟨n, hn, ?_⟩, fun limit => ?_⟩
    · have hthrows := throws_same hface (shows_self (hfaces f hface)) n.toNat
      rwa [Int.toNat_of_nonneg (hcount n hn)] at hthrows
    · rw [high, hmost, htop]
      rfl
  | binary memo op left right ihl ihr =>
    obtain ⟨hl, hr, hwhole⟩ := he
    obtain ⟨x, hx, hleft⟩ := ihl hl
    obtain ⟨y, hy, hright⟩ := ihr hr
    refine ⟨op.value x y, ⟨x, y, hx, hy, rfl⟩, fun limit => ?_⟩
    cases op with
    | div => exact quotient_bound_eq (hleft limit) (hright limit) (hwhole y hy)
    | add | sub | mul | pow | unspecified =>
      exact operation_bound_eq (hleft limit) (hright limit) (hwhole y hy)

/-- Some dice in the expression can have no faces. Their lower bound, the lower bound of their
count, need not be reached. -/
def HasBlank (e : Expr) : Prop :=
  ∃ memo count faces, roll memo count faces ∈ e.parts ∧ faces.Yields 0

theorem HasBlank.mono {e' : Expr} (h : e.HasBlank) (hp : e.parts ⊆ e'.parts) : e'.HasBlank := by
  obtain ⟨memo, count, faces, hmem, h0⟩ := h
  exact ⟨memo, count, faces, hp hmem, h0⟩

/-- A power with an exponent of which the lower bound is negative, though no value is. -/
def Sinks (limit : Limit.Reading) : Expr → Prop
  | binary _ .pow _ exponent => exponent.HasBlank ∧
    ∃ w < 0, Meets Store.Truthful (exponent.low limit) (· = .integer w) (Limit.Stops limit)
  | _ => False

/-- The lower bound is an integer, and reached unless some dice can be blank. -/
def Bottoms (limit : Limit.Reading) (e : Expr) (v : Int) : Prop :=
  Meets Store.Truthful (e.low limit) (· = .integer v) (Limit.Stops limit) ∧
    (e.HasBlank ∨ e.Yields v)

section Lower

variable {memo : MemoName} {op : Op} {left right count faces : Expr} {x y : Int}

theorem HasBlank.of_left (h : left.HasBlank) : (binary memo op left right).HasBlank :=
  h.mono (by simp [parts])

theorem HasBlank.of_right (h : right.HasBlank) : (binary memo op left right).HasBlank :=
  h.mono (by simp [parts])

/-- Values of the operands make one of the operation. -/
theorem reached_binary (hx : left.HasBlank ∨ left.Yields x) (hy : right.HasBlank ∨ right.Yields y) :
    (binary memo op left right).HasBlank ∨ (binary memo op left right).Yields (op.value x y) := by
  rcases hx with hx | hx
  · exact .inl hx.of_left
  · exact hy.imp HasBlank.of_right fun hy => ⟨x, y, hx, hy, rfl⟩

theorem Bottoms.roll (h : count.Bottoms limit x) (he : (roll memo count faces).Safe) :
    (Expr.roll memo count faces).Bottoms limit x := by
  refine ⟨h.1, ?_⟩
  by_cases h0 : faces.Yields 0
  · exact .inl ⟨memo, count, faces, self_mem_parts _, h0⟩
  · refine h.2.imp (fun hblank => hblank.mono (by simp [parts])) fun hn => ⟨x, hn, ?_⟩
    obtain ⟨f, hf⟩ := he.2.1.exists_yields
    have hface := he.2.2.2 f hf
    have hne : f ≠ 0 := by
      rintro rfl
      exact h0 hf
    have hthrows := throws_same hf (.inr ⟨Int.le_refl 1, by omega⟩) x.toNat
    rwa [Int.mul_one, Int.toNat_of_nonneg (he.2.2.1 x hn)] at hthrows

theorem Safe.exists_least (he : e.Safe) : ∃ m, e.Yields m ∧ ∀ v, e.Yields v → m ≤ v := by
  obtain ⟨o, ho, -⟩ := he.same_outcomes
  obtain ⟨m, -, hmem, hmin⟩ := Support.least_integers (he.exists_mem ho)
  exact ⟨m, (ho m).mp hmem, fun v hv => hmin v ((ho v).mpr hv)⟩

/-- The lower bound of a quotient is that of a division, or the least outcome where the lower bound
of the divisor is zero. -/
theorem Bottoms.quotient (hx : left.Bottoms limit x) (hy : right.Bottoms limit y)
    (he : (binary memo .div left right).Safe) : ∃ v, (binary memo .div left right).Bottoms limit v := by
  by_cases h0 : y = 0
  · obtain ⟨m, hm, hmin⟩ := he.exists_least
    refine ⟨m, Meets.bind hy.1 ?_, .inr hm⟩
    rintro _ rfl
    rw [if_pos (by simpa [Number.isZero] using h0)]
    refine Meets.bind (outcomes_meets he) ?_
    rintro _ ⟨o, rfl, ho⟩
    obtain ⟨m', hleast, hm', hmin'⟩ := Support.least_integers (he.exists_mem ho)
    refine Meets.ofExcept_ok hleast (congrArg Number.integer ?_)
    exact Int.le_antisymm (hmin' m ((ho m).mpr hm)) (hmin m' ((ho m').mp hm'))
  · refine ⟨Op.div.value x y, ?_, reached_binary hx.2 hy.2⟩
    refine Meets.bind hy.1 ?_
    rintro _ rfl
    rw [if_neg (by simpa [Number.isZero] using h0)]
    exact operation_bound_meets hx.1 hy.1 (by simpa [Op.isWholeAt] using h0)

/-- The lower bound of a safe expression is an integer, unless a power in it has an exponent that
sinks below zero. -/
theorem Safe.low_cases (he : e.Safe) :
    (∃ v, e.Bottoms limit v) ∨ ∃ power ∈ e.parts, power.Sinks limit := by
  induction e with
  | blank => exact he.elim
  | number memo value => exact .inl ⟨value, Meets.pure rfl, .inr rfl⟩
  | roll memo count faces ihc =>
    rcases ihc he.1 with ⟨x, hx⟩ | ⟨power, hpower, hsinks⟩
    · exact .inl ⟨x, hx.roll he⟩
    · exact .inr ⟨power, by simp [Expr.parts, hpower], hsinks⟩
  | binary memo op left right ihl ihr =>
    rcases ihl he.1 with ⟨x, hx⟩ | ⟨power, hpower, hsinks⟩
    · rcases ihr he.2.1 with ⟨y, hy⟩ | ⟨power, hpower, hsinks⟩
      · cases op with
        | div => exact .inl (hx.quotient hy he)
        | add | sub | mul =>
          exact .inl ⟨_, operation_bound_meets hx.1 hy.1 rfl, reached_binary hx.2 hy.2⟩
        | unspecified => exact absurd rfl he.op_ne
        | pow =>
          by_cases hneg : y < 0
          · -- Values of the exponent are not negative, so the bound is none of them.
            have hblank : right.HasBlank := hy.2.resolve_right fun hyields => by
              have : 0 ≤ y := by simpa [Op.isWholeAt] using he.2.2 y hyields
              omega
            exact .inr ⟨_, self_mem_parts _, hblank, y, hneg, hy.1⟩
          · have hw : Op.pow.isWholeAt y = true := decide_eq_true (Int.not_lt.mp hneg)
            exact .inl ⟨_, operation_bound_meets hx.1 hy.1 hw, reached_binary hx.2 hy.2⟩
      · exact .inr ⟨power, by simp [Expr.parts, hpower], hsinks⟩
    · exact .inr ⟨power, by simp [Expr.parts, hpower], hsinks⟩

theorem sinking_power_meets {inv : Store → Prop} (x : Number) {w : Int} (hw : w < 0) :
    Meets inv (MonadExcept.ofExcept (Op.pow.apply x (.integer w)) : Eval Number)
      (fun r => ∀ n : Int, r ≠ .integer n) fun _ => True := by
  have hpow := Number.fractional_pow x hw
  simp only [Op.apply]
  cases hr : x.pow (.integer w) with
  | ok r => exact Meets.pure fun n hn => hpow n (hn ▸ hr)
  | error fault => exact Meets.throw trivial

/-- The lower bound of a power with a sinking exponent is no integer. -/
theorem Sinks.low_meets {base exponent : Expr} (hb : base.Safe)
    (h : (binary memo .pow base exponent).Sinks limit) :
    Meets Store.Truthful ((binary memo .pow base exponent).low limit)
      (fun r => ∀ n : Int, r ≠ .integer n) fun _ => True := by
  obtain ⟨-, w, hw, hexponent⟩ := h
  have hbase : Keeps Store.Truthful (base.low limit) :=
    low_keeps fun part hpart => (outcomes_meets (hb.parts part hpart)).keeps
  refine Meets.bind hbase fun x _ => Meets.bind hexponent.anyFault ?_
  rintro _ rfl
  exact sinking_power_meets x hw

end Lower

end Expr

variable {before : Session} {memo : MemoName} {source : String} {e : Expr}

/-- Of an accepted formula the upper bound is an outcome. The lower bound is an integer, and an
outcome unless some dice can be blank, or else a power in the formula has an exponent with a negative
lower bound. The lower bound of such a power is no integer. -/
theorem accepted_bounds (hb : before.Reached) {limit : Limit.Reading} {parsed : Store}
    (hp : parse limit memo source before.store = .ok e parsed) :
    (∃ greatest, e.Yields greatest ∧
      ∀ limit' store, e.high limit' store = .ok (.integer greatest) store) ∧
    ((∃ least, (e.HasBlank ∨ e.Yields least) ∧ ∀ now : Session, now.Reached →
        ∃ later, e.low (.ok none) now.store = .ok (.integer least) later) ∨
      ∃ memo' base exponent, .binary memo' .pow base exponent ∈ e.parts ∧ exponent.HasBlank ∧
        (∃ w < 0, ∀ now : Session, now.Reached →
          ∃ later, exponent.low (.ok none) now.store = .ok (.integer w) later) ∧
        ∀ now : Session, now.Reached → ∀ n later,
          (Expr.binary memo' .pow base exponent).low (.ok none) now.store ≠
            .ok (.integer n) later) := by
  have he := hb.accepted hp
  refine ⟨?_, ?_⟩
  · obtain ⟨v, hv, hhigh⟩ := he.high_attained
    refine ⟨v, hv, fun limit' store => ?_⟩
    rw [hhigh]
    rfl
  · rcases he.low_cases with ⟨v, hmeets, hv⟩ | ⟨power, hpower, hsinks⟩
    · refine .inl ⟨v, hv, fun now hn => ?_⟩
      obtain ⟨_, later, hr, rfl⟩ := hn.answers hmeets
      exact ⟨later, hr⟩
    · cases power with
      | blank | number | roll => exact hsinks.elim
      | binary memo' op base exponent =>
        cases op with
        | add | sub | mul | div | unspecified => exact hsinks.elim
        | pow =>
          refine .inr ⟨memo', base, exponent, hpower, hsinks.1, ?_, ?_⟩
          · obtain ⟨-, w, hw, hmeets⟩ := hsinks
            refine ⟨w, hw, fun now hn => ?_⟩
            obtain ⟨_, later, hr, rfl⟩ := hn.answers hmeets
            exact ⟨later, hr⟩
          · intro now hn n later hr
            have hbase := (he.parts _ hpower).1
            exact ((hsinks.low_meets hbase).of_ok hn.sound.truthful hr).1 n rfl

/-- The divisor is seven, but its lower bound is zero. -/
theorem accepted_bounds_quotient :
    ∃ e parsed, parse (.ok none) "" "50/(7-7d0)" {} = .ok e parsed ∧
      (∃ greatest, e.Yields greatest ∧
        ∀ limit' store, e.high limit' store = .ok (.integer greatest) store) ∧
      ((∃ least, (e.HasBlank ∨ e.Yields least) ∧ ∀ now : Session, now.Reached →
          ∃ later, e.low (.ok none) now.store = .ok (.integer least) later) ∨
        ∃ memo' base exponent, .binary memo' .pow base exponent ∈ e.parts ∧ exponent.HasBlank ∧
          (∃ w < 0, ∀ now : Session, now.Reached →
            ∃ later, exponent.low (.ok none) now.store = .ok (.integer w) later) ∧
          ∀ now : Session, now.Reached → ∀ n later,
            (Expr.binary memo' .pow base exponent).low (.ok none) now.store ≠
              .ok (.integer n) later) := by
  have hparse : ∃ e parsed, parse (.ok none) "" "50/(7-7d0)" {} = .ok e parsed := by
    refine ⟨?_, ?_, ?_⟩
    rotate_left 2
    · cbv
      rfl
  obtain ⟨e, parsed, hp⟩ := hparse
  exact ⟨e, parsed, hp, accepted_bounds .start hp⟩

/-- The exponent is three, but its lower bound is below zero, so that of the power is no integer. -/
theorem accepted_power_without_integer_bound :
    ∃ e parsed, parse (.ok none) "" "2^(3-5d0)" {} = .ok e parsed ∧
      ∀ n later, e.low (.ok none) parsed ≠ .ok (.integer n) later := by
  refine ⟨?_, ?_, ?_, ?_⟩
  rotate_left 2
  · cbv
    rfl
  · intro n later h
    have hpower : Meets (fun _ => True)
        (MonadExcept.ofExcept (Op.pow.apply (.integer 2) (.integer (-2))) : Eval Number) _ _ :=
      Expr.sinking_power_meets _ (by decide)
    exact (hpower.of_ok trivial h).1 n rfl

end DiceFormula
