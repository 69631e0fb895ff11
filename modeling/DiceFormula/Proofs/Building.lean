import DiceFormula.Expr.Build
import DiceFormula.Proofs.Checks

namespace DiceFormula

/-- The check that the values of the operands break, the first one in the order of asking. -/
def Expr.Breaks : Expr → Check → Prop
  | roll _ count _, .negativeCount => ∃ n, count.Yields n ∧ n < 0
  | roll _ count faces, .negativeFaces =>
    (∀ n, count.Yields n → 0 ≤ n) ∧ ∃ f, faces.Yields f ∧ f < 0
  | binary _ .div left right, .zeroOverZero => left.Yields 0 ∧ right.Yields 0
  | binary _ .div left right, .zeroDivisor => ¬ left.Yields 0 ∧ right.Yields 0
  | binary _ .pow _ right, .negativeExponent => ∃ y, right.Yields y ∧ y < 0
  | _, _ => False

/-- The faults that end the building of an expression from its operands. -/
def Expr.Refused (e : Expr) (limit : Limit.Reading) (fault : Fault) : Prop :=
  Limit.Stops limit fault ∨ ∃ check, fault = .check check ∧ e.Breaks check

namespace Expr

variable {memo : MemoName} {limit : Limit.Reading}

/-- A safe expression breaks no check. -/
theorem Safe.not_breaks {e : Expr} (he : e.Safe) (check : Check) : ¬ e.Breaks check := by
  cases e with
  | blank => exact he.elim
  | number => simp [Breaks]
  | roll _ count faces =>
    obtain ⟨-, -, hc, hf⟩ := he
    cases check with
    | negativeCount =>
      intro h
      obtain ⟨n, hn, h⟩ := h
      have := hc n hn
      omega
    | negativeFaces =>
      intro h
      obtain ⟨-, f, hy, h⟩ := h
      have := hf f hy
      omega
    | zeroOverZero | zeroDivisor | negativeExponent => simp [Breaks]
  | binary _ op left right =>
    obtain ⟨-, -, hw⟩ := he
    cases op with
    | div =>
      have hz : ¬ right.Yields 0 := fun h => by simpa [Op.isWholeAt] using hw 0 h
      cases check <;> simp [Breaks, hz]
    | pow =>
      cases check with
      | negativeExponent =>
        intro h
        obtain ⟨y, hy, h⟩ := h
        have : 0 ≤ y := by simpa [Op.isWholeAt] using hw y hy
        omega
      | zeroOverZero | zeroDivisor | negativeCount | negativeFaces => simp [Breaks]
    | add | sub | mul | unspecified => simp [Breaks]

theorem not_negative {e : Expr} {b : Bool} (hb : e.Answers .negative b) (hf : ¬ b = true) :
    ∀ v, e.Yields v → 0 ≤ v := fun v hv =>
  Int.not_lt.mp fun h => hf (hb.mpr ⟨v, hv, h⟩)

section Build

variable {fail : Fault → Prop}

/-- A roll is built when it is safe, and otherwise refused for the check that it breaks. -/
theorem mkRoll_meets_of {count faces : Expr} (hc : count.Safe) (hf : faces.Safe)
    (hcn : Meets Store.Truthful (count.mayBeNegative limit) (count.Answers .negative) fail)
    (hfn : Meets Store.Truthful (faces.mayBeNegative limit) (faces.Answers .negative) fail) :
    Meets Store.Truthful (mkRoll limit memo count faces)
      (fun e => e = roll memo count faces ∧ e.Safe)
      fun fault => fail fault ∨ ∃ check, fault = .check check ∧
        (roll memo count faces).Breaks check := by
  refine Meets.bind (hcn.widen fun _ => .inl) fun b hb => ?_
  refine Meets.guard (fun h => .inr ⟨_, rfl, hb.mp h⟩) fun hcount => ?_
  refine Meets.bind (hfn.widen fun _ => .inl) fun b' hb' => ?_
  refine Meets.guard (fun h => .inr ⟨_, rfl, not_negative hb hcount, hb'.mp h⟩) fun hfaces => ?_
  exact Meets.pure ⟨rfl, hc, hf, not_negative hb hcount, not_negative hb' hfaces⟩

theorem mkRoll_meets {count faces : Expr} (hc : count.Safe) (hf : faces.Safe) :
    Meets Store.Truthful (mkRoll limit memo count faces)
      (fun e => e = roll memo count faces ∧ e.Safe)
      ((roll memo count faces).Refused limit) :=
  mkRoll_meets_of hc hf (mayBeNegative_meets hc) (mayBeNegative_meets hf)

/-- An operation is built when it is safe, and otherwise refused for the check that it breaks. -/
theorem mkBinary_meets {op : Op} {left right : Expr} (ho : op ≠ .unspecified) (hl : left.Safe)
    (hr : right.Safe) :
    Meets Store.Truthful (mkBinary limit memo op left right)
      (fun e => e = binary memo op left right ∧ e.Safe)
      ((binary memo op left right).Refused limit) := by
  have hstop : ∀ fault, Limit.Stops limit fault →
      (binary memo op left right).Refused limit fault := fun _ => .inl
  cases op with
  | add | sub | mul => exact Meets.pure ⟨rfl, hl, hr, fun _ _ => rfl⟩
  | unspecified => exact absurd rfl ho
  | div =>
    rw [mkBinary_div]
    refine Meets.bind ((mayBeZero_meets hl).widen hstop) fun b hb => ?_
    refine Meets.bind ((mayBeZero_meets hr).widen hstop) fun b' hb' => ?_
    refine Meets.guard (fun h => ?_) fun hne => ?_
    · refine .inr ⟨_, rfl, ?_⟩
      cases b with
      | true => exact ⟨hb.mp rfl, hb'.mp h⟩
      | false => exact ⟨fun h0 => (by cases hb.mpr h0), hb'.mp h⟩
    · refine Meets.pure ⟨rfl, hl, hr, fun y hy => ?_⟩
      have : y ≠ 0 := by
        intro h
        subst h
        exact hne (hb'.mpr hy)
      simpa [Op.isWholeAt] using this
  | pow =>
    refine Meets.bind ((mayBeNegative_meets hr).widen hstop) fun b hb => ?_
    refine Meets.guard (fun h => .inr ⟨_, rfl, hb.mp h⟩) fun hne => ?_
    refine Meets.pure ⟨rfl, hl, hr, fun y hy => ?_⟩
    simpa [Op.isWholeAt] using not_negative hb hne y hy

end Build

end Expr

end DiceFormula
