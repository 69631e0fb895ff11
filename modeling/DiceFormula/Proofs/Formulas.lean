import DiceFormula.Proofs.Sampling
import DiceFormula.Proofs.Sessions
import Mathlib

namespace DiceFormula

variable {before : Session} {memo : MemoName} {source : String} {e : Expr}

namespace Session.Reached

/-- A formula that is accepted in a reached session is safe, whatever the limit. -/
theorem accepted (h : before.Reached) {limit : Limit.Reading} {parsed : Store}
    (hp : parse limit memo source before.store = .ok e parsed) : e.Safe :=
  (parse_meets.of_ok h.sound.truthful hp).1

/-- Without a limit, work that only the limit could stop has its answer in every session. -/
theorem answers {now : Session} (h : now.Reached) {work : Eval α} {post : α → Prop}
    (hw : Meets Store.Truthful work post (Limit.Stops (.ok none))) :
    ∃ answer later, work now.store = .ok answer later ∧ post answer := by
  obtain ⟨answer, later, hr, ha, -⟩ := hw.returns (fun _ => Limit.not_stops_none) h.sound.truthful
  exact ⟨answer, later, hr, ha⟩

end Session.Reached

/-- The outcomes are the same set whatever the memos hold. -/
theorem Expr.Safe.same_outcomes (he : e.Safe) :
    ∃ o : Outcomes, (∀ v, v ∈ o ↔ e.Yields v) ∧ ∀ now : Session, now.Reached →
      ∃ later, e.outcomes (.ok none) now.store = .ok (.integers o) later := by
  obtain ⟨s, -, -, o, rfl, ho⟩ := Session.Reached.start.answers (Expr.outcomes_meets he)
  refine ⟨o, ho, fun now hn => ?_⟩
  obtain ⟨s, later, hr, hs⟩ := hn.answers (Expr.outcomes_meets he)
  obtain rfl : s = .integers o := Expr.Answers.unique hs ⟨o, rfl, ho⟩
  exact ⟨later, hr⟩

/-- The outcomes of an accepted formula are what it can be sampled to from sources in range, and
there is at least one. They are the same in every session. -/
theorem outcomes_exact (hb : before.Reached) {parsed : Store}
    (hp : parse before.limit memo source before.store = .ok e parsed) :
    ∃ o : Outcomes,
      (∀ now : Session, now.Reached →
        ∃ later, e.outcomes (.ok none) now.store = .ok (.integers o) later) ∧
      (∃ v, v ∈ o) ∧
      ∀ v : Int, v ∈ o ↔ ∃ (σ : Type) (roller : Roller σ) (start stop : σ),
        roller.InRange ∧ e.sample roller start = .ok (.integer v) stop := by
  have he := hb.accepted hp
  obtain ⟨o, ho, hnow⟩ := he.same_outcomes
  exact ⟨o, hnow, he.exists_mem ho, fun v => (ho v).trans (Expr.yields_iff_sample he)⟩

/-- The faces of these dice are rolled too, and may be none. -/
theorem outcomes_exact_nested :
    ∃ e parsed, parse (.ok none) "" "2d(1d3-1)" {} = .ok e parsed ∧ ∃ o : Outcomes,
      (∀ now : Session, now.Reached →
        ∃ later, e.outcomes (.ok none) now.store = .ok (.integers o) later) ∧
      (∃ v, v ∈ o) ∧
      ∀ v : Int, v ∈ o ↔ ∃ (σ : Type) (roller : Roller σ) (start stop : σ),
        roller.InRange ∧ e.sample roller start = .ok (.integer v) stop := by
  have hparse : ∃ e parsed, parse (.ok none) "" "2d(1d3-1)" {} = .ok e parsed := by
    refine ⟨?_, ?_, ?_⟩
    rotate_left 2
    · cbv
      rfl
  obtain ⟨e, parsed, hp⟩ := hparse
  exact ⟨e, parsed, hp, outcomes_exact .start hp⟩

/-- An accepted formula can be sampled from every source in range. No count and no number of faces
on the way is negative, no divisor is zero, no exponent is negative, and dice are drawn from one to
their faces. -/
theorem accepted_sample_fine (hb : before.Reached) {limit : Limit.Reading} {parsed : Store}
    (hp : parse limit memo source before.store = .ok e parsed) {σ : Type} {roller : Roller σ}
    (hr : roller.InRange) (start : σ) :
    ∃ v stop events, e.sample roller start = .ok (.integer v) stop ∧
      e.watch roller (start, []) = .ok (.integer v) (stop, events) ∧
      ∀ event ∈ events, event.Fine := by
  obtain ⟨v, stop, events, hwatch, hsample, -, hfine⟩ :=
    Expr.sample_watched hr (hb.accepted hp) start
  exact ⟨v, stop, events, hsample, hwatch, hfine⟩

/-- The limit stands in the way of enumerations only, and none is needed here. -/
theorem accepted_sample_fine_power :
    ∃ e parsed, parse (.ok (some 0)) "" "(2d(1d3-1)-3)^(1d3-1)" {} = .ok e parsed ∧
      Roller.dealt.InRange ∧ ∃ v stop events,
        e.sample Roller.dealt [2, 3, 1] = .ok (.integer v) stop ∧
        e.watch Roller.dealt ([2, 3, 1], []) = .ok (.integer v) (stop, events) ∧
        ∀ event ∈ events, event.Fine := by
  have hparse : ∃ e parsed,
      parse (.ok (some 0)) "" "(2d(1d3-1)-3)^(1d3-1)" {} = .ok e parsed := by
    refine ⟨?_, ?_, ?_⟩
    rotate_left 2
    · cbv
      rfl
  obtain ⟨e, parsed, hp⟩ := hparse
  exact ⟨e, parsed, hp, Roller.dealt_inRange,
    accepted_sample_fine .start hp Roller.dealt_inRange [2, 3, 1]⟩

/-- The checks of an accepted formula for zero and for a negative number say what its outcomes
say. -/
theorem checks_exact (hb : before.Reached) {parsed : Store}
    (hp : parse before.limit memo source before.store = .ok e parsed) :
    ∃ o : Outcomes, ∀ now : Session, now.Reached →
      (∃ later, e.outcomes (.ok none) now.store = .ok (.integers o) later) ∧
      (∃ zero later, e.mayBeZero (.ok none) now.store = .ok zero later ∧
        (zero = true ↔ 0 ∈ o)) ∧
      ∃ negative later, e.mayBeNegative (.ok none) now.store = .ok negative later ∧
        (negative = true ↔ ∃ v, v ∈ o ∧ v < 0) := by
  have he := hb.accepted hp
  obtain ⟨o, ho, hnow⟩ := he.same_outcomes
  refine ⟨o, fun now hn => ⟨hnow now hn, ?_, ?_⟩⟩
  · obtain ⟨zero, later, hr, hz⟩ := hn.answers (Expr.mayBeZero_meets he)
    exact ⟨zero, later, hr, hz.trans (ho 0).symm⟩
  · obtain ⟨negative, later, hr, hz⟩ := hn.answers (Expr.mayBeNegative_meets he)
    refine ⟨negative, later, hr, hz.trans ?_⟩
    simp only [ho]

/-- A quotient of which the dividend may have either sign. -/
theorem checks_exact_quotient :
    ∃ e parsed, parse (.ok none) "" "(1d6-3)/2d3" {} = .ok e parsed ∧
      ∃ o : Outcomes, ∀ now : Session, now.Reached →
        (∃ later, e.outcomes (.ok none) now.store = .ok (.integers o) later) ∧
        (∃ zero later, e.mayBeZero (.ok none) now.store = .ok zero later ∧
          (zero = true ↔ 0 ∈ o)) ∧
        ∃ negative later, e.mayBeNegative (.ok none) now.store = .ok negative later ∧
          (negative = true ↔ ∃ v, v ∈ o ∧ v < 0) := by
  have hparse : ∃ e parsed, parse (.ok none) "" "(1d6-3)/2d3" {} = .ok e parsed := by
    refine ⟨?_, ?_, ?_⟩
    rotate_left 2
    · cbv
      rfl
  obtain ⟨e, parsed, hp⟩ := hparse
  exact ⟨e, parsed, hp, checks_exact .start hp⟩

end DiceFormula
