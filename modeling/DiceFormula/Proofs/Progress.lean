import DiceFormula.Proofs.Acceptance

namespace DiceFormula

/-- The goals of a rule stand for its phrases. -/
theorem Rule.derived {rule : Rule} {w : List Lexeme} {t : List Step}
    (h : Goal.TakeAll rule.goals 0 w t) : ∃ d : Derivation rule, d.lexemes = w ∧ d.steps 0 = t := by
  have hphrase {rule : Rule} (h : rule.TakesBefore [] 0 w t) :
      ∃ d : Derivation rule, d.lexemes = w ∧ d.steps 0 = t := by
    obtain ⟨d, v, s, rfl, rfl, hnil⟩ := h
    cases hnil
    exact ⟨d, by simp, by simp⟩
  cases rule with
  | formula =>
    obtain ⟨d, hlex, hsteps⟩ := formula_derived h
    exact ⟨.whole d, hlex, hsteps⟩
  | sum => exact hphrase (.sum h)
  | product => exact hphrase (.product h)
  | power => exact hphrase (.power h)
  | roll => exact hphrase ((Rule.TakesBefore.operand h).extend fun _ _ _ => id)
  | operand => exact hphrase (.operand h)
  | literal =>
    obtain ⟨v, v', s, s', rfl, rfl, ⟨d, rfl, rfl⟩, hnil⟩ := Goal.takeAll_cons h
    cases hnil
    exact ⟨d, by simp, by simp⟩

theorem Derivation.length_pos {rule : Rule} (d : Derivation rule) : 0 < d.lexemes.length := by
  induction d with
  | unsigned | signed => simp [lexemes]
  | literal d ih | single d ih | bare d ih | factor d ih | term d ih | whole d ih => exact ih
  | parens => simp [lexemes]
  | dice | raised | times | plus =>
    simp only [lexemes, List.length_append, List.length_cons]
    omega

namespace Goal

/-- The number of expressions that the goals will build without being told by another lexeme. -/
def pending : List Goal → Nat
  | [] => 0
  | .build _ :: goals => pending goals + 1
  | _ :: goals => pending goals

theorem pending_append (front goals : List Goal) :
    pending (front ++ goals) = pending front + pending goals := by
  induction front with
  | nil => simp [pending]
  | cons goal front ih =>
    cases goal <;> simp only [List.cons_append, pending, ih]
    omega

theorem pending_cons_of_givesWay {goal : Goal} (h : goal.GivesWay) (goals : List Goal) :
    pending (goal :: goals) = pending goals := by
  cases h <;> rfl

end Goal

namespace Lexeme

variable {x : Lexeme} {goals next : List Goal} {instrs : List Instr}

/-- A lexeme makes at most one expression due. -/
theorem Fills.pending_le {goal : Goal} {front : List Goal} (h : x.Fills goal instrs front) :
    instrs.length + Goal.pending front ≤ 1 := by
  cases h <;> simp [Goal.pending, Rule.goals]

theorem pending_of_feed (h : x.feed goals = ⟨instrs, .read next⟩) :
    instrs.length + Goal.pending next ≤ Goal.pending goals + 1 := by
  induction goals generalizing instrs with
  | nil => cases h
  | cons goal goals ih =>
    cases x.feed_cases goal goals with
    | built instr hg =>
      subst hg
      obtain ⟨others, rfl, hothers⟩ := feed_build h
      have := ih hothers
      simp only [List.length_cons, Goal.pending]
      omega
    | passed way _ hp =>
      rw [Goal.pending_cons_of_givesWay way]
      exact ih (hp ▸ h)
    | refused cause _ hp =>
      rw [hp] at h
      cases h
    | filled fills hp =>
      rw [hp] at h
      cases h
      have hdue := fills.pending_le
      have hle : Goal.pending goals ≤ Goal.pending (goal :: goals) := by
        cases goal <;> simp [Goal.pending]
      rw [Goal.pending_append]
      omega

/-- What is built at a lexeme that is not read has been due before. -/
theorem pending_of_not_read (h : ∀ next, (x.feed goals).verdict ≠ .read next) :
    (x.feed goals).instrs.length ≤ Goal.pending goals := by
  induction goals with
  | nil => exact Nat.zero_le _
  | cons goal goals ih =>
    cases x.feed_cases goal goals with
    | built instr hg =>
      subst hg
      exact Nat.succ_le_succ (ih h)
    | passed way _ hp =>
      rw [hp] at h ⊢
      rw [Goal.pending_cons_of_givesWay way]
      exact ih h
    | refused cause _ hp =>
      rw [hp]
      exact Nat.zero_le _
    | filled fills hp => exact absurd (congrArg Move.verdict hp) (h _)

end Lexeme

theorem Goal.Reads.length_le {goals last : List Goal} {start : Nat} {u : List Lexeme}
    {steps : List Step} (h : Goal.Reads goals start u steps last) :
    steps.length + Goal.pending last ≤ u.length + Goal.pending goals := by
  induction h with
  | none => simp
  | one before h ih =>
    have := Lexeme.pending_of_feed h
    simp only [List.length_append, Reading.due, List.length_map, List.length_singleton]
    omega

/-- The number behind a sign is left to read. -/
theorem Goal.signed_of_done {goals : List Goal} {x : Lexeme} (h : (x.feed goals).verdict = .done) :
    Goal.signed goals = false := by
  unfold Goal.signed
  split
  · cases x with
    | number | mark | stop => cases h
  · rfl

/-- A reading that ends where nothing is left to read. -/
theorem Reading.spelled_done {goals : List Goal} {taken : Nat} {w : List Lexeme}
    (h : ((w.headD .stop).feed goals).verdict = .done) :
    spelled goals taken w = ⟨due taken ((w.headD .stop).feed goals).instrs, taken, none⟩ := by
  have hsigned : Goal.signed goals = false := Goal.signed_of_done h
  cases w with
  | nil =>
    rw [List.headD_nil] at h ⊢
    simp [spelled, run, h, due, hsigned]
  | cons x w =>
    rw [List.headD_cons] at h ⊢
    simp only [spelled, List.map_cons, run, h, due]

/-- However it ends, a reading of a rule goes along a phrase of the rule: it does not leave the
tokens, and what it builds are the first steps of the phrase, at most one for each token. Where it
ends without a cause, the phrase is what it has taken. -/
theorem Rule.read_along (rule : Rule) (items : List Token) :
    ∃ (d : Derivation rule) (later : List Step),
      d.steps 0 = (rule.read items).steps ++ later ∧
      (rule.read items).taken ≤ items.length ∧
      (rule.read items).steps.length ≤ items.length ∧
      (∀ step ∈ (rule.read items).steps, step.taken ≤ items.length) ∧
      ((rule.read items).cause = none → later = [] ∧ d.lexemes.length = (rule.read items).taken ∧
        d.lexemes <+: items.map Token.lexeme) := by
  have hnone : Goal.Reads rule.goals 0 [] [] rule.goals := .none
  obtain ⟨u, v, steps, last, huv, hread, hnot⟩ := hnone.exists_last (items.map Token.lexeme)
  rw [List.nil_append] at huv
  obtain ⟨w, t, htake, hend⟩ := Goal.takeAll_of_not_read hnot (0 + u.length)
  obtain ⟨d, hlex, hsteps⟩ := Rule.derived (hread.takeAll htake)
  have hlength : u.length ≤ items.length := by
    rw [← List.length_map Token.lexeme, huv, List.length_append]
    exact Nat.le_add_right _ _
  have hcount : (steps ++ Reading.due (0 + u.length) ((v.headD .stop).feed last).instrs).length ≤
      items.length := by
    have hbuilt := hread.length_le
    have hdue := Lexeme.pending_of_not_read hnot
    have hgoals : Goal.pending rule.goals = 0 := by cases rule <;> rfl
    rw [List.length_append, Reading.due, List.length_map]
    omega
  have htaken : ∀ step ∈ steps ++ Reading.due (0 + u.length) ((v.headD .stop).feed last).instrs,
      step.taken ≤ items.length := by
    intro step hstep
    rcases List.mem_append.mp hstep with hstep | hstep
    · have := hread.taken_lt step hstep
      omega
    · obtain ⟨instr, -, rfl⟩ := List.mem_map.mp hstep
      simpa using hlength
  have hspelled := hread.spelled v
  rw [← huv, ← rule.read_eq_spelled] at hspelled
  rw [← List.append_assoc] at hsteps
  cases hverdict : ((v.headD .stop).feed last).verdict with
  | read next => exact absurd hverdict (hnot next)
  | done =>
    obtain ⟨rfl, rfl⟩ := hend hverdict
    rw [Reading.spelled_done hverdict] at hspelled
    rw [hspelled]
    refine ⟨d, [], hsteps, by simpa [Reading.after] using hlength, hcount, htaken, fun _ => ?_⟩
    rw [List.append_nil] at hlex
    exact ⟨rfl, by simp [hlex, Reading.after], by simp [huv, hlex]⟩
  | refuse cause =>
    rw [Reading.spelled_refused hverdict] at hspelled
    rw [hspelled]
    refine ⟨d, t, hsteps, ?_, hcount, htaken, fun h => by cases h⟩
    simp only [Reading.after]
    split <;> omega

end DiceFormula
