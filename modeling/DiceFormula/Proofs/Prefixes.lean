import DiceFormula.Proofs.Demands
import Mathlib.Data.List.Induction
import Mathlib.Order.Bounds.Defs

namespace DiceFormula

/-- From the goals on all the lexemes are read, the first one behind `start` others. That takes the
steps that are due by then and leaves the last goals. -/
inductive Goal.Reads (goals : List Goal) (start : Nat) :
    List Lexeme → List Step → List Goal → Prop
  | none : Reads goals start [] [] goals
  | one {u : List Lexeme} {steps : List Step} {mid next : List Goal} {x : Lexeme}
      {instrs : List Instr} (before : Reads goals start u steps mid)
      (h : x.feed mid = ⟨instrs, .read next⟩) :
      Reads goals start (u ++ [x]) (steps ++ Reading.due (start + u.length) instrs) next

namespace Goal.Reads

variable {goals last : List Goal} {start : Nat} {u w : List Lexeme} {steps : List Step}

theorem spelled (h : Reads goals start u steps last) (w : List Lexeme) :
    Reading.spelled goals start (u ++ w) =
      (Reading.spelled last (start + u.length) w).after steps := by
  induction h generalizing w with
  | none => rfl
  | one before h ih =>
    rw [List.append_assoc, ih, List.singleton_append, Reading.spelled_read h, Reading.after_after,
      List.length_append, List.length_singleton, Nat.add_assoc]

/-- What the first goals stand for goes on with what the last ones stand for. -/
theorem takeAll {t : List Step} (h : Reads goals start u steps last)
    (hl : TakeAll last (start + u.length) w t) : TakeAll goals start (u ++ w) (steps ++ t) := by
  induction h generalizing w t with
  | none => exact hl
  | one before h ih =>
    rw [List.length_append, List.length_singleton, ← Nat.add_assoc] at hl
    rw [List.append_assoc, List.append_assoc]
    exact ih (takeAll_of_feed h hl)

theorem taken_lt (h : Reads goals start u steps last) :
    ∀ step ∈ steps, step.taken < start + u.length := by
  induction h with
  | none => simp
  | one before h ih =>
    intro step hstep
    rw [List.length_append, List.length_singleton]
    rcases List.mem_append.mp hstep with hstep | hstep
    · have := ih step hstep
      omega
    · simp only [Reading.due, List.mem_map] at hstep
      obtain ⟨instr, -, rfl⟩ := hstep
      exact Nat.lt_succ_self _

theorem finish_mem (h : Reads goals start u steps last) (hf : .finish ∈ goals) :
    .finish ∈ last := by
  induction h with
  | none => exact hf
  | one before h ih => exact Lexeme.finish_mem_of_feed ih (congrArg Move.verdict h)

theorem ordered (h : Reads goals start u steps last) (ho : Ordered goals) : Ordered last := by
  induction h with
  | none => exact ho
  | one before h ih => exact Lexeme.ordered_of_feed ih (congrArg Move.verdict h)

/-- The last lexeme that is read. -/
theorem snoc_inv {x : Lexeme} (h : Reads goals start (u ++ [x]) steps last) :
    ∃ mid front instrs, Reads goals start u front mid ∧ x.feed mid = ⟨instrs, .read last⟩ ∧
      steps = front ++ Reading.due (start + u.length) instrs := by
  generalize hw : u ++ [x] = w at h
  cases h with
  | none => simp at hw
  | one before h =>
    obtain ⟨rfl, hx⟩ := List.append_inj' hw rfl
    cases hx
    exact ⟨_, _, _, before, h, rfl⟩

/-- What is read of the lexemes leaves the same goals every time. -/
theorem unique {last' : List Goal} {steps' : List Step} (h : Reads goals start u steps last)
    (h' : Reads goals start u steps' last') : last = last' := by
  induction h generalizing steps' last' with
  | none =>
    generalize hw : ([] : List Lexeme) = w at h'
    cases h' with
    | none => rfl
    | one => simp at hw
  | one before h ih =>
    obtain ⟨mid, front, instrs, hbefore, h', -⟩ := h'.snoc_inv
    obtain rfl := ih hbefore
    rw [h] at h'
    cases h'
    rfl

/-- Where lexemes are read, those in front of them are. -/
theorem of_append (h : Reads goals start (u ++ w) steps last) :
    ∃ front mid, Reads goals start u front mid := by
  induction w using List.reverseRecOn generalizing steps last with
  | nil => exact ⟨_, _, by simpa using h⟩
  | append_singleton w x ih =>
    rw [← List.append_assoc] at h
    obtain ⟨mid, front, _, hbefore, -, -⟩ := h.snoc_inv
    exact ih hbefore

/-- Reading goes on up to a lexeme that is not read. -/
theorem exists_last (h : Reads goals start u steps last) (v : List Lexeme) :
    ∃ u' v' steps' last', u ++ v = u' ++ v' ∧ Reads goals start u' steps' last' ∧
      ∀ next, ((v'.headD .stop).feed last').verdict ≠ .read next := by
  induction v generalizing u steps last with
  | nil => exact ⟨u, [], steps, last, rfl, h, Lexeme.stop_feed_ne_read last⟩
  | cons x v ih =>
    by_cases hx : ∃ next, (x.feed last).verdict = .read next
    · obtain ⟨next, hx⟩ := hx
      have hread : x.feed last = ⟨(x.feed last).instrs, .read next⟩ := by rw [← hx]
      obtain ⟨u', v', steps', last', huv, hlast⟩ := ih (h.one hread)
      exact ⟨u', v', steps', last', by rw [← huv, List.append_assoc, List.singleton_append], hlast⟩
    · exact ⟨u, x :: v, steps, last, rfl, h, fun next hnext => hx ⟨next, hnext⟩⟩

end Goal.Reads

namespace Reading

variable {goals : List Goal} {taken : Nat} {w : List Lexeme}

/-- A reading that breaks off before the first lexeme. -/
theorem spelled_refused {cause : FormatCause}
    (h : ((w.headD .stop).feed goals).verdict = .refuse cause) :
    spelled goals taken w = ⟨due taken ((w.headD .stop).feed goals).instrs,
      if Goal.signed goals then taken - 1 else taken, some cause⟩ := by
  cases w with
  | nil =>
    rw [List.headD_nil] at h ⊢
    simp only [spelled, List.map_nil, run, h, due]
  | cons x w =>
    rw [List.headD_cons] at h ⊢
    simp only [spelled, List.map_cons, run, h, due]

theorem spelled_formula (d : Derivation .sum) :
    spelled Rule.formula.goals 0 d.lexemes = ⟨d.steps 0, d.lexemes.length, none⟩ := by
  have h := spelled_derivation (.whole d) [] rfl [] (Nat.le_refl 4) 0
  simp only [List.append_nil] at h
  rw [show d.lexemes = (Derivation.whole d).lexemes from rfl, h]
  simp [spelled, Rule.rest, run, Lexeme.feed, Goal.signed, after, Derivation.steps,
    Derivation.stop]

end Reading

section Formula

variable {u v w : List Lexeme} {steps : List Step} {last : List Goal}

theorem formula_derived {t : List Step} (h : Goal.TakeAll Rule.formula.goals 0 w t) :
    ∃ d : Derivation .sum, d.lexemes = w ∧ d.steps 0 = t := by
  obtain ⟨d, v, s, rfl, rfl, htail⟩ := Rule.TakesBefore.sum h
  obtain ⟨v, v', s, s', rfl, rfl, ⟨rfl, rfl⟩, hnil⟩ := Goal.takeAll_cons htail
  cases hnil
  exact ⟨d, by simp, by simp⟩

/-- What is read from the start of a formula belongs to a formula. -/
theorem Goal.Reads.derived (h : Reads Rule.formula.goals 0 u steps last) :
    ∃ (d : Derivation .sum) (more : List Lexeme) (t : List Step), d.lexemes = u ++ more ∧
      d.steps 0 = steps ++ t := by
  obtain ⟨more, t, hlast⟩ := exists_takeAll last (0 + u.length)
  obtain ⟨d, hlex, hsteps⟩ := formula_derived (h.takeAll hlast)
  exact ⟨d, more, t, hlex, hsteps⟩

theorem feed_formula_done (h : Goal.Reads Rule.formula.goals 0 u steps last)
    (hv : ((v.headD .stop).feed last).verdict = .done) (hs : .stop ∉ v) : v = [] := by
  have hstop := Lexeme.feed_done (h.finish_mem (by simp [Rule.goals])) hv
  cases v with
  | nil => rfl
  | cons x v => exact absurd hstop fun hx => hs (by simp_all)

/-- The lexemes that can be continued are those that are read. -/
theorem viable_iff_reads :
    Viable u ↔ ∃ steps last, Goal.Reads Rule.formula.goals 0 u steps last := by
  constructor
  · intro h
    obtain ⟨more, d, hd⟩ := h
    have hnone : Goal.Reads Rule.formula.goals 0 [] [] Rule.formula.goals := .none
    obtain ⟨u', v, steps, last, huv, hread, hnot⟩ := hnone.exists_last (u ++ more)
    -- reading a formula has no cause to stop, so it stops at the end
    have hv : v = [] := by
      cases hverdict : ((v.headD .stop).feed last).verdict with
      | read next => exact absurd hverdict (hnot next)
      | done =>
        refine feed_formula_done hread hverdict fun hmem => d.stop_not_mem ?_
        rw [hd, show u ++ more = [] ++ (u ++ more) from rfl, huv]
        exact List.mem_append_right u' hmem
      | refuse cause =>
        have hspelled := hread.spelled v
        rw [← huv, Reading.spelled_refused hverdict, List.nil_append, ← hd,
          Reading.spelled_formula] at hspelled
        cases congrArg Reading.cause hspelled
    subst hv
    rw [List.append_nil, List.nil_append] at huv
    subst huv
    exact hread.of_append
  · rintro ⟨steps, last, h⟩
    obtain ⟨d, more, t, hlex, -⟩ := h.derived
    exact ⟨more, d, hlex⟩

/-- Where the next lexeme is refused, the lexemes end or cannot be continued behind it. -/
theorem Goal.Reads.dead {cause : FormatCause} (h : Reads Rule.formula.goals 0 u steps last)
    (hv : ((v.headD .stop).feed last).verdict = .refuse cause) :
    v = [] ∨ ¬ Viable ((u ++ v).take (u.length + 1)) := by
  cases v with
  | nil => exact .inl rfl
  | cons x v =>
    refine .inr fun hviable => ?_
    rw [List.take_length_add_append] at hviable
    obtain ⟨steps', last', h'⟩ := viable_iff_reads.mp hviable
    obtain ⟨mid, front, instrs, hbefore, hfeed, -⟩ := h'.snoc_inv
    obtain rfl := h.unique hbefore
    rw [List.headD_cons, hfeed] at hv
    cases hv

/-- Lexemes that are no formula are read up to one that is refused. -/
theorem exists_refusal (hw : .stop ∉ w) (hn : ¬ Grammatical w) :
    ∃ u v steps last cause, w = u ++ v ∧ Goal.Reads Rule.formula.goals 0 u steps last ∧
      ((v.headD .stop).feed last).verdict = .refuse cause := by
  have hnone : Goal.Reads Rule.formula.goals 0 [] [] Rule.formula.goals := .none
  obtain ⟨u, v, steps, last, rfl, hread, hnot⟩ := hnone.exists_last w
  cases hverdict : ((v.headD .stop).feed last).verdict with
  | read next => exact absurd hverdict (hnot next)
  | refuse cause => exact ⟨u, v, steps, last, cause, rfl, hread, hverdict⟩
  | done =>
    obtain rfl := feed_formula_done hread hverdict fun h => hw (by simp_all)
    obtain ⟨w, t, htake, hend⟩ := Goal.takeAll_of_not_read hnot (0 + u.length)
    obtain ⟨rfl, rfl⟩ := hend hverdict
    obtain ⟨d, hlex, -⟩ := formula_derived (hread.takeAll htake)
    exact absurd ⟨d, hlex⟩ hn

/-- Where the lexemes can be continued, they go wrong no earlier, except for a sign in front. -/
theorem SyntaxErrorAt.length_le {i : Nat} (h : SyntaxErrorAt (u ++ v) i) (hu : Viable u) :
    u.length ≤ i ∨ ∃ u' negative, u = u' ++ [.mark (.sign negative)] ∧ i = u'.length ∧
      OperandDue u' := by
  by_cases hi : u.length ≤ i
  · exact .inl hi
  have htake (k : Nat) (hk : k ≤ u.length) : Viable ((u ++ v).take k) := by
    rw [List.take_append_of_le_length hk]
    exact hu.take
  cases h with
  | ended _ last _ =>
    rw [List.length_append] at last
    omega
  | unexpected _ _ dead => exact absurd (htake (i + 1) (by omega)) dead
  | signed negative _ sign operand _ dead =>
    have hlength : u.length = i + 1 := by
      by_contra hne
      rcases dead with dead | dead
      · rw [List.length_append] at dead
        omega
      · exact dead (htake (i + 2) (by omega))
    rw [List.getElem?_append_left (by omega)] at sign
    rw [List.take_append_of_le_length (by omega)] at operand
    refine .inr ⟨u.take i, negative, ?_, by rw [List.length_take]; omega, operand⟩
    calc u = u.take (i + 1) := (List.take_of_length_le (by omega)).symm
      _ = u.take i ++ [.mark (.sign negative)] := by rw [List.take_add_one, sign]; rfl

theorem ordered_formula : Goal.Ordered Rule.formula.goals := by
  simp [Goal.Ordered, Goal.Behind, Rule.goals, Goal.StartsOperand]

/-- A reading that is refused with no sign in front goes wrong there. -/
theorem errorAt_of_refused {cause : FormatCause} (h : Goal.Reads Rule.formula.goals 0 u steps last)
    (hv : ((v.headD .stop).feed last).verdict = .refuse cause)
    (hs : Goal.signed last = false) (hn : ¬ Grammatical (u ++ v)) :
    IsLeast {i | SyntaxErrorAt (u ++ v) i} u.length := by
  have hu : Viable u := viable_iff_reads.mpr ⟨steps, last, h⟩
  have hviable : Viable ((u ++ v).take u.length) := by rwa [List.take_left]
  refine ⟨?_, fun i hi => ?_⟩
  · rcases h.dead hv with rfl | dead
    · exact .ended hviable (by simp) hn
    · refine .unexpected hviable ?_ dead
      by_contra hle
      rw [List.take_of_length_le (by omega)] at dead
      rw [List.take_of_length_le (by omega)] at hviable
      exact dead hviable
  · rcases hi.length_le hu with hle | ⟨u', negative, rfl, rfl, value, hvalue⟩
    · exact hle
    · -- the goals in front of the sign could read a number, so the sign is one of a number
      obtain ⟨mid, front, instrs, hbefore, hfeed, -⟩ := h.snoc_inv
      obtain ⟨_, others, hnumber⟩ := viable_iff_reads.mp hvalue
      obtain ⟨mid', _, _, hbefore', hnumber, -⟩ := hnumber.snoc_inv
      obtain rfl := hbefore.unique hbefore'
      obtain rfl := Lexeme.feed_sign (hbefore.ordered ordered_formula)
        (congrArg Move.verdict hnumber) (congrArg Move.verdict hfeed)
      cases hs

/-- A reading that is refused behind a sign goes wrong at the sign. -/
theorem errorAt_of_sign_refused {cause : FormatCause} {negative : Bool} {rest : List Goal}
    (h : Goal.Reads Rule.formula.goals 0 u steps (.unsigned negative :: rest))
    (hv : ((v.headD .stop).feed (.unsigned negative :: rest)).verdict = .refuse cause) :
    IsLeast {i | SyntaxErrorAt (u ++ v) i} (u.length - 1) := by
  have hu : Viable u := viable_iff_reads.mpr ⟨steps, _, h⟩
  obtain ⟨u', x, rfl⟩ : ∃ u' x, u = u' ++ [x] := by
    cases h with
    | one => exact ⟨_, _, rfl⟩
  obtain ⟨mid, front, instrs, hbefore, hfeed, -⟩ := h.snoc_inv
  obtain ⟨rfl, hnumber⟩ := Lexeme.sign_of_feed (hbefore.ordered ordered_formula)
    (congrArg Move.verdict hfeed)
  have htake : (u' ++ [Lexeme.mark (.sign negative)] ++ v).take u'.length = u' := by
    rw [List.append_assoc, List.take_left]
  have hdead := h.dead hv
  rw [List.length_append, List.length_singleton, Nat.add_sub_cancel]
  rw [List.length_append, List.length_singleton] at hdead
  refine ⟨.signed negative ?_ (by simp) ?_ ?_ ?_, fun i hi => ?_⟩
  · rw [htake]
    exact hu.of_append
  · rw [htake]
    exact ⟨0, viable_iff_reads.mpr ⟨_, _, hbefore.one (hnumber 0)⟩⟩
  · intro value hvalue
    rw [List.append_assoc, List.getElem?_append_right (by omega)] at hvalue
    cases v with
    | nil => simp at hvalue
    | cons y v =>
      obtain rfl : y = .number value := by simpa using hvalue
      cases hv
  · rcases hdead with rfl | hdead
    · exact .inl (by simp)
    · exact .inr hdead
  -- earlier the lexemes could only go wrong at a sign, and the last one read is this one
  · rcases hi.length_le hu with hle | ⟨u'', negative', happ, rfl, -⟩
    · rw [List.length_append] at hle
      exact Nat.le_of_succ_le hle
    · obtain ⟨rfl, -⟩ := List.append_inj' happ rfl
      exact Nat.le_refl _

/-- Lexemes that are no formula are refused at the first place where they go wrong. Up to there they
are read as a formula is that starts with them. -/
theorem Reading.spelled_of_not_grammatical (hw : .stop ∉ w) (hn : ¬ Grammatical w) :
    ∃ steps place cause, spelled Rule.formula.goals 0 w = ⟨steps, place, some cause⟩ ∧
      cause ≠ .unrecognized ∧ IsLeast {i | SyntaxErrorAt w i} place ∧
      ∃ (d : Derivation .sum) (later : List Step), d.lexemes.take place = w.take place ∧
        d.steps 0 = steps ++ later ∧ ∀ step ∈ steps, step.taken ≤ place := by
  obtain ⟨u, v, steps, last, cause, rfl, hread, hv⟩ := exists_refusal hw hn
  have hspelled := hread.spelled v
  rw [spelled_refused hv] at hspelled
  simp only [after, Nat.zero_add] at hspelled
  have htaken := hread.taken_lt
  rw [Nat.zero_add] at htaken
  refine ⟨_, _, cause, hspelled, Lexeme.feed_refuse hv, ?_⟩
  cases hs : Goal.signed last with
  | false =>
    have hnot : ∀ next, ((v.headD .stop).feed last).verdict ≠ .read next := by
      intro next hnext
      rw [hv] at hnext
      cases hnext
    obtain ⟨more, t, htake, -⟩ := Goal.takeAll_of_not_read hnot (0 + u.length)
    obtain ⟨d, hlex, hsteps⟩ := formula_derived (hread.takeAll htake)
    refine ⟨errorAt_of_refused hread hv hs hn, d, t, ?_, ?_, ?_⟩
    · simp [hlex]
    · rw [hsteps, Nat.zero_add, List.append_assoc]
    · intro step hstep
      rcases List.mem_append.mp hstep with hstep | hstep
      · exact Nat.le_of_lt (htaken step hstep)
      · simp only [due, List.mem_map] at hstep
        obtain ⟨instr, -, rfl⟩ := hstep
        exact Nat.le_refl _
  | true =>
    obtain ⟨negative, rest, rfl⟩ : ∃ negative rest, last = .unsigned negative :: rest := by
      unfold Goal.signed at hs
      split at hs
      · exact ⟨_, _, rfl⟩
      · cases hs
    obtain ⟨d, more, t, hlex, hsteps⟩ := hread.derived
    have hnone : ((v.headD .stop).feed (.unsigned negative :: rest)).instrs = [] := by
      cases hx : v.headD .stop with
      | number value =>
        rw [hx] at hv
        cases hv
      | mark | stop => rfl
    rw [hnone, due, List.map_nil, List.append_nil]
    refine ⟨errorAt_of_sign_refused hread hv, d, t, ?_, hsteps, ?_⟩
    · have hle : u.length - 1 ≤ u.length := Nat.sub_le _ _
      simp only [if_true]
      rw [hlex, List.take_append_of_le_length hle, List.take_append_of_le_length hle]
    · intro step hstep
      have := htaken step hstep
      simp only [if_true]
      omega

end Formula

end DiceFormula
