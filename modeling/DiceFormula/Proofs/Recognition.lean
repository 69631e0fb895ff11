import DiceFormula.Proofs.Grammar

namespace DiceFormula

/-- The steps that build a phrase behind `start` lexemes. -/
def Derivation.steps : {rule : Rule} → Nat → Derivation rule → List Step
  | _, start, unsigned value => [⟨.number value, start⟩]
  | _, start, signed negative value => [⟨.number (signedValue negative value), start + 1⟩]
  | _, start, literal d => d.steps start
  | _, start, parens d => d.steps (start + 1)
  | _, start, single d => d.steps start
  | _, start, dice count faces =>
    count.steps start ++ faces.steps (count.stop start + 1) ++
      [⟨.roll, (dice count faces).stop start⟩]
  | _, start, bare d => d.steps start
  | _, start, raised base exponent =>
    base.steps start ++ exponent.steps (base.stop start + 1) ++
      [⟨.binary .pow, (raised base exponent).stop start⟩]
  | _, start, factor d => d.steps start
  | _, start, times divides left right =>
    left.steps start ++ right.steps (left.stop start + 1) ++
      [⟨.binary (.scale divides), (times divides left right).stop start⟩]
  | _, start, term d => d.steps start
  | _, start, plus subtracts left right =>
    left.steps start ++ right.steps (left.stop start + 1) ++
      [⟨.binary (.sign subtracts), (plus subtracts left right).stop start⟩]
  | _, start, whole d => d.steps start

/-- The same reading behind other steps. -/
def Reading.after (steps : List Step) (reading : Reading) : Reading :=
  { reading with steps := steps ++ reading.steps }

namespace Reading

@[simp] theorem after_after (front steps : List Step) (reading : Reading) :
    (reading.after steps).after front = reading.after (front ++ steps) := by
  simp [after]

/-- The instructions of a move, all due after `taken` lexemes. -/
def due (taken : Nat) (instrs : List Instr) : List Step := instrs.map fun instr => ⟨instr, taken⟩

/-- Reads lexemes for the goals, after `taken` lexemes. -/
def spelled (goals : List Goal) (taken : Nat) (lexemes : List Lexeme) : Reading :=
  run goals taken (lexemes.map fun x => ⟨x, 0⟩)

/-- Where the tokens stand in the text does not matter for reading them. -/
theorem run_eq_spelled (goals : List Goal) (taken : Nat) (tokens : List Token) :
    run goals taken tokens = spelled goals taken (tokens.map Token.lexeme) := by
  induction tokens generalizing goals taken with
  | nil => rfl
  | cons token tokens ih =>
    simp only [spelled, run, List.map_cons]
    cases (token.lexeme.feed goals).verdict with
    | read next => simp only [ih, spelled]
    | done => rfl
    | refuse cause => rfl

/-- A lexeme that is read. -/
theorem spelled_read {goals next : List Goal} {instrs : List Instr} {x : Lexeme}
    (h : x.feed goals = ⟨instrs, .read next⟩) (taken : Nat) (lexemes : List Lexeme) :
    spelled goals taken (x :: lexemes) =
      (spelled next (taken + 1) lexemes).after (due taken instrs) := by
  simp [spelled, run, h, after, due]

/-- Goals that deal with the next lexeme as others do, but for some instructions before it, read all
that follows as those do. -/
theorem spelled_congr {goals others : List Goal} (instrs : List Instr) {lexemes : List Lexeme}
    (hs : Goal.signed goals = false) (ho : Goal.signed others = false)
    (h : (lexemes.headD .stop).feed goals =
      { (lexemes.headD .stop).feed others with
        instrs := instrs ++ ((lexemes.headD .stop).feed others).instrs }) (taken : Nat) :
    spelled goals taken lexemes = (spelled others taken lexemes).after (due taken instrs) := by
  cases lexemes with
  | nil =>
    simp only [List.headD_nil] at h
    simp [spelled, run, h, hs, ho, after, due]
  | cons x lexemes =>
    simp only [List.headD_cons] at h
    simp only [spelled, List.map_cons, run, h, hs, ho]
    cases (x.feed others).verdict <;> simp [after, due]

end Reading

namespace Lexeme

variable {x : Lexeme} (goals : List Goal)

theorem feed_rollTail (h : 1 ≤ x.looseness) : x.feed (.rollTail :: goals) = x.feed goals := by
  have hx : x ≠ .mark .die := by
    intro h0
    simp [h0, looseness] at h
  simp [feed, hx]

theorem feed_rollEnd (h : 1 ≤ x.looseness) : x.feed (.rollEnd :: goals) = x.feed goals := by
  have hx : x ≠ .mark .die := by
    intro h0
    simp [h0, looseness] at h
  simp [feed, hx]

theorem feed_powerTail (h : 2 ≤ x.looseness) : x.feed (.powerTail :: goals) = x.feed goals := by
  have hx : x ≠ .mark .caret := by
    intro h0
    simp [h0, looseness] at h
  simp [feed, hx]

theorem feed_productTail (h : 3 ≤ x.looseness) :
    x.feed (.productTail :: goals) = x.feed goals := by
  cases x with
  | number | stop => rfl
  | mark m => cases m <;> first | rfl | simp [looseness] at h

theorem feed_sumTail (h : 4 ≤ x.looseness) : x.feed (.sumTail :: goals) = x.feed goals := by
  cases x with
  | number | stop => rfl
  | mark m => cases m <;> first | rfl | simp [looseness] at h

end Lexeme

namespace Reading

variable {goals : List Goal} {lexemes : List Lexeme} {taken : Nat}

/-- Goals that deal with the next lexeme as others do read all that follows as those do. -/
theorem spelled_same {others : List Goal} (hs : Goal.signed goals = false)
    (ho : Goal.signed others = false)
    (h : (lexemes.headD .stop).feed goals = (lexemes.headD .stop).feed others) :
    spelled goals taken lexemes = spelled others taken lexemes :=
  spelled_congr [] hs ho (by rw [h]; rfl) taken

/-- An instruction that is due, behind goals that give way. -/
theorem spelled_built {others : List Goal} (instr : Instr) (hs : Goal.signed goals = false)
    (ho : Goal.signed others = false)
    (h : (lexemes.headD .stop).feed goals =
      (lexemes.headD .stop).feed (.build instr :: others)) :
    spelled goals taken lexemes = (spelled others taken lexemes).after [⟨instr, taken⟩] :=
  spelled_congr [instr] hs ho (by rw [h]; rfl) taken

theorem spelled_mark {next : List Goal} {m : Mark}
    (h : (Lexeme.mark m).feed goals = .read next) :
    spelled goals taken (.mark m :: lexemes) = spelled next (taken + 1) lexemes := by
  rw [spelled_read (show _ = (⟨[], .read next⟩ : Move) from h) taken lexemes]
  rfl

/-- Two phrases around a mark are read one after the other. -/
theorem spelled_around {a b : Rule} {left : Derivation a} {right : Derivation b} {m : Mark}
    {before middle next last : List Goal}
    (hl : spelled before taken (left.lexemes ++ .mark m :: (right.lexemes ++ lexemes)) =
      (spelled middle (left.stop taken) (.mark m :: (right.lexemes ++ lexemes))).after
        (left.steps taken))
    (hm : (Lexeme.mark m).feed middle = .read next)
    (hr : spelled next (left.stop taken + 1) (right.lexemes ++ lexemes) =
      (spelled last (right.stop (left.stop taken + 1)) lexemes).after
        (right.steps (left.stop taken + 1))) :
    spelled before taken ((left.lexemes ++ .mark m :: right.lexemes) ++ lexemes) =
      (spelled last (taken + (left.lexemes ++ .mark m :: right.lexemes).length) lexemes).after
        (left.steps taken ++ right.steps (left.stop taken + 1)) := by
  have hlength : taken + (left.lexemes ++ .mark m :: right.lexemes).length =
      right.stop (left.stop taken + 1) := by
    simp only [Derivation.stop, List.length_append, List.length_cons]
    omega
  rw [List.append_assoc, List.cons_append, hl, spelled_mark hm, hr, after_after, hlength]

/-- A phrase of a rule is read to its end, where the goals go on that stood behind it. -/
theorem spelled_derivation {rule : Rule} (d : Derivation rule) (goals : List Goal)
    (hs : Goal.signed goals = false) (lexemes : List Lexeme) (he : rule.Ends lexemes)
    (taken : Nat) :
    spelled (rule.goals ++ goals) taken (d.lexemes ++ lexemes) =
      (spelled (rule.rest ++ goals) (d.stop taken) lexemes).after (d.steps taken) := by
  induction d generalizing goals lexemes taken with
  | unsigned value =>
    have h : (Lexeme.number value).feed (.literal :: goals) = ⟨[.number value], .read goals⟩ := rfl
    exact spelled_read h taken lexemes
  | signed negative value =>
    have hsign : (Lexeme.mark (.sign negative)).feed (.literal :: goals) =
        .read (.unsigned negative :: goals) := by cases negative <;> rfl
    have hnumber : (Lexeme.number value).feed (.unsigned negative :: goals) =
        ⟨[.number (signedValue negative value)], .read goals⟩ := by cases negative <;> rfl
    exact (spelled_mark hsign).trans (spelled_read hnumber (taken + 1) lexemes)
  | literal d ih =>
    have hfirst : ((d.lexemes ++ lexemes).headD .stop).feed (.operand :: goals) =
        ((d.lexemes ++ lexemes).headD .stop).feed (.literal :: goals) := by
      cases d with
      | unsigned value => rfl
      | signed negative value => cases negative <;> rfl
    exact (spelled_same rfl rfl hfirst).trans (ih goals hs lexemes he taken)
  | parens d ih =>
    have hopen : (Lexeme.mark .lparen).feed (.operand :: goals) =
        .read (Rule.sum.goals ++ .close :: goals) := rfl
    have hclose : (Lexeme.mark .rparen).feed (.sumTail :: .close :: goals) = .read goals := rfl
    have hlength : (Derivation.parens d).stop taken = d.stop (taken + 1) + 1 := by
      simp only [Derivation.stop, Derivation.lexemes, List.length_append, List.length_cons,
        List.length_nil]
      omega
    have h := ih (.close :: goals) rfl (.mark .rparen :: lexemes) (Nat.le_succ 3) (taken + 1)
    simp only [Derivation.lexemes, List.cons_append, List.append_assoc, List.nil_append]
    rw [hlength]
    exact (spelled_mark hopen).trans (h.trans (congrArg _ (spelled_mark hclose)))
  | single d ih =>
    have h := ih (.rollTail :: goals) rfl lexemes (Nat.zero_le _) taken
    exact h.trans (congrArg _ (spelled_same rfl hs (Lexeme.feed_rollTail goals he)))
  | dice count faces ihc ihf =>
    have hc := ihc (.rollTail :: goals) rfl (.mark .die :: (faces.lexemes ++ lexemes))
      (Nat.zero_le _) taken
    have hf := ihf (.rollEnd :: .build .roll :: goals) rfl lexemes (Nat.zero_le _)
      (count.stop taken + 1)
    refine (spelled_around hc rfl hf).trans ?_
    exact (congrArg _ (spelled_built .roll rfl hs (Lexeme.feed_rollEnd _ he))).trans
      (after_after _ _ _)
  | bare d ih =>
    have h := ih (.powerTail :: goals) rfl lexemes (Nat.le_trans (Nat.le_succ 1) he) taken
    exact h.trans (congrArg _ (spelled_same rfl hs (Lexeme.feed_powerTail goals he)))
  | raised base exponent ihb ihe =>
    have hb := ihb (.powerTail :: goals) rfl (.mark .caret :: (exponent.lexemes ++ lexemes))
      (Nat.le_refl 1) taken
    have hx := ihe (.build (.binary .pow) :: goals) rfl lexemes he (base.stop taken + 1)
    refine (spelled_around hb rfl hx).trans ?_
    exact (congrArg _ (spelled_built (.binary .pow) rfl hs rfl)).trans (after_after _ _ _)
  | factor d ih => exact ih (.productTail :: goals) rfl lexemes he taken
  | times divides left right ihl ihr =>
    have hmark : (Lexeme.mark (.scale divides)).looseness = 2 := by cases divides <;> rfl
    have hfeed : (Lexeme.mark (.scale divides)).feed (.productTail :: goals) =
        .read (Rule.power.goals ++ .build (.binary (.scale divides)) :: .productTail :: goals) := by
      cases divides <;> rfl
    have hl := ihl goals hs (.mark (.scale divides) :: (right.lexemes ++ lexemes))
      (Nat.le_of_eq hmark.symm) taken
    have hr := ihr (.build (.binary (.scale divides)) :: .productTail :: goals) rfl lexemes he
      (left.stop taken + 1)
    refine (spelled_around hl hfeed hr).trans ?_
    exact (congrArg _ (spelled_built _ rfl rfl rfl)).trans (after_after _ _ _)
  | term d ih =>
    have h := ih (.sumTail :: goals) rfl lexemes (Nat.le_trans (Nat.le_succ 2) he) taken
    exact h.trans (congrArg _ (spelled_same rfl rfl (Lexeme.feed_productTail _ he)))
  | plus subtracts left right ihl ihr =>
    have hmark : (Lexeme.mark (.sign subtracts)).looseness = 3 := by cases subtracts <;> rfl
    have hfeed : (Lexeme.mark (.sign subtracts)).feed (.sumTail :: goals) =
        .read (Rule.product.goals ++ .build (.binary (.sign subtracts)) :: .sumTail :: goals) := by
      cases subtracts <;> rfl
    have hl := ihl goals hs (.mark (.sign subtracts) :: (right.lexemes ++ lexemes))
      (Nat.le_of_eq hmark.symm) taken
    have hr := ihr (.build (.binary (.sign subtracts)) :: .sumTail :: goals) rfl lexemes
      (Nat.le_trans (Nat.le_succ 2) he) (left.stop taken + 1)
    refine (spelled_around hl hfeed hr).trans ?_
    exact (congrArg _ (spelled_built _ rfl rfl (Lexeme.feed_productTail _ he))).trans
      (after_after _ _ _)
  | whole d ih =>
    have h := ih (.finish :: goals) rfl lexemes (Nat.le_trans (Nat.le_succ 3) he) taken
    exact h.trans (congrArg _ (spelled_same rfl rfl (Lexeme.feed_sumTail _ he)))

end Reading

end DiceFormula
