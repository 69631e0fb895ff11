import DiceFormula.Proofs.Moves
import DiceFormula.Proofs.Recognition

namespace DiceFormula

/-- Lexemes behind each phrase of one rule that ends at `start` make it a phrase of another, and its
steps go on with `steps`. -/
def Extends (a b : Rule) (start : Nat) (lexemes : List Lexeme) (steps : List Step) : Prop :=
  ∀ (d : Derivation a) (first : Nat), d.stop first = start →
    ∃ d' : Derivation b, d'.lexemes = d.lexemes ++ lexemes ∧ d'.steps first = d.steps first ++ steps

/-- The lexemes that a goal stands for behind `start` others, and the steps that come of them. -/
def Goal.Takes (start : Nat) (lexemes : List Lexeme) (steps : List Step) : Goal → Prop
  | operand => ∃ d : Derivation .operand, lexemes = d.lexemes ∧ steps = d.steps start
  | literal => ∃ d : Derivation .literal, lexemes = d.lexemes ∧ steps = d.steps start
  | unsigned negative => ∃ value, lexemes = [.number value] ∧
      steps = [⟨.number (signedValue negative value), start⟩]
  | rollTail => Extends .operand .roll start lexemes steps
  | powerTail => Extends .roll .power start lexemes steps
  | productTail => Extends .product .product start lexemes steps
  | sumTail => Extends .sum .sum start lexemes steps
  | close => lexemes = [.mark .rparen] ∧ steps = []
  | rollEnd | finish => lexemes = [] ∧ steps = []
  | build instr => lexemes = [] ∧ steps = [⟨instr, start⟩]

/-- What goals stand for together, one behind the other. -/
inductive Goal.TakeAll : List Goal → Nat → List Lexeme → List Step → Prop
  | nil (start : Nat) : TakeAll [] start [] []
  | cons {goal : Goal} {goals : List Goal} {start : Nat} {v w : List Lexeme} {s t : List Step}
      (head : goal.Takes start v s) (tail : TakeAll goals (start + v.length) w t) :
      TakeAll (goal :: goals) start (v ++ w) (s ++ t)

/-- A phrase of the rule in front of what the goals stand for. -/
def Rule.TakesBefore (rule : Rule) (goals : List Goal) (start : Nat) (lexemes : List Lexeme)
    (steps : List Step) : Prop :=
  ∃ (d : Derivation rule) (w : List Lexeme) (t : List Step), lexemes = d.lexemes ++ w ∧
    steps = d.steps start ++ t ∧ Goal.TakeAll goals (d.stop start) w t

namespace Extends

variable {start : Nat}

theorem trans {a b c : Rule} {v w : List Lexeme} {s t : List Step} (h : Extends a b start v s)
    (h' : Extends b c (start + v.length) w t) : Extends a c start (v ++ w) (s ++ t) := by
  intro d first hd
  obtain ⟨e, hlex, hsteps⟩ := h d first hd
  have hstop : e.stop first = start + v.length := by
    rw [← hd, Derivation.stop, hlex, List.length_append, Derivation.stop, Nat.add_assoc]
  obtain ⟨f, hlex', hsteps'⟩ := h' e first hstop
  exact ⟨f, by rw [hlex', hlex, List.append_assoc], by rw [hsteps', hsteps, List.append_assoc]⟩

/-- An operation on a phrase that ends before its mark ends where its second operand does. -/
theorem stop_around {a b : Rule} {left : Derivation a} {right : Derivation b} {m : Mark}
    {first : Nat} (hl : left.stop first = start) :
    first + (left.lexemes ++ .mark m :: right.lexemes).length = right.stop (start + 1) := by
  simp only [Derivation.stop, List.length_append, List.length_cons] at hl ⊢
  omega

theorem dice (faces : Derivation .operand) :
    Extends .operand .roll start (.mark .die :: faces.lexemes)
      (faces.steps (start + 1) ++ [⟨.roll, faces.stop (start + 1)⟩]) := by
  intro d first hd
  refine ⟨.dice d faces, rfl, ?_⟩
  rw [Derivation.steps, hd, List.append_assoc, ← stop_around hd]
  rfl

theorem raised (exponent : Derivation .power) :
    Extends .roll .power start (.mark .caret :: exponent.lexemes)
      (exponent.steps (start + 1) ++ [⟨.binary .pow, exponent.stop (start + 1)⟩]) := by
  intro d first hd
  refine ⟨.raised d exponent, rfl, ?_⟩
  rw [Derivation.steps, hd, List.append_assoc, ← stop_around hd]
  rfl

theorem times (divides : Bool) (right : Derivation .power) :
    Extends .product .product start (.mark (.scale divides) :: right.lexemes)
      (right.steps (start + 1) ++ [⟨.binary (.scale divides), right.stop (start + 1)⟩]) := by
  intro d first hd
  refine ⟨.times divides d right, rfl, ?_⟩
  rw [Derivation.steps, hd, List.append_assoc, ← stop_around hd]
  rfl

theorem plus (subtracts : Bool) (right : Derivation .product) :
    Extends .sum .sum start (.mark (.sign subtracts) :: right.lexemes)
      (right.steps (start + 1) ++ [⟨.binary (.sign subtracts), right.stop (start + 1)⟩]) := by
  intro d first hd
  refine ⟨.plus subtracts d right, rfl, ?_⟩
  rw [Derivation.steps, hd, List.append_assoc, ← stop_around hd]
  rfl

/-- A phrase that is one of the other rule as it stands. -/
theorem none {a b : Rule} (h : ∀ d : Derivation a, ∃ d' : Derivation b,
    d'.lexemes = d.lexemes ∧ ∀ first, d'.steps first = d.steps first) :
    Extends a b start [] [] := by
  intro d first _
  obtain ⟨d', hlex, hsteps⟩ := h d
  exact ⟨d', by rw [hlex, List.append_nil], by rw [hsteps, List.append_nil]⟩

end Extends

namespace Goal

variable {goals : List Goal} {start : Nat} {lexemes : List Lexeme} {steps : List Step}

theorem takeAll_cons {goal : Goal} (h : TakeAll (goal :: goals) start lexemes steps) :
    ∃ v w s t, lexemes = v ++ w ∧ steps = s ++ t ∧ goal.Takes start v s ∧
      TakeAll goals (start + v.length) w t := by
  cases h with
  | cons head tail => exact ⟨_, _, _, _, rfl, rfl, head, tail⟩

theorem GivesWay.takes_nothing {goal : Goal} (h : goal.GivesWay) : goal.Takes start [] [] := by
  cases h with
  | rollTail => exact Extends.none fun d => ⟨.single d, rfl, fun _ => rfl⟩
  | powerTail => exact Extends.none fun d => ⟨.bare d, rfl, fun _ => rfl⟩
  | productTail | sumTail => exact Extends.none fun d => ⟨d, rfl, fun _ => rfl⟩
  | rollEnd | finish => exact ⟨rfl, rfl⟩

theorem TakeAll.skip {goal : Goal} (h : TakeAll goals start lexemes steps) (hg : goal.GivesWay) :
    TakeAll (goal :: goals) start lexemes steps :=
  .cons hg.takes_nothing h

end Goal

namespace Rule.TakesBefore

variable {goals : List Goal} {start : Nat} {lexemes : List Lexeme} {steps : List Step}

theorem extend {a b : Rule} {goal : Goal} (h : a.TakesBefore (goal :: goals) start lexemes steps)
    (hg : ∀ start v s, goal.Takes start v s → Extends a b start v s) :
    b.TakesBefore goals start lexemes steps := by
  obtain ⟨d, w, t, rfl, rfl, htail⟩ := h
  obtain ⟨v, w, s, t, rfl, rfl, hgoal, hrest⟩ := Goal.takeAll_cons htail
  obtain ⟨d', hlex, hsteps⟩ := hg _ _ _ hgoal d start rfl
  refine ⟨d', w, t, by rw [hlex, List.append_assoc], by rw [hsteps, List.append_assoc], ?_⟩
  have hstop : d'.stop start = d.stop start + v.length := by
    rw [Derivation.stop, hlex, List.length_append, Derivation.stop, Nat.add_assoc]
  rwa [hstop]

theorem operand (h : Goal.TakeAll (.operand :: goals) start lexemes steps) :
    Rule.operand.TakesBefore goals start lexemes steps := by
  obtain ⟨v, w, s, t, rfl, rfl, ⟨d, rfl, rfl⟩, htail⟩ := Goal.takeAll_cons h
  exact ⟨d, w, t, rfl, rfl, htail⟩

theorem power (h : Goal.TakeAll (Rule.power.goals ++ goals) start lexemes steps) :
    Rule.power.TakesBefore goals start lexemes steps :=
  ((operand h).extend fun _ _ _ => id).extend fun _ _ _ => id

theorem product (h : Goal.TakeAll (Rule.product.goals ++ goals) start lexemes steps) :
    Rule.product.TakesBefore goals start lexemes steps := by
  obtain ⟨d, w, t, hw, ht, htail⟩ := power h
  have hfactor : Rule.product.TakesBefore (.productTail :: goals) start lexemes steps :=
    ⟨.factor d, w, t, hw, ht, htail⟩
  exact hfactor.extend fun _ _ _ => id

theorem sum (h : Goal.TakeAll (Rule.sum.goals ++ goals) start lexemes steps) :
    Rule.sum.TakesBefore goals start lexemes steps := by
  obtain ⟨d, w, t, hw, ht, htail⟩ := product h
  have hterm : Rule.sum.TakesBefore (.sumTail :: goals) start lexemes steps :=
    ⟨.term d, w, t, hw, ht, htail⟩
  exact hterm.extend fun _ _ _ => id

end Rule.TakesBefore

namespace Goal

variable {goals : List Goal} {start : Nat} {lexemes : List Lexeme} {steps : List Step}

/-- A second operand behind its mark, and the operation that is built at its end. -/
theorem TakeAll.operation {rule : Rule} {instr : Instr} (m : Mark)
    (h : rule.TakesBefore (.build instr :: goals) (start + 1) lexemes steps) :
    ∃ (right : Derivation rule) (w : List Lexeme) (t : List Step),
      .mark m :: lexemes = (.mark m :: right.lexemes) ++ w ∧
      steps = (right.steps (start + 1) ++ [⟨instr, right.stop (start + 1)⟩]) ++ t ∧
      TakeAll goals (start + (Lexeme.mark m :: right.lexemes).length) w t := by
  obtain ⟨right, w, t, rfl, rfl, htail⟩ := h
  obtain ⟨v, w, s, t, rfl, rfl, ⟨rfl, rfl⟩, hrest⟩ := takeAll_cons htail
  refine ⟨right, w, t, by simp, by simp, ?_⟩
  have hstop : start + (Lexeme.mark m :: right.lexemes).length = right.stop (start + 1) := by
    simp only [Derivation.stop, List.length_cons]
    omega
  rwa [hstop]

/-- A tail that starts with a mark, where it ends with one operation. -/
theorem TakeAll.extend {a b c : Rule} {goal : Goal} {instr : Instr} {m : Mark}
    (hg : ∀ v s, Extends a b start v s → goal.Takes start v s)
    (he : ∀ right : Derivation c, Extends a b start (.mark m :: right.lexemes)
      (right.steps (start + 1) ++ [⟨instr, right.stop (start + 1)⟩]))
    (h : c.TakesBefore (.build instr :: goals) (start + 1) lexemes steps) :
    TakeAll (goal :: goals) start (.mark m :: lexemes) steps := by
  obtain ⟨right, w, t, hw, rfl, htail⟩ := TakeAll.operation m h
  rw [hw]
  exact .cons (hg _ _ (he right)) htail

/-- A tail that starts with a mark, where it may go on behind the first operation. -/
theorem TakeAll.again {a c : Rule} {goal : Goal} {instr : Instr} {m : Mark}
    (hg : ∀ start v s, goal.Takes start v s ↔ Extends a a start v s)
    (he : ∀ right : Derivation c, Extends a a start (.mark m :: right.lexemes)
      (right.steps (start + 1) ++ [⟨instr, right.stop (start + 1)⟩]))
    (h : c.TakesBefore (.build instr :: goal :: goals) (start + 1) lexemes steps) :
    TakeAll (goal :: goals) start (.mark m :: lexemes) steps := by
  obtain ⟨right, w, t, hw, rfl, htail⟩ := TakeAll.operation m h
  obtain ⟨v, w, s, t, rfl, rfl, hgoal, hrest⟩ := takeAll_cons htail
  rw [hw, ← List.append_assoc, ← List.append_assoc]
  refine .cons ((hg _ _ _).mpr ((he right).trans ((hg _ _ _).mp hgoal))) ?_
  rwa [List.length_append, ← Nat.add_assoc]

/-- A sum in parentheses, in front of what the goals stand for. -/
theorem TakeAll.parens (h : TakeAll (Rule.sum.goals ++ .close :: goals) (start + 1) lexemes steps) :
    TakeAll (.operand :: goals) start (.mark .lparen :: lexemes) steps := by
  obtain ⟨d, w, t, rfl, rfl, htail⟩ := Rule.TakesBefore.sum h
  obtain ⟨v, w, s, t, rfl, rfl, ⟨rfl, rfl⟩, hrest⟩ := takeAll_cons htail
  have hlex : .mark .lparen :: (d.lexemes ++ ([.mark .rparen] ++ w)) =
      (Derivation.parens d).lexemes ++ w := by simp [Derivation.lexemes]
  have hstop : start + (Derivation.parens d).lexemes.length = d.stop (start + 1) + 1 := by
    simp only [Derivation.stop, Derivation.lexemes, List.length_append, List.length_cons,
      List.length_nil]
    omega
  rw [hlex, List.nil_append]
  exact .cons ⟨.parens d, rfl, rfl⟩ (hstop ▸ hrest)

/-- What a goal stands for starts with a lexeme that it reads, and goes on with what the goals in
its place stand for. -/
theorem TakeAll.fills {x : Lexeme} {goal : Goal} {instrs : List Instr} {front : List Goal}
    (hf : x.Fills goal instrs front) (h : TakeAll (front ++ goals) (start + 1) lexemes steps) :
    TakeAll (goal :: goals) start (x :: lexemes) (Reading.due start instrs ++ steps) := by
  have hliteral {goal : Goal} (hg : goal = .operand ∨ goal = .literal) (d : Derivation .literal) :
      goal.Takes start d.lexemes (d.steps start) := by
    rcases hg with rfl | rfl
    · exact ⟨.literal d, rfl, rfl⟩
    · exact ⟨d, rfl, rfl⟩
  cases hf with
  | value value hg => exact .cons (hliteral hg (.unsigned value)) h
  | signed negative value =>
    have hnumber : (Goal.unsigned negative).Takes start [.number value]
        [⟨.number (signedValue negative value), start⟩] := ⟨value, rfl, rfl⟩
    exact .cons hnumber h
  | sign negative hg =>
    obtain ⟨v, w, s, t, rfl, rfl, ⟨value, rfl, rfl⟩, htail⟩ := takeAll_cons h
    exact .cons (hliteral hg (.signed negative value)) htail
  | lparen => exact h.parens
  | rparen =>
    have hclose : Goal.close.Takes start [.mark .rparen] [] := ⟨rfl, rfl⟩
    exact .cons hclose h
  | die =>
    obtain ⟨d, w, t, rfl, rfl, htail⟩ := Rule.TakesBefore.operand h
    obtain ⟨v, w, s, t, rfl, rfl, ⟨rfl, rfl⟩, hrest⟩ := takeAll_cons htail
    exact TakeAll.extend (fun _ _ => id) Extends.dice ⟨d, w, t, rfl, rfl, hrest⟩
  | caret => exact TakeAll.extend (fun _ _ => id) Extends.raised (.power h)
  | scale divides => exact TakeAll.again (fun _ _ _ => .rfl) (Extends.times divides) (.power h)
  | plus subtracts => exact TakeAll.again (fun _ _ _ => .rfl) (Extends.plus subtracts) (.product h)

theorem TakeAll.built {instr : Instr} (h : TakeAll goals start lexemes steps) :
    TakeAll (.build instr :: goals) start lexemes (⟨instr, start⟩ :: steps) := by
  have hbuild : (Goal.build instr).Takes start [] [⟨instr, start⟩] := ⟨rfl, rfl⟩
  exact .cons hbuild h

/-- What the goals stand for starts with a lexeme that they read, and goes on with what the goals
that are left then stand for. -/
theorem takeAll_of_feed {x : Lexeme} {instrs : List Instr} {next : List Goal}
    (hx : x.feed goals = ⟨instrs, .read next⟩) (h : TakeAll next (start + 1) lexemes steps) :
    TakeAll goals start (x :: lexemes) (Reading.due start instrs ++ steps) := by
  induction goals generalizing instrs with
  | nil => cases hx
  | cons goal goals ih =>
    cases x.feed_cases goal goals with
    | built instr hg =>
      subst hg
      obtain ⟨others, rfl, hothers⟩ := Lexeme.feed_build hx
      exact (ih hothers).built
    | passed way _ hp => exact (ih (hp ▸ hx)).skip way
    | refused cause _ hp =>
      rw [hp] at hx
      cases hx
    | filled fills hp =>
      rw [hp] at hx
      cases hx
      exact .fills fills h

/-- All goals stand for something. -/
theorem exists_takes (goal : Goal) (start : Nat) : ∃ v s, goal.Takes start v s := by
  cases goal with
  | operand => exact ⟨_, _, .literal (.unsigned 0), rfl, rfl⟩
  | literal => exact ⟨_, _, .unsigned 0, rfl, rfl⟩
  | unsigned => exact ⟨_, _, 0, rfl, rfl⟩
  | rollTail => exact ⟨_, _, GivesWay.rollTail.takes_nothing⟩
  | powerTail => exact ⟨_, _, GivesWay.powerTail.takes_nothing⟩
  | productTail => exact ⟨_, _, GivesWay.productTail.takes_nothing⟩
  | sumTail => exact ⟨_, _, GivesWay.sumTail.takes_nothing⟩
  | rollEnd | finish | close | build => exact ⟨_, _, rfl, rfl⟩

theorem exists_takeAll (goals : List Goal) (start : Nat) :
    ∃ w t, TakeAll goals start w t := by
  induction goals generalizing start with
  | nil => exact ⟨_, _, .nil start⟩
  | cons goal goals ih =>
    obtain ⟨v, s, hgoal⟩ := exists_takes goal start
    obtain ⟨w, t, htail⟩ := ih (start + v.length)
    exact ⟨_, _, .cons hgoal htail⟩

/-- Goals that stop before a lexeme need nothing more, and goals that refuse it still stand for
something. Either way it starts with the instructions that are due. -/
theorem takeAll_of_not_read {x : Lexeme} (hx : ∀ next, (x.feed goals).verdict ≠ .read next)
    (start : Nat) :
    ∃ w t, TakeAll goals start w (Reading.due start (x.feed goals).instrs ++ t) ∧
      ((x.feed goals).verdict = .done → w = [] ∧ t = []) := by
  induction goals with
  | nil => exact ⟨[], [], .nil start, fun _ => ⟨rfl, rfl⟩⟩
  | cons goal goals ih =>
    cases x.feed_cases goal goals with
    | built instr hg =>
      subst hg
      obtain ⟨w, t, htake, hdone⟩ := ih hx
      exact ⟨w, t, htake.built, hdone⟩
    | passed way _ hp =>
      rw [hp] at hx ⊢
      obtain ⟨w, t, htake, hdone⟩ := ih hx
      exact ⟨w, t, htake.skip way, hdone⟩
    | refused cause _ hp =>
      obtain ⟨w, t, htake⟩ := exists_takeAll (goal :: goals) start
      rw [hp]
      exact ⟨w, t, htake, fun hdone => by cases hdone⟩
    | filled fills hp => exact absurd (congrArg Move.verdict hp) (hx _)

end Goal

end DiceFormula
