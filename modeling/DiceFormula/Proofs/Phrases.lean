import DiceFormula.Cursor
import DiceFormula.Proofs.Building
import DiceFormula.Proofs.Moves

namespace DiceFormula

/-- An instruction finds its operands on a stack of one height and leaves it at another. -/
inductive Instr.Lifts : Instr → Nat → Nat → Prop
  | number (value : Int) (n : Nat) : Lifts (.number value) n (n + 1)
  | roll (n : Nat) : Lifts .roll (n + 2) (n + 1)
  | binary {op : Op} (meaning : op ≠ .unspecified) (n : Nat) : Lifts (.binary op) (n + 2) (n + 1)

inductive Instr.Fits : List Instr → Nat → Nat → Prop
  | nil (n : Nat) : Fits [] n n
  | cons {instr : Instr} {instrs : List Instr} {n k m : Nat} (head : instr.Lifts n k)
      (tail : Fits instrs k m) : Fits (instr :: instrs) n m

theorem Instr.Fits.append {is js : List Instr} {n k m : Nat} (hi : Fits is n k)
    (hj : Fits js k m) : Fits (is ++ js) n m := by
  induction hi with
  | nil => exact hj
  | cons head _ ih => exact .cons head (ih hj)

/-- What the phrase of a goal does to the height of the stack. -/
inductive Goal.Lifts : Goal → Nat → Nat → Prop
  | operand (n : Nat) : Lifts .operand n (n + 1)
  | literal (n : Nat) : Lifts .literal n (n + 1)
  | unsigned (negative : Bool) (n : Nat) : Lifts (.unsigned negative) n (n + 1)
  | rollTail (n : Nat) : Lifts .rollTail (n + 1) (n + 1)
  | rollEnd (n : Nat) : Lifts .rollEnd n n
  | powerTail (n : Nat) : Lifts .powerTail (n + 1) (n + 1)
  | productTail (n : Nat) : Lifts .productTail (n + 1) (n + 1)
  | sumTail (n : Nat) : Lifts .sumTail (n + 1) (n + 1)
  | close (n : Nat) : Lifts .close n n
  | finish (n : Nat) : Lifts .finish n n
  | build {instr : Instr} {n m : Nat} (lifts : instr.Lifts n m) : Lifts (.build instr) n m

/-- The goals end with one expression on the stack. -/
inductive Goal.Ready : List Goal → Nat → Prop
  | nil : Ready [] 1
  | cons {goal : Goal} {goals : List Goal} {n k : Nat} (head : goal.Lifts n k)
      (tail : Ready goals k) : Ready (goal :: goals) n

namespace Goal.Ready

variable {goals : List Goal} {n : Nat}

theorem power (h : Ready goals (n + 1)) : Ready (Rule.power.goals ++ goals) n :=
  .cons (.operand n) (.cons (.rollTail n) (.cons (.powerTail n) h))

theorem product (h : Ready goals (n + 1)) : Ready (Rule.product.goals ++ goals) n :=
  power (.cons (.productTail n) h)

theorem sum (h : Ready goals (n + 1)) : Ready (Rule.sum.goals ++ goals) n :=
  product (.cons (.sumTail n) h)

theorem binary {op : Op} (ho : op ≠ .unspecified) (h : Ready goals (n + 1)) :
    Ready (.build (.binary op) :: goals) (n + 2) :=
  .cons (.build (.binary ho n)) h

theorem rule (rule : Rule) : Ready rule.goals 0 := by
  cases rule with
  | formula => exact sum (.cons (.finish 1) .nil)
  | sum => exact sum .nil
  | product => exact product .nil
  | power => exact power .nil
  | roll => exact .cons (.operand 0) (.cons (.rollTail 0) .nil)
  | operand => exact .cons (.operand 0) .nil
  | literal => exact .cons (.literal 0) .nil

end Goal.Ready

/-- What is left to do after a move suits the height of the stack. -/
def Verdict.Ready : Verdict → Nat → Prop
  | read goals, n => Goal.Ready goals n
  | done, n => n = 1
  | refuse _, _ => True

/-- The instructions of a move find their operands, and what is left suits the stack behind them. -/
def Move.Suits (move : Move) (n : Nat) : Prop :=
  ∃ m, Instr.Fits move.instrs n m ∧ move.verdict.Ready m

namespace Move

variable {goals : List Goal} {n : Nat}

theorem suits_read (h : Goal.Ready goals n) : (Move.read goals).Suits n := ⟨n, .nil n, h⟩

theorem suits_refuse {cause : FormatCause} : (Move.refuse cause).Suits n := ⟨n, .nil n, trivial⟩

theorem suits_literal {value : Int} (h : Goal.Ready goals (n + 1)) :
    (Move.literal value goals).Suits n :=
  ⟨n + 1, .cons (.number value n) (.nil _), h⟩

end Move

/-- A goal that gives way leaves the stack as it is. -/
theorem Goal.Lifts.eq_of_givesWay {goal : Goal} {n k : Nat} (h : goal.Lifts n k)
    (hg : goal.GivesWay) : n = k := by
  cases hg <;> cases h <;> rfl

/-- A goal that reads a lexeme does to the stack what its instructions and the goals in its place
do. -/
theorem Lexeme.Fills.suits {x : Lexeme} {goal : Goal} {instrs : List Instr}
    {front goals : List Goal} {n k : Nat} (hf : x.Fills goal instrs front) (h : goal.Lifts n k)
    (ht : Goal.Ready goals k) : Move.Suits ⟨instrs, .read (front ++ goals)⟩ n := by
  cases hf with
  | value value hg =>
    rcases hg with rfl | rfl
    · cases h
      exact Move.suits_literal ht
    · cases h
      exact Move.suits_literal ht
  | signed =>
    cases h
    exact Move.suits_literal ht
  | sign negative hg =>
    rcases hg with rfl | rfl
    · cases h
      exact Move.suits_read (.cons (.unsigned negative n) ht)
    · cases h
      exact Move.suits_read (.cons (.unsigned negative n) ht)
  | lparen =>
    cases h
    exact Move.suits_read (.sum (.cons (.close (n + 1)) ht))
  | rparen =>
    cases h
    exact Move.suits_read ht
  | die =>
    cases h with
    | rollTail m =>
      exact Move.suits_read
        (.cons (.operand (m + 1)) (.cons (.rollEnd _) (.cons (.build (.roll m)) ht)))
  | caret =>
    cases h
    exact Move.suits_read (.power (.binary (by decide) ht))
  | scale divides =>
    cases h with
    | productTail m =>
      exact Move.suits_read
        (.power (.binary (Op.scale_ne_unspecified divides) (.cons (.productTail m) ht)))
  | plus subtracts =>
    cases h with
    | sumTail m =>
      exact Move.suits_read
        (.product (.binary (Op.sign_ne_unspecified subtracts) (.cons (.sumTail m) ht)))

theorem Lexeme.feed_suits {goals : List Goal} {n : Nat} (x : Lexeme) (h : Goal.Ready goals n) :
    (x.feed goals).Suits n := by
  induction h with
  | nil => exact ⟨1, .nil 1, rfl⟩
  | @cons goal goals n k head tail ih =>
    cases x.feed_cases goal goals with
    | built instr hg =>
      subst hg
      obtain ⟨m, hfits, hready⟩ := ih
      cases head with
      | build lifts => exact ⟨m, .cons lifts hfits, hready⟩
    | passed way _ hp =>
      rw [hp, head.eq_of_givesWay way]
      exact ih
    | refused cause _ hp =>
      rw [hp]
      exact Move.suits_refuse
    | filled fills hp =>
      rw [hp]
      exact fills.suits head tail

/-- A reading builds on what it finds, and a phrase that was read to its end leaves its expression
alone on the stack. -/
theorem Reading.run_fits {goals : List Goal} {n : Nat} (h : Goal.Ready goals n) (taken : Nat)
    (tokens : List Token) :
    ∃ m, Instr.Fits ((run goals taken tokens).steps.map Step.instr) n m ∧
      ((run goals taken tokens).cause = none → m = 1) := by
  induction tokens generalizing goals n taken with
  | nil =>
    obtain ⟨m, hfits, hready⟩ := Lexeme.stop.feed_suits h
    refine ⟨m, by simpa [run, Function.comp_def] using hfits, fun hcause => ?_⟩
    simp only [run] at hcause
    cases hv : (Lexeme.stop.feed goals).verdict with
    | read next => exact absurd hv (Lexeme.stop_feed_ne_read goals next)
    | done => simpa [hv, Verdict.Ready] using hready
    | refuse cause => simp [hv] at hcause
  | cons token tokens ih =>
    obtain ⟨m, hfits, hready⟩ := token.lexeme.feed_suits h
    cases hv : (token.lexeme.feed goals).verdict with
    | read next =>
      obtain ⟨k, hrest, hend⟩ := ih (by simpa [hv, Verdict.Ready] using hready) (taken + 1)
      refine ⟨k, ?_, by simpa [run, hv] using hend⟩
      simpa [run, hv, Function.comp_def] using hfits.append hrest
    | done =>
      refine ⟨m, by simpa [run, hv, Function.comp_def] using hfits, fun _ => ?_⟩
      simpa [hv, Verdict.Ready] using hready
    | refuse cause =>
      exact ⟨m, by simpa [run, hv, Function.comp_def] using hfits, by simp [run, hv]⟩

section Build

variable {limit : Limit.Reading} {memo : MemoName}

/-- The stack holds safe expressions only, and as many as stated. -/
def SafeStack (n : Nat) (stack : List Expr) : Prop := stack.length = n ∧ ∀ e ∈ stack, e.Safe

theorem SafeStack.cons {n : Nat} {e : Expr} {stack : List Expr} (he : e.Safe)
    (h : SafeStack n stack) : SafeStack (n + 1) (e :: stack) := by
  refine ⟨by simp [h.1], ?_⟩
  intro f hf
  rcases List.mem_cons.mp hf with rfl | hf
  · exact he
  · exact h.2 f hf

/-- The two operands on top of a stack that is high enough. -/
theorem SafeStack.two {n : Nat} {stack : List Expr} (h : SafeStack (n + 2) stack) :
    ∃ right left rest, stack = right :: left :: rest ∧ right.Safe ∧ left.Safe ∧
      SafeStack n rest := by
  obtain ⟨hlen, hsafe⟩ := h
  match stack, hlen with
  | right :: left :: rest, hlen =>
    exact ⟨right, left, rest, rfl, hsafe _ (by simp), hsafe _ (by simp),
      by simpa using hlen, fun e he => hsafe e (by simp [he])⟩

theorem Instr.perform_meets {instr : Instr} {n m : Nat} {stack : List Expr}
    (h : instr.Lifts n m) (hs : SafeStack n stack) :
    Meets Store.Truthful (instr.perform limit memo stack) (SafeStack m) fun _ => True := by
  cases h with
  | number value => exact Meets.pure (hs.cons trivial)
  | roll k =>
    obtain ⟨faces, count, rest, rfl, hf, hc, hrest⟩ := hs.two
    refine Meets.bind (Expr.mkRoll_meets hc hf).anyFault ?_
    exact fun e he => Meets.pure (hrest.cons he.2)
  | binary meaning k =>
    obtain ⟨right, left, rest, rfl, hr, hl, hrest⟩ := hs.two
    refine Meets.bind (Expr.mkBinary_meets meaning hl hr).anyFault ?_
    exact fun e he => Meets.pure (hrest.cons he.2)

theorem Cursor.build_meets {cursor : Cursor} {steps : List Step} {n m : Nat} {stack : List Expr}
    (h : Instr.Fits (steps.map Step.instr) n m) (hs : SafeStack n stack) :
    Meets Store.Truthful (build limit memo cursor stack steps) (SafeStack m) fun _ => True := by
  induction steps generalizing n stack with
  | nil =>
    cases h
    exact Meets.pure hs
  | cons step steps ih =>
    cases h with
    | cons head tail =>
      exact Meets.bind (Meets.adaptExcept (Instr.perform_meets head hs)) fun _ hk => ih tail hk

theorem Cursor.parse_meets {cursor : Cursor} {rule : Rule} :
    Meets Store.Truthful (parse limit memo cursor rule) (fun r => r.1.Safe) fun _ => True := by
  obtain ⟨m, hfits, hend⟩ := Reading.run_fits (.rule rule) 0 (cursor.tokens.items.drop cursor.index)
  have hempty : SafeStack 0 [] := ⟨rfl, by simp⟩
  refine Meets.bind (build_meets hfits hempty) fun stack hs => ?_
  cases hcause : (rule.read (cursor.tokens.items.drop cursor.index)).cause with
  | some cause => exact Meets.throw trivial
  | none =>
    obtain ⟨e, rfl⟩ := List.length_eq_one_iff.mp (hs.1.trans (hend hcause))
    exact Meets.pure (hs.2 e (by simp))

/-- Reading a formula gives a safe expression or a fault, whatever the limit. -/
theorem parse_meets {source : String} :
    Meets Store.Truthful (parse limit memo source) Expr.Safe fun _ => True := by
  rw [parse_eq]
  split
  · exact Meets.throw trivial
  · exact Meets.bind (Meets.adaptExcept Cursor.parse_meets) fun r hr => Meets.pure hr

end Build

end DiceFormula
