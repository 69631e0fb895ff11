import DiceFormula.Expr
import DiceFormula.Reading

namespace DiceFormula

/-- The mark of a sign. It also adds or subtracts. -/
def Mark.sign (negative : Bool) : Mark := if negative then .minus else .plus

/-- The mark that multiplies or divides. -/
def Mark.scale (divides : Bool) : Mark := if divides then .slash else .star

def Op.sign (negative : Bool) : Op := if negative then .sub else .add

def Op.scale (divides : Bool) : Op := if divides then .div else .mul

theorem Op.sign_ne_unspecified (negative : Bool) : Op.sign negative ≠ .unspecified := by
  cases negative <;> exact nofun

theorem Op.scale_ne_unspecified (divides : Bool) : Op.scale divides ≠ .unspecified := by
  cases divides <;> exact nofun

/-- The number of a literal. -/
def signedValue (negative : Bool) (value : Nat) : Int := if negative then -(value : Int) else value

/-- How a phrase is derived by the rules

    formula := sum
    sum     := product (('+' | '-') product)*
    product := power (('*' | '/') power)*
    power   := roll ('^' power)?
    roll    := operand ('d' operand)?
    operand := literal | '(' sum ')'
    literal := ('+' | '-')? number

A repetition is derived from its end, so that it associates to the left. -/
inductive Derivation : Rule → Type
  | unsigned (value : Nat) : Derivation .literal
  | signed (negative : Bool) (value : Nat) : Derivation .literal
  | literal (d : Derivation .literal) : Derivation .operand
  | parens (d : Derivation .sum) : Derivation .operand
  | single (d : Derivation .operand) : Derivation .roll
  | dice (count faces : Derivation .operand) : Derivation .roll
  | bare (d : Derivation .roll) : Derivation .power
  | raised (base : Derivation .roll) (exponent : Derivation .power) : Derivation .power
  | factor (d : Derivation .power) : Derivation .product
  | times (divides : Bool) (left : Derivation .product) (right : Derivation .power) :
      Derivation .product
  | term (d : Derivation .product) : Derivation .sum
  | plus (subtracts : Bool) (left : Derivation .sum) (right : Derivation .product) :
      Derivation .sum
  | whole (d : Derivation .sum) : Derivation .formula

namespace Derivation

variable {rule : Rule}

/-- The phrase. -/
def lexemes : {rule : Rule} → Derivation rule → List Lexeme
  | _, unsigned value => [.number value]
  | _, signed negative value => [.mark (.sign negative), .number value]
  | _, literal d => d.lexemes
  | _, parens d => .mark .lparen :: (d.lexemes ++ [.mark .rparen])
  | _, single d => d.lexemes
  | _, dice count faces => count.lexemes ++ .mark .die :: faces.lexemes
  | _, bare d => d.lexemes
  | _, raised base exponent => base.lexemes ++ .mark .caret :: exponent.lexemes
  | _, factor d => d.lexemes
  | _, times divides left right => left.lexemes ++ .mark (.scale divides) :: right.lexemes
  | _, term d => d.lexemes
  | _, plus subtracts left right => left.lexemes ++ .mark (.sign subtracts) :: right.lexemes
  | _, whole d => d.lexemes

/-- The tree that the grammar gives to the phrase. -/
def expr (memo : MemoName) : {rule : Rule} → Derivation rule → Expr
  | _, unsigned value => .number memo value
  | _, signed negative value => .number memo (signedValue negative value)
  | _, literal d => d.expr memo
  | _, parens d => d.expr memo
  | _, single d => d.expr memo
  | _, dice count faces => .roll memo (count.expr memo) (faces.expr memo)
  | _, bare d => d.expr memo
  | _, raised base exponent => .binary memo .pow (base.expr memo) (exponent.expr memo)
  | _, factor d => d.expr memo
  | _, times divides left right =>
    .binary memo (.scale divides) (left.expr memo) (right.expr memo)
  | _, term d => d.expr memo
  | _, plus subtracts left right =>
    .binary memo (.sign subtracts) (left.expr memo) (right.expr memo)
  | _, whole d => d.expr memo

/-- The number of lexemes up to the end of a phrase that starts behind `start` lexemes. -/
def stop (start : Nat) (d : Derivation rule) : Nat := start + d.lexemes.length

/-- The rolls and operations of a phrase that starts behind `start` lexemes, from left to right and
operands before the whole, each with the number of lexemes up to its end. -/
def compounds (memo : MemoName) : {rule : Rule} → Nat → Derivation rule → List (Expr × Nat)
  | _, _, unsigned _ => []
  | _, _, signed _ _ => []
  | _, start, literal d => d.compounds memo start
  | _, start, parens d => d.compounds memo (start + 1)
  | _, start, single d => d.compounds memo start
  | _, start, dice count faces =>
    count.compounds memo start ++ faces.compounds memo (count.stop start + 1) ++
      [((dice count faces).expr memo, (dice count faces).stop start)]
  | _, start, bare d => d.compounds memo start
  | _, start, raised base exponent =>
    base.compounds memo start ++ exponent.compounds memo (base.stop start + 1) ++
      [((raised base exponent).expr memo, (raised base exponent).stop start)]
  | _, start, factor d => d.compounds memo start
  | _, start, times divides left right =>
    left.compounds memo start ++ right.compounds memo (left.stop start + 1) ++
      [((times divides left right).expr memo, (times divides left right).stop start)]
  | _, start, term d => d.compounds memo start
  | _, start, plus subtracts left right =>
    left.compounds memo start ++ right.compounds memo (left.stop start + 1) ++
      [((plus subtracts left right).expr memo, (plus subtracts left right).stop start)]
  | _, start, whole d => d.compounds memo start

theorem stop_not_mem (d : Derivation rule) : .stop ∉ d.lexemes := by
  induction d with
  | unsigned | signed => simp [lexemes]
  | literal d ih | single d ih | bare d ih | factor d ih | term d ih | whole d ih => exact ih
  | parens d ih => simpa [lexemes] using ih
  | dice _ _ hl hr | raised _ _ hl hr | times _ _ _ hl hr | plus _ _ _ hl hr =>
    simpa [lexemes] using ⟨hl, hr⟩

end Derivation

/-- The goals that are left when a phrase of the rule has been read. -/
def Rule.rest : Rule → List Goal
  | product => [.productTail]
  | sum => [.sumTail]
  | formula => [.finish]
  | power | roll | operand | literal => []

/-- How loosely a lexeme takes what stands before it as an operand. Lexemes that take nothing are
the loosest. -/
def Lexeme.looseness : Lexeme → Nat
  | mark .die => 0
  | mark .caret => 1
  | mark .star | mark .slash => 2
  | mark .plus | mark .minus => 3
  | _ => 4

/-- The looseness of the first mark that a phrase of the rule leaves to what is around it. A product
may be followed by further factors, and a sum by further terms. -/
def Rule.bar : Rule → Nat
  | literal | operand => 0
  | roll => 1
  | power | product => 2
  | sum => 3
  | formula => 4

/-- The next lexeme of `lexemes` does not extend a phrase of the rule. -/
def Rule.Ends (rule : Rule) (lexemes : List Lexeme) : Prop :=
  rule.bar ≤ (lexemes.headD .stop).looseness

/-- The lexemes are a formula. -/
def Grammatical (lexemes : List Lexeme) : Prop := ∃ d : Derivation .sum, d.lexemes = lexemes

/-- The lexemes can be continued to a formula. -/
def Viable (lexemes : List Lexeme) : Prop := ∃ more, Grammatical (lexemes ++ more)

theorem Viable.of_append {u v : List Lexeme} (h : Viable (u ++ v)) : Viable u := by
  obtain ⟨more, hmore⟩ := h
  exact ⟨v ++ more, by rwa [← List.append_assoc]⟩

theorem Viable.take {u : List Lexeme} {i : Nat} (h : Viable u) : Viable (u.take i) := by
  have happend : Viable (u.take i ++ u.drop i) := by rwa [List.take_append_drop]
  exact happend.of_append

/-- An operand can start behind the lexemes. -/
def OperandDue (lexemes : List Lexeme) : Prop := ∃ value, Viable (lexemes ++ [.number value])

/-- The lexemes go wrong at `place`, up to which they can still be continued. A sign that belongs to
an operand goes wrong where it stands when no number comes next. -/
inductive SyntaxErrorAt (lexemes : List Lexeme) (place : Nat) : Prop
  | ended (viable : Viable (lexemes.take place)) (last : place = lexemes.length)
      (short : ¬ Grammatical lexemes)
  | unexpected (viable : Viable (lexemes.take place)) (inside : place < lexemes.length)
      (dead : ¬ Viable (lexemes.take (place + 1)))
  | signed (negative : Bool) (viable : Viable (lexemes.take place))
      (sign : lexemes[place]? = some (.mark (.sign negative)))
      (operand : OperandDue (lexemes.take place))
      (bare : ∀ value, lexemes[place + 1]? ≠ some (.number value))
      (dead : place + 1 = lexemes.length ∨ ¬ Viable (lexemes.take (place + 2)))

theorem SyntaxErrorAt.le_length {lexemes : List Lexeme} {place : Nat}
    (h : SyntaxErrorAt lexemes place) : place ≤ lexemes.length := by
  cases h with
  | ended _ last => exact Nat.le_of_eq last
  | unexpected _ inside => exact Nat.le_of_lt inside
  | signed _ _ sign => exact Nat.le_of_lt (List.getElem?_eq_some_iff.mp sign).1

end DiceFormula
