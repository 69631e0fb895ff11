import DiceFormula.FormatError
import DiceFormula.Op

namespace DiceFormula

/-- A step in building an expression on a stack: a number is put on it, a roll or an operation takes
its two operands from it. -/
inductive Instr
  | number (value : Int)
  | roll
  | binary (op : Op)
  deriving DecidableEq

/-- What is still to be read, or to be built when all before it has been read. -/
inductive Goal
  /-- A literal or a sum in parentheses. -/
  | operand
  /-- A number after at most one sign. -/
  | literal
  /-- The number after a sign. -/
  | unsigned (negative : Bool)
  /-- At most one die mark with the faces after it. -/
  | rollTail
  /-- The end of a roll, where no die mark may follow. -/
  | rollEnd
  /-- At most one caret with the exponent after it. -/
  | powerTail
  /-- Any number of further factors and divisors. -/
  | productTail
  /-- Any number of further terms. -/
  | sumTail
  /-- The parenthesis that closes a sum. -/
  | close
  /-- The end of the formula. -/
  | finish
  | build (instr : Instr)
  deriving DecidableEq

/-- The rules of the grammar, the widest first. -/
inductive Rule
  | formula
  | sum
  | product
  | power
  | roll
  | operand
  | literal
  deriving DecidableEq

/-- What a rule reads, in order. -/
def Rule.goals : Rule → List Goal
  | literal => [.literal]
  | operand => [.operand]
  | roll => [.operand, .rollTail]
  | power => [.operand, .rollTail, .powerTail]
  | product => [.operand, .rollTail, .powerTail, .productTail]
  | sum => [.operand, .rollTail, .powerTail, .productTail, .sumTail]
  | formula => [.operand, .rollTail, .powerTail, .productTail, .sumTail, .finish]

/-- What the goals do with the next lexeme: read it and go on, stop before it because nothing is
left to read, or refuse it. -/
inductive Verdict
  | read (goals : List Goal)
  | done
  | refuse (cause : FormatCause)

/-- The instructions that are due before or with the next lexeme, and what becomes of it. -/
structure Move where
  instrs : List Instr
  verdict : Verdict

namespace Move

def read (goals : List Goal) : Move := ⟨[], .read goals⟩

def refuse (cause : FormatCause) : Move := ⟨[], .refuse cause⟩

/-- A literal is built when its number is read. -/
def literal (value : Int) (goals : List Goal) : Move := ⟨[.number value], .read goals⟩

end Move

/-- The reading of an operand that starts with a given lexeme. -/
def Lexeme.startOperand (parens : Bool) (goals : List Goal) : Lexeme → Move
  | number n => .literal n goals
  | mark .plus => .read (.unsigned false :: goals)
  | mark .minus => .read (.unsigned true :: goals)
  | mark .lparen =>
    if parens then .read (Rule.sum.goals ++ .close :: goals) else .refuse .operandExpected
  | _ => .refuse .operandExpected

/-- What the goals do with the next lexeme. Goals that need not read anything give way to the ones
behind them. -/
def Lexeme.feed (x : Lexeme) : List Goal → Move
  | [] => ⟨[], .done⟩
  | .build instr :: goals =>
    let move := x.feed goals
    { move with instrs := instr :: move.instrs }
  | .operand :: goals => x.startOperand true goals
  | .literal :: goals => x.startOperand false goals
  | .unsigned negative :: goals =>
    match x with
    | .number n => .literal (if negative then -(n : Int) else n) goals
    | _ => .refuse .operandExpected
  | .rollTail :: goals =>
    if x = .mark .die then .read (.operand :: .rollEnd :: .build .roll :: goals)
    else x.feed goals
  | .rollEnd :: goals => if x = .mark .die then .refuse .chained else x.feed goals
  | .powerTail :: goals =>
    if x = .mark .caret then .read (Rule.power.goals ++ .build (.binary .pow) :: goals)
    else x.feed goals
  | .productTail :: goals =>
    match x with
    | .mark .star => .read (Rule.power.goals ++ .build (.binary .mul) :: .productTail :: goals)
    | .mark .slash => .read (Rule.power.goals ++ .build (.binary .div) :: .productTail :: goals)
    | _ => x.feed goals
  | .sumTail :: goals =>
    match x with
    | .mark .plus => .read (Rule.product.goals ++ .build (.binary .add) :: .sumTail :: goals)
    | .mark .minus => .read (Rule.product.goals ++ .build (.binary .sub) :: .sumTail :: goals)
    | _ => x.feed goals
  | .close :: goals => if x = .mark .rparen then .read goals else .refuse .unclosed
  | .finish :: goals => if x = .stop then x.feed goals else .refuse (.trailing x.kind)

/-- An instruction with the number of tokens read before it. -/
structure Step where
  instr : Instr
  taken : Nat

/-- What reading a phrase gives: how to build its expression, how many tokens it took, and the cause
when it broke off there. -/
structure Reading where
  steps : List Step
  taken : Nat
  cause : Option FormatCause

/-- A sign belongs to the number after it, so a refusal of that number is one of the sign. -/
def Goal.signed : List Goal → Bool
  | .unsigned _ :: _ => true
  | _ => false

namespace Reading

/-- Reads `tokens` for the goals, after `taken` tokens. -/
def run (goals : List Goal) (taken : Nat) : List Token → Reading
  | [] =>
    let move := Lexeme.stop.feed goals
    { steps := move.instrs.map fun instr => ⟨instr, taken⟩
      taken := if Goal.signed goals then taken - 1 else taken
      cause := match move.verdict with
        | .refuse cause => some cause
        | _ => none }
  | token :: tokens =>
    let move := token.lexeme.feed goals
    let steps : List Step := move.instrs.map fun instr => ⟨instr, taken⟩
    match move.verdict with
    | .read goals =>
      let rest := run goals (taken + 1) tokens
      { rest with steps := steps ++ rest.steps }
    | .done => ⟨steps, taken, none⟩
    | .refuse cause => ⟨steps, if Goal.signed goals then taken - 1 else taken, some cause⟩

end Reading

/-- The phrase of a rule at the front of the tokens. -/
def Rule.read (rule : Rule) (tokens : List Token) : Reading := .run rule.goals 0 tokens

end DiceFormula
