import DiceFormula.Fault
import DiceFormula.Number

namespace DiceFormula

/-- The operators between two expressions. The unspecified one joins them without a meaning. -/
inductive Op
  | add | sub | mul | div | pow | unspecified
  deriving DecidableEq

namespace Op

def symbol : Op → String
  | add => "+"
  | sub => "-"
  | mul => "*"
  | div => "/"
  | pow => "^"
  | unspecified => ""

def name : Op → String
  | add => "Add"
  | sub => "Sub"
  | mul => "Mul"
  | div => "Div"
  | pow => "Pow"
  | unspecified => "BinaryOperation"

/-- The result on integers, where there is one. Division drops the fraction. -/
def value : Op → Int → Int → Int
  | add, x, y => x + y
  | sub, x, y => x - y
  | mul, x, y => x * y
  | div, x, y => x.tdiv y
  | pow, x, y => Number.powNat x y.toNat
  | unspecified, _, _ => 0

/-- Whether every integer has an integer result with `y`, which then is `value`. -/
def isWholeAt : Op → Int → Bool
  | add, _ | sub, _ | mul, _ => true
  | div, y => y ≠ 0
  | pow, y => 0 ≤ y
  | unspecified, _ => false

/-- The operator on any numbers. -/
def apply : Op → Number → Number → Except Fault Number
  | add, x, y => (x.add y).mapError .number
  | sub, x, y => (x.sub y).mapError .number
  | mul, x, y => (x.mul y).mapError .number
  | div, x, y => (x.truncDiv y).mapError .number
  | pow, x, y => (x.pow y).mapError .number
  | unspecified, _, _ => .error (.missing .operation)

/-- The operator on a double and a number, where division keeps the fraction. -/
def applyReal : Op → Number → Number → Except Fault Number
  | div, x, y => (x.divReal y).mapError .number
  | op, x, y => op.apply x y

end Op

end DiceFormula
