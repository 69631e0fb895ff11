import DiceFormula.FormatError
import DiceFormula.Limit
import DiceFormula.Number.Fault

namespace DiceFormula

/-- What the outcomes of operands may not do. Each is refused when the expression is built. -/
inductive Check
  | zeroOverZero
  | zeroDivisor
  | negativeCount
  | negativeFaces
  | negativeExponent
  deriving DecidableEq

def Check.message : Check → String
  | zeroOverZero => "Divide zero from zero may occur."
  | zeroDivisor => "Division by zero may occur."
  | negativeCount =>
    "There is a possibility that the number of times you roll the dice becomes a negative number."
  | negativeFaces =>
    "There is a possibility that the number of dice faces becomes a negative number."
  | negativeExponent => "There is a possibility that an exponent becomes negative."

/-- What an expression without a meaning cannot answer. -/
inductive Missing
  | sampling
  | minimum
  | maximum
  | median
  | outcomes
  | zeroCheck
  | negativeCheck
  | operation
  deriving DecidableEq

def Missing.message : Missing → String
  | sampling => "Sampling missing for this expression."
  | minimum => "Minimum missing for this expression."
  | maximum => "Maximum missing for this expression."
  | median => "Median missing for this expression."
  | outcomes => "Probability missing for this expression."
  | zeroCheck => "Zero check missing for this expression."
  | negativeCheck => "Negative check missing for this expression."
  | operation => "Operation missing for "

/-- Why a formula or an expression has no answer. -/
inductive Fault
  | format (error : FormatError)
  | check (check : Check)
  | tooComplex (expression : String) (loops bound : Nat)
  | limit (fault : Limit.Fault)
  | number (fault : Number.Fault)
  | missing (what : Missing)
  | noOutcome
  | given (message : String)

def tooComplexMessage (expression : String) (loops bound : Int) : String :=
  "Computing the outcomes of " ++ expression ++ " needs " ++ toString loops ++ " steps (limit " ++
    toString bound ++ ")."

/-- The text for the reader. The faults of bare arithmetic and of numerals have none. -/
def Fault.message? : Fault → Option String
  | format error => some error.message
  | check c => some c.message
  | tooComplex expression loops bound => some (tooComplexMessage expression loops bound)
  | limit fault => some fault.message
  | missing what => some what.message
  | given message => some message
  | number _ | noOutcome => none

/-- The families of faults that a caller can tell apart. -/
inductive Category
  | general
  | mathematical
  | check (check : Check)
  | tooComplex
  | format
  | lexical
  | syntactic
  deriving DecidableEq

namespace Category

/-- The family and all wider ones, the narrowest first. -/
def lineage : Category → List Category
  | general => [general]
  | mathematical => [mathematical, general]
  | check c => [check c, mathematical, general]
  | tooComplex => [tooComplex, general]
  | format => [format, general]
  | lexical => [lexical, format, general]
  | syntactic => [syntactic, format, general]

/-- What is said of a fault when nothing else is. -/
def defaultMessage : Category → String
  | mathematical => "The expression is mathematically invalid."
  | check c => c.message
  | lexical => FormatCause.unrecognized.message
  | general | tooComplex | format | syntactic => "Dice expression error."

end Category

/-- The family of a fault, for the faults that have one. -/
def Fault.category? : Fault → Option Category
  | format ⟨.unrecognized, _⟩ => some .lexical
  | format _ => some .syntactic
  | check c => some (.check c)
  | tooComplex .. => some .tooComplex
  | limit _ | number _ | missing _ | noOutcome | given _ => none

end DiceFormula
