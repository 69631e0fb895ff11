import DiceFormula.Token

namespace DiceFormula

/-- Why a text is not a formula. -/
inductive FormatCause
  | unrecognized
  | operandExpected
  | unclosed
  | chained
  | trailing (found : Kind)
  | stated (message : String)
  deriving DecidableEq

def FormatCause.message : FormatCause → String
  | unrecognized => "Unrecognized character."
  | operandExpected => "Expected an integer or an opening parenthesis."
  | unclosed => "Missing closing parenthesis."
  | chained => "Dice rolls can't be chained. Write (2d2)d2 or 2d(2d2) instead of 2d2d2."
  | trailing found => "Unexpected " ++ found.text ++ " after a complete expression."
  | stated message => message

/-- A cause and the place in the text where it shows. -/
structure FormatError where
  cause : FormatCause
  position : Nat
  deriving DecidableEq

/-- A message with its place, as a reader sees it. -/
def located (message : String) (position : Int) : String :=
  message ++ " (pos = " ++ toString position ++ ")"

def FormatError.message (e : FormatError) : String :=
  located e.cause.message e.position

end DiceFormula
