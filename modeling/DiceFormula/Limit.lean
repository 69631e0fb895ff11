import DiceFormula.Text.Numeral
import DiceFormula.Text.Quoted

namespace DiceFormula

namespace Limit

/-- Why the limit setting cannot be used. -/
inductive Fault
  | notInteger (raw : String)
  | negative (value : Int)

/-- The name of the setting. -/
def setting : String := "DICE_PROBABILITY_LOOP_LIMIT"

def Fault.message : Fault → String
  | .notInteger raw => setting ++ " must be an integer, got " ++ Text.quoted raw
  | .negative value => setting ++ " must not be negative (" ++ toString value ++ ")"

/-- What a setting says: the largest number of operand pairs that one enumeration may visit, where
`none` is no limit. -/
abbrev Reading := Except Fault (Option Nat)

/-- An absent or blank setting is no limit. A numeral is read when it has at most so many digits as
the host bounds them to, where `none` is no bound. -/
def read (setting : Option String) (most : Option Nat := none) : Reading :=
  match setting with
  | none => .ok none
  | some raw =>
    if raw.toList.all Text.isBlank then .ok none
    else
      match Text.integer? most raw.toList with
      | none => .error (.notInteger raw)
      | some value => if value < 0 then .error (.negative value) else .ok (some value.toNat)

end Limit

end DiceFormula
