import DiceFormula.Text.Blank
import DiceFormula.Text.Digit

namespace DiceFormula.Text

/-- Reads the rest of a numeral after a digit: further digits, each of which may follow one
underscore. -/
def moreDigits? (value : Nat) : List Char → Option Nat
  | [] => some value
  | '_' :: c :: rest => do moreDigits? (value * 10 + (← digit? c)) rest
  | c :: rest => do moreDigits? (value * 10 + (← digit? c)) rest

/-- Reads digits of any script, with single underscores between them. -/
def natural? : List Char → Option Nat
  | [] => none
  | c :: rest => do moreDigits? (← digit? c) rest

/-- How many of the characters are digits, leading zeros among them. -/
def digitCount (cs : List Char) : Nat := cs.countP fun c => (digit? c).isSome

/-- Reads a whole number: digits after at most one sign, with blanks around. There may be at most so
many digits, where `none` is any number of them. -/
def integer? (most : Option Nat) (cs : List Char) : Option Int :=
  if most.any (· < digitCount cs) then none
  else
    match trim isMargin cs with
    | '-' :: rest => (natural? rest).map fun n => -(n : Int)
    | '+' :: rest => (natural? rest).map Int.ofNat
    | rest => (natural? rest).map Int.ofNat

end DiceFormula.Text
