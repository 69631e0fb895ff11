import DiceFormula.Fault
import DiceFormula.Token

namespace DiceFormula

/-- The blanks between tokens: space, tab, line feed and the ideographic space. -/
def isGap (c : Char) : Bool :=
  c == ' ' || c == '\t' || c == '\n' || c == '\u3000'

/-- The value of an ASCII digit. -/
def digit? (c : Char) : Option Nat :=
  if '0' ≤ c && c ≤ '9' then some (c.toNat - '0'.toNat) else none

/-- Why a text is not cut into tokens, when numbers of at most so many digits are read: a character
that starts no token, or a number with more digits. -/
inductive Refusal : Option Nat → Type
  | character {most : Option Nat} (position : Nat) : Refusal most
  | digits {bound : Nat} (count : Nat) (many : bound < count) : Refusal (some bound)

namespace Refusal

def fault {most : Option Nat} : Refusal most → Fault
  | character position => .format ⟨.unrecognized, position⟩
  | digits _ _ => .number .digits

/-- Where numbers have any number of digits, only characters are refused. -/
def error : Refusal none → FormatError
  | character position => ⟨.unrecognized, position⟩

end Refusal

/-- A number in the making: the place of its first digit, its value so far, and how many digits it
has, leading zeros among them. -/
structure Digits where
  position : Nat
  value : Nat
  count : Nat

/-- The token of the digits that have just ended, unless there are too many of them. -/
def Digits.token? (most : Option Nat) (digits : Option Digits) :
    Except (Refusal most) (List Token) :=
  match digits, most with
  | none, _ => .ok []
  | some ds, none => .ok [⟨.number ds.value, ds.position⟩]
  | some ds, some bound =>
    if many : bound < ds.count then .error (.digits ds.count many)
    else .ok [⟨.number ds.value, ds.position⟩]

/-- The digits with one more, found at `position`. -/
def Digits.push (digits : Option Digits) (position digit : Nat) : Digits :=
  match digits with
  | none => ⟨position, digit, 1⟩
  | some ds => { ds with value := ds.value * 10 + digit, count := ds.count + 1 }

/-- The tokens of the characters that start at `position`, after `digits`. -/
def scan (most : Option Nat) (position : Nat) (digits : Option Digits) :
    List Char → Except (Refusal most) (List Token)
  | [] => Digits.token? most digits
  | c :: rest =>
    match digit? c with
    | some digit => scan most (position + 1) (some (Digits.push digits position digit)) rest
    | none => do
      -- A number is read before the character behind it is looked at.
      let number ← Digits.token? most digits
      match Mark.ofChar? c with
      | some m => return number ++ ⟨.mark m, position⟩ :: (← scan most (position + 1) none rest)
      | none =>
        if isGap c then return number ++ (← scan most (position + 1) none rest)
        else throw (.character position)

/-- Cuts a text into tokens. Digits that stand together are one number. A host may refuse to read
numbers of more than so many digits; `none` is a host without a bound. -/
def tokenizeWithin (most : Option Nat) (source : String) : Except (Refusal most) Tokens := do
  return ⟨← scan most 0 none source.toList, source.length⟩

/-- Cuts a text into tokens on a host that reads numbers of any length. -/
def tokenize (source : String) : Except FormatError Tokens :=
  (tokenizeWithin none source).mapError Refusal.error

end DiceFormula
