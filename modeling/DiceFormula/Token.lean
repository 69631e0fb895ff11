namespace DiceFormula

/-- The marks of a formula, the die mark `d` among them. -/
inductive Mark
  | plus | minus | star | slash | caret | lparen | rparen | die
  deriving DecidableEq

namespace Mark

def symbol : Mark → Char
  | plus => '+'
  | minus => '-'
  | star => '*'
  | slash => '/'
  | caret => '^'
  | lparen => '('
  | rparen => ')'
  | die => 'd'

def all : List Mark := [plus, minus, star, slash, caret, lparen, rparen, die]

def ofChar? (c : Char) : Option Mark :=
  all.find? fun m => m.symbol = c

end Mark

/-- What a token says: a number, a mark, or the end of the formula. -/
inductive Lexeme
  | number (value : Nat)
  | mark (m : Mark)
  | stop
  deriving DecidableEq

/-- A lexeme without the value of its number. -/
inductive Kind
  | number
  | mark (m : Mark)
  | stop
  deriving DecidableEq

def Lexeme.kind : Lexeme → Kind
  | number _ => .number
  | mark m => .mark m
  | stop => .stop

def Kind.text : Kind → String
  | number => "INT"
  | mark m => m.symbol.toString
  | stop => "END"

/-- A lexeme with the place of its first character, counted in characters. -/
structure Token where
  lexeme : Lexeme
  position : Nat
  deriving DecidableEq

/-- The tokens of a formula in order, and the place of its end. -/
structure Tokens where
  items : List Token
  length : Nat

end DiceFormula
