import DiceFormula.Op

namespace DiceFormula

/-- The name of the memo in which an expression keeps what it has worked out. -/
abbrev MemoName := String

/-- A dice expression. Every part names its memo. A blank has no meaning and no text. -/
inductive Expr
  | blank (memo : MemoName)
  | number (memo : MemoName) (value : Int)
  | roll (memo : MemoName) (count faces : Expr)
  | binary (memo : MemoName) (op : Op) (left right : Expr)

namespace Expr

def memo : Expr → MemoName
  | blank memo | number memo _ | roll memo _ _ | binary memo _ _ _ => memo

/-- Writes the expression behind `before`, with parentheses around every roll and operation. -/
def renderAfter (before : String) : Expr → String
  | blank _ => before
  | number _ value => before ++ toString value
  | roll _ count faces => (faces.renderAfter (count.renderAfter (before ++ "(") ++ "d")) ++ ")"
  | binary _ op left right =>
    right.renderAfter (left.renderAfter (before ++ "(") ++ op.symbol) ++ ")"

/-- The text of the expression, which is also its key in a memo. -/
def render (e : Expr) : String := e.renderAfter ""

theorem renderAfter_eq (before : String) (e : Expr) :
    e.renderAfter before = before ++ e.render := by
  induction e generalizing before with
  | blank => simp [render, renderAfter]
  | number => simp [render, renderAfter]
  | roll _ count faces hcount hfaces =>
    simp only [render, renderAfter]
    rw [hfaces, hcount, hfaces (count.renderAfter _ ++ _), hcount ("" ++ _)]
    simp [String.append_assoc]
  | binary _ op left right hleft hright =>
    simp only [render, renderAfter]
    rw [hright, hleft, hright (left.renderAfter _ ++ _), hleft ("" ++ _)]
    simp [String.append_assoc]

/-- The name of the outermost part. -/
def name : Expr → String
  | blank _ => "Node"
  | number _ _ => "Integer"
  | roll _ _ _ => "DiceRoll"
  | binary _ op _ _ => op.name

/-- Writes the structure of the expression behind `before`, every part by name. -/
def describeAfter (before : String) (e : Expr) : String :=
  match e with
  | blank _ => before ++ e.name
  | number _ value => before ++ e.name ++ "(" ++ toString value ++ ")"
  | roll _ count faces =>
    faces.describeAfter (count.describeAfter (before ++ e.name ++ "(") ++ ",") ++ ")"
  | binary _ _ left right =>
    right.describeAfter (left.describeAfter (before ++ e.name ++ "(") ++ ",") ++ ")"

def describe (e : Expr) : String := e.describeAfter ""

/-- The name of the outermost part with the text of the whole. -/
def label (e : Expr) : String := "<" ++ e.name ++ " " ++ e.render ++ ">"

end Expr

end DiceFormula
