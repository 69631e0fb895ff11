import DiceFormula.Expr.Outcomes

namespace DiceFormula.Expr

/-- A roll, whose count and faces must never be negative. -/
def mkRoll (limit : Limit.Reading) (memo : MemoName) (count faces : Expr) : Eval Expr := do
  if ← count.mayBeNegative limit then throw (.check .negativeCount)
  if ← faces.mayBeNegative limit then throw (.check .negativeFaces)
  return roll memo count faces

/-- An operation, whose divisor must never be zero and whose exponent must never be negative. -/
def mkBinary (limit : Limit.Reading) (memo : MemoName) (op : Op) (left right : Expr) :
    Eval Expr := do
  match op with
  | .div =>
    if ← left.mayBeZero limit then
      if ← right.mayBeZero limit then throw (.check .zeroOverZero)
    if ← right.mayBeZero limit then throw (.check .zeroDivisor)
  | .pow =>
    if ← right.mayBeNegative limit then throw (.check .negativeExponent)
  | .add | .sub | .mul | .unspecified => pure ()
  return binary memo op left right

end DiceFormula.Expr
