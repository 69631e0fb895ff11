import DiceFormula.Expr.Outcomes

namespace DiceFormula

namespace Expr

/-- The operator on the lower bounds of the operands, or the least outcome when the lower bound of a
divisor is zero. It need not be the least outcome elsewhere. -/
def low (limit : Limit.Reading) : Expr → Eval Number
  | blank _ => throw (.missing .minimum)
  | number _ value => return .integer value
  | roll _ count _ => count.low limit
  | binary memo .div left right => do
    if (← right.low limit).isZero then
      return ← MonadExcept.ofExcept (← (binary memo .div left right).outcomes limit).least
    let x ← left.low limit
    MonadExcept.ofExcept (Op.div.apply x (← right.low limit))
  | binary _ op left right => do
    let x ← left.low limit
    MonadExcept.ofExcept (op.apply x (← right.low limit))

/-- The operator on the upper bounds of the operands, or the greatest outcome when the upper bound
of a divisor is zero. It need not be the greatest outcome elsewhere. -/
def high (limit : Limit.Reading) : Expr → Eval Number
  | blank _ => throw (.missing .maximum)
  | number _ value => return .integer value
  | roll _ count faces => do
    let most ← count.high limit
    Eval.ofNumber (most.mul (← faces.high limit))
  | binary memo .div left right => do
    if (← right.high limit).isZero then
      return ← MonadExcept.ofExcept (← (binary memo .div left right).outcomes limit).greatest
    let x ← left.high limit
    MonadExcept.ofExcept (Op.div.apply x (← right.high limit))
  | binary _ op left right => do
    let x ← left.high limit
    MonadExcept.ofExcept (op.apply x (← right.high limit))

/-- The middle of the bounds of a roll, and the operator on the medians of its operands. -/
def median (limit : Limit.Reading) : Expr → Eval Number
  | blank _ => throw (.missing .median)
  | number _ value => return .integer value
  | roll memo count faces => do
    let low ← (roll memo count faces).low limit
    let span ← Eval.ofNumber (low.add (← (roll memo count faces).high limit))
    Eval.ofNumber span.half
  | binary _ op left right => do
    let x ← Eval.ofNumber (← left.median limit).widen
    MonadExcept.ofExcept (op.applyReal x (← right.median limit))

end Expr

end DiceFormula
