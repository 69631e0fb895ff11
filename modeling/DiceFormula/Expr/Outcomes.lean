import DiceFormula.Memo
import DiceFormula.Support.Combine
import DiceFormula.Support.Roll

namespace DiceFormula

/-- A result of arithmetic as a result of evaluation. -/
def Eval.ofNumber (result : Except Number.Fault α) : Eval α :=
  MonadExcept.ofExcept (result.mapError .number)

namespace Expr

/-- All values that the expression can take. -/
def outcomes (limit : Limit.Reading) : Expr → Eval Support
  | blank _ => throw (.missing .outcomes)
  | number _ value => return .single value
  | roll memo count faces =>
    memoize memo .outcomes (roll memo count faces).render do
      let faces ← faces.outcomes limit
      let top ← MonadExcept.ofExcept faces.greatest
      if top.isZero then return .single 0
      let counts ← count.outcomes limit
      MonadExcept.ofExcept (Support.ofRoll counts faces top)
  | binary memo op left right =>
    let key := (binary memo op left right).render
    let pairs : Eval Support := do
      let lefts ← left.outcomes limit
      let rights ← right.outcomes limit
      MonadExcept.ofExcept (op.enumerate limit key lefts rights)
    memoize memo .outcomes key <|
      match op with
      | .add | .sub => do
        let lefts ← left.outcomes limit
        let rights ← right.outcomes limit
        match ← MonadExcept.ofExcept (op.quick lefts rights) with
        | some results => return results
        -- The operands are asked again.
        | none => pairs
      | .mul | .div | .pow | .unspecified => pairs

/-- Whether a negative number is an outcome. Operators ask their operands first, and look at the
outcomes only when the operands leave it open. -/
def mayBeNegative (limit : Limit.Reading) : Expr → Eval Bool
  | blank _ => throw (.missing .negativeCheck)
  | number _ value => return value < 0
  | roll _ _ _ => return false
  | binary memo op left right =>
    let e := binary memo op left right
    memoize memo .negative e.render do
      let possible ←
        match op with
        | .add | .mul | .div => do
          if ← left.mayBeNegative limit then pure true else right.mayBeNegative limit
        | .pow => left.mayBeNegative limit
        | .sub | .unspecified => pure true
      if possible then
        let least ← MonadExcept.ofExcept (← e.outcomes limit).least
        Eval.ofNumber least.isNegative
      else return false

/-- Whether both operands have positive outcomes only. -/
def bothPositive (limit : Limit.Reading) (left right : Expr) : Eval Bool := do
  let least ← MonadExcept.ofExcept (← left.outcomes limit).least
  if ← Eval.ofNumber least.isPositive then
    let least ← MonadExcept.ofExcept (← right.outcomes limit).least
    Eval.ofNumber least.isPositive
  else return false

/-- Whether zero is an outcome. Operators ask their operands first, and look at the outcomes only
when the operands leave it open. A quotient is zero when the divisor is the larger. -/
def mayBeZero (limit : Limit.Reading) : Expr → Eval Bool
  | blank _ => throw (.missing .zeroCheck)
  | number _ value => return value == 0
  | roll _ count faces => do
    if ← count.mayBeZero limit then return true else faces.mayBeZero limit
  | binary memo op left right =>
    let e := binary memo op left right
    memoize memo .zero e.render do
      match op with
      | .div =>
        let least ← MonadExcept.ofExcept (← left.outcomes limit).leastAbs
        let greatest ← MonadExcept.ofExcept (← right.outcomes limit).greatestAbs
        Eval.ofNumber (least.less greatest)
      | op =>
        let possible ←
          match op with
          | .add => do pure !(← bothPositive limit left right)
          | .mul | .pow => do
            if ← left.mayBeZero limit then pure true else right.mayBeZero limit
          | _ => pure true
        if possible then return (← e.outcomes limit).hasZero else return false

end Expr

end DiceFormula
