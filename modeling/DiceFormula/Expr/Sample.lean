import DiceFormula.Expr
import DiceFormula.Roller

namespace DiceFormula

/-- A die with a number of faces. Without faces it shows zero and nothing is drawn. -/
def Roller.single (roller : Roller σ) (faces : Number) : Sampling σ Number :=
  if faces.isZero then return .integer 0 else roller.draw 1 faces

/-- The sum of `n` dice, added to `sum`. -/
def Sampling.total (die : Sampling σ Number) (sum : Number) : Nat → Sampling σ Number
  | 0 => return sum
  | n + 1 => do
    let shown ← die
    total die (← MonadExcept.ofExcept (Op.add.apply sum shown)) n

namespace Expr

/-- One outcome. The count of a roll is sampled once, and its faces for every die again. -/
def sample (roller : Roller σ) : Expr → Sampling σ Number
  | blank _ => throw (.missing .sampling)
  | number _ value => return .integer value
  | roll _ count faces => do
    match ← count.sample roller with
    | .integer n =>
      Sampling.total (do roller.single (← faces.sample roller)) (.integer 0) n.toNat
    | _ => throw (.number .unsupported)
  | binary _ op left right => do
    let x ← left.sample roller
    MonadExcept.ofExcept (op.apply x (← right.sample roller))

/-- A number of outcomes from one source, in order. -/
def samples (roller : Roller σ) (e : Expr) (times : Nat) : Sampling σ (List Number) :=
  (List.range times).mapM fun _ => e.sample roller

end Expr

end DiceFormula
