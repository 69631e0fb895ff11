import DiceFormula.Cursor
import DiceFormula.Expr.Bounds
import DiceFormula.Expr.Sample

namespace DiceFormula

/-- A question about an expression. Samples without a script are for expressions of which every draw
has one result. -/
inductive Query
  | render
  | label
  | describe
  | low
  | high
  | median
  | outcomes
  | mayBeZero
  | mayBeNegative
  | sample (script : Option Script) (times : Nat)

inductive Answer
  | text (text : String)
  | number (value : Number)
  | outcomes (values : Support)
  | truth (value : Bool)
  | samples (values : List Number) (calls : Option (List (Int × Number)))

/-- Samples with the bounds of their draws. -/
structure Rolled where
  values : List Number
  calls : List (Int × Number)

/-- The samples of a script, with the bounds of their draws in order. -/
def Expr.rolls (script : Script) (e : Expr) (times : Nat) : Except Fault Rolled :=
  match (e.samples script.roller.logged times).run (script.start, []) with
  | .ok values (_, calls) => .ok ⟨values, calls.reverse⟩
  | .error fault _ => .error fault

def Expr.ask (limit : Limit.Reading) (e : Expr) : Query → Eval Answer
  | .render => return .text e.render
  | .label => return .text e.label
  | .describe => return .text e.describe
  | .low => return .number (← e.low limit)
  | .high => return .number (← e.high limit)
  | .median => return .number (← e.median limit)
  | .outcomes => return .outcomes (← e.outcomes limit)
  | .mayBeZero => return .truth (← e.mayBeZero limit)
  | .mayBeNegative => return .truth (← e.mayBeNegative limit)
  | .sample script times => do
    let rolled ← MonadExcept.ofExcept (e.rolls (script.getD .forced) times)
    return .samples rolled.values (script.map fun _ => rolled.calls)

end DiceFormula
