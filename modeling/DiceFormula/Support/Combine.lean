import DiceFormula.Outcomes.Totals
import DiceFormula.Support

namespace DiceFormula

namespace Support

/-- Whether there are as many members as integers between the bounds. -/
def isDense (s : Support) : Except Fault Bool := do
  let width ← ((← s.greatest).sub (← s.least)).mapError .number
  let count ← (width.add (.integer 1)).mapError .number
  return count.key? == some (.whole s.size)

/-- The integers between two bounds, which must be integers. -/
def between (low high : Number) : Except Fault Support :=
  match low, high with
  | .integer lo, .integer hi => .ok (integers ((Run.between? lo hi).elim .empty .ofRun))
  | _, _ => .error (.number .unsupported)

end Support

namespace Op

/-- The result set of two dense sets, for the operators that make a run of two runs. -/
def shortcutMixed (op : Op) (left right : Support) : Except Fault (Option Support) := do
  if op.onRuns?.isNone then return none
  unless ← left.isDense do return none
  unless ← right.isDense do return none
  let (lower, upper) ← if op = sub then pure (← right.greatest, ← right.least)
    else pure (← right.least, ← right.greatest)
  let low ← op.apply (← left.least) lower
  let high ← op.apply (← left.greatest) upper
  return some (← Support.between low high)

/-- The results of all pairs of operands, the first operand in the outer loop. -/
def pairs (op : Op) (left right : Support) : Except Fault Support := do
  let rights := right.members
  let results ← left.members.mapM fun x => rights.mapM (op.apply x)
  return .ofNumbers results.flatten

/-- The results of all pairs of operands. They are integers when the operands are, and none of the
second operands leads out of the integers. -/
def results (op : Op) (left right : Support) : Except Fault Support :=
  match left, right with
  | .integers l, .integers r =>
    if r.toList.all op.isWholeAt then .ok (.integers (op.image l r)) else op.pairs left right
  | left, right => op.pairs left right

/-- The results of all pairs of operands, when the limit allows so many. -/
def enumerate (limit : Limit.Reading) (key : String) (op : Op) (left right : Support) :
    Except Fault Support :=
  let loops := left.size * right.size
  match limit with
  | .error fault => .error (.limit fault)
  | .ok bound =>
    match bound.filter (· < loops) with
    | some bound => .error (.tooComplex key loops bound)
    | none => op.results left right

/-- The results of an operator that makes a run of two runs, when the operands have no gap. -/
def quick (op : Op) (left right : Support) : Except Fault (Option Support) :=
  match left, right with
  | .integers l, .integers r => (·.map .integers) <$> op.shortcut l r
  | left, right => op.shortcutMixed left right

end Op

end DiceFormula
