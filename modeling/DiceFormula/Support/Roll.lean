import DiceFormula.Outcomes.Totals
import DiceFormula.Support

namespace DiceFormula

/-- Two bounds of which any may lie off the integers. -/
structure Span where
  low : Number
  high : Number

namespace Span

/-- Puts a span on a stack of spans, of which none starts higher. It joins the last one when it
starts at most one behind its end. -/
def pushOn (spans : List Span) (span : Span) : Except Fault (List Span) :=
  match spans with
  | [] => .ok [span]
  | last :: done => do
    let next ← (last.high.add (.integer 1)).mapError .number
    if ← (next.less span.low).mapError .number then return span :: last :: done
    let further ← (last.high.less span.high).mapError .number
    return ⟨last.low, if further then span.high else last.high⟩ :: done

/-- The integers from the low bound to the high one, which both must be integers. -/
def run? (span : Span) : Except Fault (Option Run) :=
  match span with
  | ⟨.integer lo, .integer hi⟩ => .ok (Run.between? lo hi)
  | _ => .error (.number .unsupported)

end Span

namespace Support

/-- Numbers in ascending order. One alone need not have an order. -/
def ascending (values : List Number) : Except Fault (List Number) :=
  if values.length ≤ 1 || values.all Number.isOrdered then
    .ok (values.mergeSort fun x y => !(y.less x).toOption.getD false)
  else .error (.number .unsupported)

/-- The totals of rolls whose counts need not be integers, as long as the joined spans of all counts
are. -/
def totals (lowest top : Number) (counts : List Number) : Except Fault Support := do
  let spans ← (← ascending counts).foldlM (fun spans c => do
    let low ← (c.mul lowest).mapError .number
    let high ← (c.mul top).mapError .number
    Span.pushOn spans ⟨low, high⟩) []
  let runs ← spans.reverse.mapM Span.run?
  return integers (.ofRuns (runs.filterMap id))

/-- The totals of a roll. Each die has a number of faces of its own, of which `top` is the greatest.
It shows one of its faces, counted from one, or zero when it has none. -/
def ofRoll (counts faces : Support) (top : Number) : Except Fault Support :=
  match counts, faces, top with
  | integers counts, integers faces, .integer top => .ok (integers (.ofRoll counts faces top))
  | counts, faces, top =>
    totals (.integer (if faces.hasZero then 0 else 1)) top counts.members

end Support

end DiceFormula
