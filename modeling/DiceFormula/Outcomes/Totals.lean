import DiceFormula.Op
import DiceFormula.Outcomes

namespace DiceFormula

namespace Run

/-- The run up to a further end. -/
def extend (r : Run) (hi : Int) : Run := ⟨r.lo, max r.hi hi, by have := r.le; omega⟩

/-- Puts a run on a stack of separate runs, of which none starts higher. It joins the last one when
no integer is missing between them. -/
def pushOn (runs : List Run) (r : Run) : List Run :=
  match runs with
  | [] => [r]
  | last :: done => if r.lo ≤ last.hi + 1 then last.extend r.hi :: done else r :: last :: done

/-- The sums of the members of two runs. -/
def add (r s : Run) : Run := ⟨r.lo + s.lo, r.hi + s.hi, by have := r.le; have := s.le; omega⟩

/-- The differences of the members of two runs. -/
def sub (r s : Run) : Run := ⟨r.lo - s.hi, r.hi - s.lo, by have := r.le; have := s.le; omega⟩

end Run

namespace Outcomes

/-- The totals of `c` dice that show `lowest` to `top` each, for every `c` of an ascending list. The
last run stands first. -/
def totals (lowest top : Int) (counts : List Int) : List Run :=
  (counts.filterMap fun c => Run.between? (c * lowest) (c * top)).foldl Run.pushOn []

/-- The totals of a roll. Each die has a number of faces of its own, of which `top` is the greatest.
It shows one of its faces, counted from one, or zero when it has none. -/
def ofRoll (counts faces : Outcomes) (top : Int) : Outcomes :=
  ofRuns (totals (if 0 ∈ faces then 0 else 1) top counts.toList).reverse

end Outcomes

namespace Op

/-- The operators that make a run of two runs. -/
def onRuns? : Op → Option (Run → Run → Run)
  | add => some Run.add
  | sub => some Run.sub
  | mul | div | pow | unspecified => none

/-- The result set of two runs, for the operators that make a run of them. -/
def shortcut (op : Op) (left right : Outcomes) : Except Fault (Option Outcomes) :=
  match op.onRuns?, left.runs, right.runs with
  | none, _, _ => .ok none
  | some _, [], _ => .error .noOutcome
  | some _, [_], [] => .error .noOutcome
  | some f, [r], [s] => .ok (some (.ofRun (f r s)))
  | some _, _, _ => .ok none

/-- The results of all pairs of operands, where each has one. -/
def image (op : Op) (left right : Outcomes) : Outcomes :=
  .ofList (left.toList.flatMap fun x => right.toList.map (op.value x))

end Op

end DiceFormula
