import DiceFormula.Fault
import DiceFormula.Number
import DiceFormula.Outcomes
import Std.Data.HashSet

namespace DiceFormula

/-- The values that an expression can take. They are integers, unless an exponent could be
negative. -/
inductive Support
  | integers (values : Outcomes)
  | mixed (values : List Number)

namespace Support

def single (v : Int) : Support := integers (.single v)

/-- Keeps the first of any numbers that are equal. -/
def distinct (values : List Number) : List Number :=
  let keep (kept : List Number) (seen : Std.HashSet Number.Key) (x : Number) :=
    match x.key? with
    | none => (x :: kept, seen)
    | some key => if seen.contains key then (kept, seen) else (x :: kept, seen.insert key)
  (values.foldl (fun state x => keep state.1 state.2 x) ([], {})).1.reverse

/-- The set of the values of a list. -/
def ofNumbers (values : List Number) : Support :=
  let values := distinct values
  (values.mapM Number.integer?).elim (mixed values) fun values => integers (.ofList values)

/-- The members, each once. Of integers the negative ones come last. -/
def members : Support → List Number
  | integers o =>
    let (negative, others) := o.toList.partition (· < 0)
    (others ++ negative).map .integer
  | mixed values => values

def size : Support → Nat
  | integers o => o.size
  | mixed values => values.length

def hasZero : Support → Bool
  | integers o => 0 ∈ o
  | mixed values => values.any Number.isZero

/-- A bound of a set of integers, which only an empty set lacks. -/
def bound (value : Option Int) : Except Fault Number :=
  value.elim (.error .noOutcome) fun v => .ok (.integer v)

/-- The number that comes before all others. One alone need not have an order. -/
def first (before : Number → Number → Except Number.Fault Bool) : List Number → Except Fault Number
  | [] => .error .noOutcome
  | x :: rest => (rest.foldlM (fun x y => return if ← before y x then y else x) x).mapError .number

def least : Support → Except Fault Number
  | integers o => bound o.min?
  | mixed values => first (fun x y => x.less y) values

def greatest : Support → Except Fault Number
  | integers o => bound o.max?
  | mixed values => first (fun x y => y.less x) values

/-- The least absolute value of a member. -/
def leastAbs : Support → Except Fault Number
  | integers o => bound (o.minAbs?.map Int.ofNat)
  | mixed values => do (mixed (← (values.mapM Number.abs).mapError .number)).least

/-- The greatest absolute value of a member. -/
def greatestAbs : Support → Except Fault Number
  | integers o => bound (o.maxAbs?.map Int.ofNat)
  | mixed values => do (mixed (← (values.mapM Number.abs).mapError .number)).greatest

end Support

end DiceFormula
