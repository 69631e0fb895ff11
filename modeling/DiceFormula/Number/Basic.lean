import DiceFormula.Number.Complex
import DiceFormula.Number.Double

namespace DiceFormula

/-- An integer, or a double or complex number where an operation leaves the integers. An undefined
result keeps no value but its sign. -/
inductive Number
  | integer (value : Int)
  | real (value : Float)
  | undefined (negative : Bool)
  | complex (value : Complex)

namespace Number

/-- The result of an operation on doubles that have a value. -/
def ofReal (x : Float) : Number := if x.isNaN then undefined true else real x

/-- The integer that a number is, if its kind is that of the integers. -/
def integer? : Number → Option Int
  | integer v => some v
  | real _ | undefined _ | complex _ => none

/-- The nearest double. -/
def toReal : Number → Except Fault Float
  | integer v => (Double.nearest? v 1).elim (.error .overflow) .ok
  | real x => .ok x
  | undefined _ => .ok Double.nan
  | complex _ => .error .unsupported

/-- The same number, where an integer becomes the nearest double. -/
def widen : Number → Except Fault Number
  | integer v => return real (← (integer v).toReal)
  | real x => .ok (real x)
  | undefined negative => .ok (undefined negative)
  | complex _ => .error .unsupported

def toComplex : Number → Except Fault Complex
  | complex z => .ok z
  | x => return ⟨← x.toReal, 0⟩

def isZero : Number → Bool
  | integer v => v == 0
  | real x => x == 0
  | undefined _ => false
  | complex z => z.isZero

def neg : Number → Number
  | integer v => integer (-v)
  | real x => real (-x)
  | undefined negative => undefined !negative
  | complex z => complex ⟨-z.re, -z.im⟩

/-- The absolute value. -/
def abs : Number → Except Fault Number
  | integer v => .ok (integer v.natAbs)
  | real x => .ok (real x.abs)
  | undefined _ => .ok (undefined false)
  | complex z =>
    let size := z.abs
    if size.isNaN then .ok (undefined false)
    else if size.isInf && !z.isInf then .error .overflow
    else .ok (real size)

/-- Whether a number is of a kind that has an order. -/
def isOrdered : Number → Bool
  | integer _ | real _ | undefined _ => true
  | complex _ => false

/-- The order of the numbers that have one. Nothing is less than an undefined number, nor greater.
Integers and doubles are compared exactly. -/
def less : Number → Number → Except Fault Bool
  | complex _, _ | _, complex _ => .error .unsupported
  | undefined _, _ | _, undefined _ => .ok false
  | integer v, integer w => .ok (v < w)
  | integer v, real y => .ok (if y.isInf then y > 0 else v * Double.unit < Double.signedUnits y)
  | real x, integer w => .ok (if x.isInf then x < 0 else Double.signedUnits x < w * Double.unit)
  | real x, real y => .ok (x < y)

def isNegative (x : Number) : Except Fault Bool := x.less (integer 0)

def isPositive (x : Number) : Except Fault Bool := (integer 0).less x

/-- What equal numbers of all kinds have in common: the integer, or else the point of the plane. -/
inductive Key
  | whole (value : Int)
  | point (re im : UInt64)
  deriving BEq, Hashable

/-- An undefined number equals none. -/
def key? : Number → Option Key
  | integer v => some (.whole v)
  | real x => some (ofPoint x 0)
  | undefined _ => none
  | complex z => if z.re.isNaN || z.im.isNaN then none else some (ofPoint z.re z.im)
where
  bits (x : Float) : UInt64 := if x == 0 then 0 else x.toBits
  ofPoint (re im : Float) : Key :=
    match if im == 0 then Double.toInt? re else none with
    | some v => .whole v
    | none => .point (bits re) (bits im)

end Number

end DiceFormula
