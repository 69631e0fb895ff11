import DiceFormula.Number.Basic

namespace DiceFormula.Number

/-- The operation on the nearest doubles. An undefined operand is the result. -/
def onReals (f : Float → Float → Float) (x y : Number) : Except Fault Number := do
  let value := f (← x.toReal) (← y.toReal)
  match x, y with
  | undefined negative, _ | _, undefined negative => return undefined negative
  | _, _ => return ofReal value

/-- Integers stay exact. Any other pair is combined in the wider of its two kinds. -/
def lift (integers : Int → Int → Int) (reals : Float → Float → Float)
    (complexes : Complex → Complex → Complex) : Number → Number → Except Fault Number
  | integer v, integer w => .ok (integer (integers v w))
  | complex z, y => return complex (complexes z (← y.toComplex))
  | x, complex w => return complex (complexes (← x.toComplex) w)
  | x, y => onReals reals x y

def add : Number → Number → Except Fault Number := lift (· + ·) (· + ·) Complex.add

def sub : Number → Number → Except Fault Number := lift (· - ·) (· - ·) Complex.sub

def mul : Number → Number → Except Fault Number := lift (· * ·) (· * ·) Complex.mul

/-- Half of a number. Of an integer it is the nearest double. -/
def half : Number → Except Fault Number
  | integer v => (Double.nearest? v 2).elim (.error .overflow) fun x => .ok (real x)
  | complex z => return complex (← z.div ⟨2, 0⟩)
  | x => onReals (· / ·) x (integer 2)

/-- Division that keeps the fraction. By zero it is infinite with the sign of `x`, or undefined when
`x` is zero too. -/
def divReal (x y : Number) : Except Fault Number :=
  if y.isZero then
    match x with
    | undefined negative => .ok (real (if negative then -1 / 0 else 1 / 0))
    | x => do
      let u ← x.toReal
      return if u == 0 then undefined false else real (Double.infinityLike u)
  else
    match y with
    | complex w => return complex (← (← x.toComplex).div w)
    | y => onReals (· / ·) x y

/-- Floor division of numbers that are not negative. -/
def floorDiv : Number → Number → Except Fault Number
  | integer v, integer w => if w = 0 then .error .divisionByZero else .ok (integer (v / w))
  | x, y => do
    let quotient ← onReals Double.floorDiv x y
    if y.isZero then throw .divisionByZero
    return quotient

/-- The remainder of floor division. -/
def floorMod : Number → Number → Except Fault Number
  | integer v, integer w => if w = 0 then .error .divisionByZero else .ok (integer (v.fmod w))
  | x, y => do
    let rest ← onReals Double.floorMod x y
    if y.isZero then throw .divisionByZero
    return rest

/-- Division that drops the fraction: that of the absolute values, negated when the signs differ. -/
def truncDiv (x y : Number) : Except Fault Number := do
  let quotient ← floorDiv (← x.abs) (← y.abs)
  let negative ← x.isNegative
  return if negative != (← y.isNegative) then quotient.neg else quotient

/-- Whole powers of integers. The exponent is unbounded for the bases that do not grow. -/
def powNat (x : Int) (n : Nat) : Int :=
  if n = 0 then 1
  else if x.natAbs ≤ 1 then (if n % 2 = 0 then x * x else x)
  else x.pow n

/-- Powers that are too large are refused. -/
def powComplex (z w : Complex) : Except Fault Complex := do
  let small := w.im == 0 && w.re == w.re.floor && w.re.abs ≤ 100
  let power ← if small then z.powInt ((Double.floorInt? w.re).getD 0) else z.powPolar w
  if power.isInf then throw .overflow
  return power

/-- The power of a base above zero. A result too large for its finite operands is refused. -/
def powPositive (x y : Float) : Except Fault Float :=
  if x == 1 then .ok 1
  else
    let power := x.pow y
    if power.isInf then .error .overflow else .ok power

/-- Powers of doubles other than zeroth ones. Of a negative base a fractional power is complex. -/
def powDoubles (x y : Float) : Except Fault Number :=
  if y.isInf then
    if x.abs == 1 then .ok (real 1)
    else .ok (real (if (y > 0) == (x.abs > 1) then y.abs else 0))
  else if x.isInf then
    let power := if Double.isOdd y then x else x.abs
    .ok (real (if y > 0 then power else Double.zeroLike power))
  else if x == 0 then
    if y < 0 then .error .divisionByZero else .ok (real (if Double.isOdd y then x else 0))
  else if x > 0 then return real (← powPositive x y)
  else if y != y.floor then return complex (← powComplex ⟨x, 0⟩ ⟨y, 0⟩)
  else do
    let power ← powPositive (-x) y
    return real (if Double.isOdd y then -power else power)

/-- The power of the nearest doubles. The zeroth power of anything is one, and so is any power of
one. -/
def powReal (x y : Number) : Except Fault Number := do
  let u ← x.toReal
  let v ← y.toReal
  if v == 0 then return real 1
  match x, y with
  | undefined negative, _ => return undefined negative
  | _, undefined negative => return if u == 1 then real 1 else undefined negative
  | _, _ => powDoubles u v

/-- An integer to a negative power is a power of doubles. -/
def pow : Number → Number → Except Fault Number
  | complex z, y => return complex (← powComplex z (← y.toComplex))
  | x, complex w => return complex (← powComplex (← x.toComplex) w)
  | integer v, integer w =>
    if 0 ≤ w then .ok (integer (powNat v w.toNat)) else powReal (integer v) (integer w)
  | x, y => powReal x y

end DiceFormula.Number
