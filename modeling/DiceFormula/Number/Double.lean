namespace DiceFormula.Double

/-- The significand bits below the leading one. -/
def fractionBits : Nat := 52

/-- The least positive double is one part in `unit`. -/
def unit : Nat := 1 <<< 1074

/-- The bits of positive infinity, above those of every finite absolute value. -/
def infinityBits : Nat := 2047 <<< fractionBits

def isFinite (x : Float) : Bool := !x.isNaN && !x.isInf

def isNegative (x : Float) : Bool := x < 0 || (x == 0 && x.toBits ≥ 0x8000000000000000)

def nan : Float := 0 / 0

/-- Infinity with the sign of `x`. -/
def infinityLike (x : Float) : Float := if isNegative x then -1 / 0 else 1 / 0

/-- Zero with the sign of `x`. -/
def zeroLike (x : Float) : Float := if isNegative x then -0.0 else 0.0

/-- The absolute value of a finite double, in units of the least positive one. -/
def units (x : Float) : Nat :=
  let bits := x.toBits.toNat % (1 <<< 63)
  let exponent := bits >>> fractionBits
  let fraction := bits % (1 <<< fractionBits)
  if exponent = 0 then fraction else (1 <<< fractionBits + fraction) <<< (exponent - 1)

/-- A quotient as a whole number of steps, where a half goes to the even neighbour. -/
def roundDiv (num den : Nat) : Nat :=
  let q := num / den
  let r := num % den
  if den < 2 * r || (den = 2 * r && q % 2 = 1) then q + 1 else q

/-- The exponent of the last significand bit of `num / den`, where both are positive. -/
def stepExponent (num den : Nat) : Int :=
  let low := (num.log2 : Int) - den.log2 - (fractionBits + 1)
  let wide := num <<< (-low).toNat / den <<< low.toNat ≥ 1 <<< (fractionBits + 1)
  max (if wide then low + 1 else low) (-1074)

/-- The bits of the double nearest to `num / den`, unless it lies beyond the largest one. -/
def nearestBits? (num den : Nat) : Option Nat :=
  if num = 0 then some 0
  else
    let e := stepExponent num den
    let steps := roundDiv (num <<< (-e).toNat) (den <<< e.toNat)
    let bits := (e + 1074).toNat <<< fractionBits + steps
    if bits < infinityBits then some bits else none

/-- The double nearest to `num / den`. -/
def nearest? (num : Int) (den : Nat) : Option Float :=
  (nearestBits? num.natAbs den).map fun bits =>
    let magnitude := Float.ofBits (UInt64.ofNat bits)
    if num < 0 then -magnitude else magnitude

/-- The remainder of truncated division of finite doubles that are not negative. -/
def remainder (x y : Float) : Float :=
  (nearest? (units x % units y : Nat) unit).getD nan

/-- Floor division of doubles that are not negative, by a positive one. The quotient of what the
remainder leaves is rounded to the nearest whole number. -/
def floorDiv (x y : Float) : Float :=
  let rest := if x.isNaN || x.isInf || y.isNaN then nan else if y.isInf then x else remainder x y
  let quotient := (x - rest) / y
  if quotient == 0 then zeroLike (x / y)
  else
    let whole := quotient.floor
    if quotient - whole > 0.5 then whole + 1 else whole

/-- A whole number that is odd. -/
def isOdd (x : Float) : Bool :=
  isFinite x && units x % unit == 0 && units x / unit % 2 == 1

/-- A finite double in units of the least positive one. -/
def signedUnits (x : Float) : Int := if isNegative x then -(units x : Int) else units x

/-- The whole number at or below a finite double. -/
def floorInt? (x : Float) : Option Int :=
  if isFinite x then some (signedUnits x / (unit : Int)) else none

/-- The integer that a double is. -/
def toInt? (x : Float) : Option Int :=
  if isFinite x && units x % unit == 0 then floorInt? x else none

/-- The remainder of floor division by a double that is not zero, which has the sign of the
divisor. -/
def floorMod (x y : Float) : Float :=
  let rest :=
    if x.isInf then nan else if y.isInf then x else if isNegative x then -remainder x.abs y.abs
    else remainder x y.abs
  if rest == 0 then zeroLike y else if (y < 0) != (rest < 0) then rest + y else rest

end DiceFormula.Double
