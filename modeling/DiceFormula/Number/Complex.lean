import DiceFormula.Number.Fault

namespace DiceFormula

/-- A complex number in doubles. -/
structure Complex where
  re : Float
  im : Float

namespace Complex

def one : Complex := ⟨1, 0⟩

def isZero (z : Complex) : Bool := z.re == 0 && z.im == 0

def isInf (z : Complex) : Bool := z.re.isInf || z.im.isInf

def add (z w : Complex) : Complex := ⟨z.re + w.re, z.im + w.im⟩

def sub (z w : Complex) : Complex := ⟨z.re - w.re, z.im - w.im⟩

def mul (z w : Complex) : Complex :=
  ⟨z.re * w.re - z.im * w.im, z.re * w.im + z.im * w.re⟩

/-- Division by the larger part of the divisor first, so that the squares of its parts are never
formed. -/
def div (z w : Complex) : Except Number.Fault Complex :=
  if w.isZero then .error .divisionByZero
  else if w.re.abs ≥ w.im.abs then
    let ratio := w.im / w.re
    let scale := w.re + w.im * ratio
    .ok ⟨(z.re + z.im * ratio) / scale, (z.im - z.re * ratio) / scale⟩
  else if w.im.abs ≥ w.re.abs then
    let ratio := w.re / w.im
    let scale := w.re * ratio + w.im
    .ok ⟨(z.re * ratio + z.im) / scale, (z.im * ratio - z.re) / scale⟩
  else .ok ⟨0 / 0, 0 / 0⟩

/-- The long side of a right triangle, from the longer and the shorter of the other two. The root of
the sum of the squares is corrected by what its own square is off. -/
def hypotenuse (long short : Float) : Float :=
  let root := (long * long + short * short).sqrt
  let excess :=
    if root ≤ 2 * short then
      let rest := root - short
      long * (2 * rest - long) + (rest - 2 * (long - short)) * rest
    else
      let rest := root - long
      2 * rest * (long - 2 * short) + ((4 * rest - short) * short + rest * rest)
  root - excess / (2 * root)

/-- The absolute value, infinite when it lies beyond the largest double. The parts are scaled where
their squares would overflow or underflow. -/
def abs (z : Complex) : Float :=
  if z.isInf then 1 / 0
  else
    let long := if z.re.abs ≥ z.im.abs then z.re.abs else z.im.abs
    let short := if z.re.abs ≥ z.im.abs then z.im.abs else z.re.abs
    if short ≤ long.scaleB (-54) then long + short
    else if long > Float.scaleB 1 511 then
      (hypotenuse (long.scaleB (-600)) (short.scaleB (-600))).scaleB 600
    else if short < Float.scaleB 1 (-459) then
      (hypotenuse (long.scaleB 600) (short.scaleB 600)).scaleB (-600)
    else hypotenuse long short

/-- Multiplies `power` by `z` to the `n`-th power, by repeated squaring from the low bits of `n`. -/
def mulPow (power z : Complex) (n : Nat) : Complex :=
  if n = 0 then power
  else mulPow (if n % 2 = 1 then power.mul z else power) (z.mul z) (n / 2)

/-- A whole power, where a negative exponent takes the reciprocal. -/
def powInt (z : Complex) (n : Int) : Except Number.Fault Complex :=
  if n > 0 then .ok (mulPow one z n.toNat) else one.div (mulPow one z n.natAbs)

/-- The power by absolute value and angle. An angle beyond all doubles has no direction, as zero has
none. -/
def powPolar (z w : Complex) : Except Number.Fault Complex :=
  if w.isZero then .ok one
  else if z.isZero then
    if w.im != 0 || w.re < 0 then .error .divisionByZero else .ok ⟨0, 0⟩
  else
    let size := z.abs
    let angle := Float.atan2 z.im z.re
    let length := size.pow w.re
    let phase := angle * w.re
    let length := if w.im == 0 then length else length / (angle * w.im).exp
    let phase := if w.im == 0 then phase else phase + w.im * size.log
    if phase.isInf then .error .divisionByZero
    else .ok ⟨length * phase.cos, length * phase.sin⟩

end Complex

end DiceFormula
