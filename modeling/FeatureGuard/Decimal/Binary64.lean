import FeatureGuard.Text.Numeral

/-!
Binary floating-point numbers of 64 bits, as exact values. A finite number is an integer below
`2 ^ 53` times a power of two from `2 ^ -1074` to `2 ^ 971`, and the integer is at least `2 ^ 52`
unless the power is the least. Other numbers are rounded to the nearest of these; where two are
equally near, to the one with the even integer.
-/

namespace FeatureGuard

inductive Binary64
  | finite (negative : Bool) (mantissa : Nat) (exponent : Int)
  | infinite (negative : Bool)
  | nan
  deriving DecidableEq, Repr

namespace Binary64

/-- The least exponent and the greatest. -/
def leastExponent : Int := -1074

def greatestExponent : Int := 971

/-- The least integer of a number whose exponent is not the least: `2 ^ 52`. Twice as much is too
large for any number. -/
def leastFull : Nat := 0x10000000000000

def zero (negative : Bool) : Binary64 := finite negative 0 leastExponent

/-- The integer nearest to a fraction; of two, the even one. -/
def roundToEven (num den : Nat) : Nat :=
  let floor := num / den
  let twice := 2 * (num % den)
  if twice < den ∨ twice = den ∧ floor % 2 = 0 then floor else floor + 1

/-- A fraction divided by a power of two. -/
def scaled (num den : Nat) (exponent : Int) : Nat × Nat :=
  if exponent < 0 then (num * Nat.pow 2 (-exponent).toNat, den)
  else (num, den * Nat.pow 2 exponent.toNat)

/-- The exponent that leaves a fraction between `2 ^ 52` and `2 ^ 53`, or the least one. -/
def exponentOf (num den : Nat) : Int :=
  let guess : Int := (num.log2 : Int) - den.log2 - 53
  let (n, d) := scaled num den guess
  max leastExponent (if n / d < 2 * leastFull then guess else guess + 1)

/-- Rounds a fraction. -/
def ofRatio (negative : Bool) (num den : Nat) : Binary64 :=
  if num = 0 then zero negative
  else
    let exponent := exponentOf num den
    let (n, d) := scaled num den exponent
    let mantissa := roundToEven n d
    let (mantissa, exponent) :=
      if mantissa = 2 * leastFull then (leastFull, exponent + 1) else (mantissa, exponent)
    if greatestExponent < exponent then infinite negative else finite negative mantissa exponent

/-- Rounds an integer times a power of ten. Powers far outside the range are not computed. -/
def ofDecimal (negative : Bool) (integer : Nat) (power : Int) : Binary64 :=
  let magnitude : Int := (Nat.toDigits 10 integer).length + power
  if integer = 0 ∨ magnitude < -400 then zero negative
  else if 400 < magnitude then infinite negative
  else if power < 0 then ofRatio negative integer (Nat.pow 10 (-power).toNat)
  else ofRatio negative (integer * Nat.pow 10 power.toNat) 1

/-- A mantissa times a power of two as a fraction. -/
def ratio (mantissa : Nat) (exponent : Int) : Nat × Nat :=
  if exponent < 0 then (mantissa, Nat.pow 2 (-exponent).toNat)
  else (mantissa * Nat.pow 2 exponent.toNat, 1)

/-- The product of two numbers, of which the second is finite and positive. -/
def times : Binary64 → Binary64 → Binary64
  | finite negative m e, finite _ m' e' =>
    let (num, den) := ratio (m * m') (e + e')
    ofRatio negative num den
  | a, _ => a

/-- The quotient of two numbers, of which the second is finite and positive. -/
def dividedBy : Binary64 → Binary64 → Binary64
  | finite negative m e, finite _ m' e' =>
    let (num, den) := ratio m e
    let (num', den') := ratio m' e'
    ofRatio negative (num * den') (den * num')
  | a, _ => a

/-- The nearest integer that a word of 64 bits can hold; halves are rounded up. -/
def toWord64 : Binary64 → Nat
  | finite false m e =>
    let (num, den) := ratio m e
    min ((2 * num + den) / (2 * den)) (Text.wordCount - 1)
  | infinite false => Text.wordCount - 1
  | _ => 0

end Binary64

end FeatureGuard
