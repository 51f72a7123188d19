import FeatureGuard.Decimal.Binary64

/-!
The shortest decimal text of a binary number: of all decimals that are rounded to the number, those
with the fewest digits, and of these the nearest. It is written without an exponent.
-/

namespace FeatureGuard.Binary64

/-- An integer times a power of ten. -/
structure Decimal where
  integer : Nat
  power : Int
  deriving DecidableEq, Repr

/-- A positive fraction, with the bounds of the fractions that are rounded to it, all over one
denominator. -/
structure Interval where
  low : Nat
  value : Nat
  high : Nat
  den : Nat
  /-- whether the bounds themselves are rounded to the value -/
  closed : Bool

namespace Interval

/-- Half the gap to the next number on either side; below a power of two the gap is half as wide. -/
def around (mantissa : Nat) (exponent : Int) : Interval :=
  let below := if mantissa = leastFull ∧ leastExponent < exponent then 1 else 2
  let (unit, den) := ratio 1 (exponent - 2)
  { low := (4 * mantissa - below) * unit
    value := 4 * mantissa * unit
    high := (4 * mantissa + 2) * unit
    den
    closed := mantissa % 2 = 0 }

/-- A decimal over the denominator of an interval, and the factor that both are to be multiplied
with. -/
def onScale (i : Interval) (d : Decimal) : Nat × Nat :=
  if d.power < 0 then (d.integer * i.den, Nat.pow 10 (-d.power).toNat)
  else (d.integer * i.den * Nat.pow 10 d.power.toNat, 1)

/-- Whether a decimal is rounded to the value of an interval. -/
def holds (i : Interval) (d : Decimal) : Bool :=
  let (x, factor) := i.onScale d
  if i.closed then i.low * factor ≤ x && x ≤ i.high * factor
  else i.low * factor < x && x < i.high * factor

/-- The least power of ten above the value, sought from a first guess on. -/
def climb (i : Interval) : Nat → Int → Int
  | 0, power => power
  | fuel + 1, power =>
    let (x, factor) := i.onScale ⟨1, power⟩
    if i.value * factor < x then power else climb i fuel (power + 1)

/-- The least power of ten above the value. The guess comes from the lengths in bits and is at most
a few powers too low. -/
def magnitude (i : Interval) : Int :=
  let bits : Int := (i.value.log2 : Int) - i.den.log2
  i.climb 8 (bits * 30103 / 100000 - 1)

/-- The decimals with a power of ten that are the neighbours of the value. -/
def neighbours (i : Interval) (power : Int) : Decimal × Decimal :=
  let floor := if power < 0 then i.value * Nat.pow 10 (-power).toNat / i.den
    else i.value / (i.den * Nat.pow 10 power.toNat)
  (⟨floor, power⟩, ⟨floor + 1, power⟩)

/-- The neighbour with a power of ten that is rounded to the value; of two the nearer one, and the
greater where both are equally near. -/
def hit? (i : Interval) (power : Int) : Option Decimal :=
  let (below, above) := i.neighbours power
  match i.holds below, i.holds above with
  | false, false => none
  | true, false => some below
  | false, true => some above
  | true, true =>
    let (x, factor) := i.onScale ⟨2 * below.integer + 1, power⟩
    some (if 2 * i.value * factor < x then below else above)

/-- The shortest decimal that is rounded to the value. Seventeen digits are always enough. -/
def shortest (i : Interval) : Decimal :=
  let magnitude := i.magnitude
  ((List.range 17).findSome? fun (k : Nat) => i.hit? (magnitude - (k + 1))).getD ⟨0, 0⟩

end Interval

/-- The digits of a decimal, with a point and zeros where they are needed. -/
def Decimal.text (d : Decimal) : Text :=
  let digits := Text.dropEndWhile (· = '0') (Text.ofNat d.integer)
  let power := d.power + ((Text.ofNat d.integer).length - digits.length : Nat)
  if 0 ≤ power then digits ++ List.replicate power.toNat '0'
  else
    let places := (-power).toNat
    if places < digits.length then
      digits.take (digits.length - places) ++ "." ++ digits.drop (digits.length - places)
    else "0." ++ List.replicate (places - digits.length) '0' ++ digits

/-- The shortest text of a number. -/
def text : Binary64 → Text
  | finite negative m e =>
    (if negative then ("-" : Text) else []) ++
      if m = 0 then ("0" : Text) else (Interval.around m e).shortest.text
  | infinite negative => if negative then ("-inf" : Text) else "inf"
  | nan => "NaN"

end FeatureGuard.Binary64
