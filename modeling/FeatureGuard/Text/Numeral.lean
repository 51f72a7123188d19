import FeatureGuard.Text.Basic

/-!
Decimal numerals. Numbers are written without leading zeros, and read as an optional sign followed
by at least one ASCII digit; leading zeros are read, separators and blanks are not.
-/

namespace FeatureGuard.Text

/-- The decimal digits of a natural number, most significant first. -/
def ofNat (n : Nat) : Text := Nat.toDigits 10 n

/-- An integer, with a minus sign where it is negative. -/
def ofInt : Int → Text
  | .ofNat n => ofNat n
  | .negSucc n => '-' :: ofNat (n + 1)

/-- A natural number with at least `width` digits, filled up with zeros in front. -/
def padded (width n : Nat) : Text :=
  let digits := ofNat n
  List.replicate (width - digits.length) '0' ++ digits

def digitValue (c : Char) : Nat := c.toNat - '0'.toNat

/-- The number that a run of digits denotes, each digit in the given base. -/
def valueOf (base : Nat) (value : Char → Nat) (t : Text) : Nat :=
  t.foldl (fun n c => base * n + value c) 0

/-- Reads one or more ASCII digits. -/
def digits? (t : Text) : Option Nat :=
  if t ≠ [] ∧ t.all Char.isDigit then some (valueOf 10 digitValue t) else none

/-- Reads a natural number, which may have a plus sign in front. -/
def nat? : Text → Option Nat
  | '+' :: r => digits? r
  | t => digits? t

/-- Reads an integer, which may have one sign in front. -/
def int? : Text → Option Int
  | '-' :: r => (digits? r).map fun n => -(n : Int)
  | '+' :: r => (digits? r).map Int.ofNat
  | t => (digits? t).map Int.ofNat

/-! ### Words of 64 bits -/

/-- How many values a word has: `2 ^ 64`. -/
def wordCount : Nat := 0x10000000000000000

/-- How many of its values a word has below zero, where half of them are: `2 ^ 63`. -/
def negativeCount : Nat := 0x8000000000000000

/-- Whether an integer is a value of a word with negative values. -/
def isSignedWord (n : Int) : Bool := -(negativeCount : Int) ≤ n && n < (negativeCount : Int)

/-- Reads a natural number that a word can hold. -/
def word64? (t : Text) : Option Nat := (nat? t).filter (· < wordCount)

/-- Reads an integer that a word can hold. -/
def int64? (t : Text) : Option Int := (int? t).filter isSignedWord

end FeatureGuard.Text
