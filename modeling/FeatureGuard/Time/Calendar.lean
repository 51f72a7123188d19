/-!
The Gregorian calendar, reckoned without end into the past and the future. Days are numbered from
the first of January 1970 on. Reckoning starts from the first of March of the year 0, so that a leap
day is the last day of its year: 400 such years have 146097 days, and every century but the last and
every four years but the last of a century have a fixed number of days.
-/

namespace FeatureGuard

/-- A date; months and days are numbered from one on. -/
structure Date where
  year : Int
  month : Nat
  day : Nat
  deriving DecidableEq, Repr

namespace Date

/-- The days from the first of March of the year 0 to the first of January 1970. -/
def epoch : Int := 719468

/-- The year of a day within 400 years that start with March. -/
def yearOf (day : Nat) : Nat :=
  let century := min (day / 36524) 3
  let rest := day - century * 36524
  let four := rest / 1461
  let last := rest - four * 1461
  100 * century + 4 * four + min (last / 365) 3

/-- The days of the years before a given one, of those that start with March. -/
def daysBefore (year : Nat) : Nat := 365 * year + year / 4 - year / 100 + year / 400

/-- The date of a day. -/
def ofDay (number : Int) : Date :=
  let shifted := number + epoch
  let day := (shifted % 146097).toNat
  let year := yearOf day
  let ofYear := day - daysBefore year
  let fromMarch := (5 * ofYear + 2) / 153
  let month := if fromMarch < 10 then fromMarch + 3 else fromMarch - 9
  { year := 400 * (shifted / 146097) + year + if month ≤ 2 then 1 else 0
    month
    day := ofYear - (153 * fromMarch + 2) / 5 + 1 }

end Date

end FeatureGuard
