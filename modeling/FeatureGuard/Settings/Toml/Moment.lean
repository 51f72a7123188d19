import FeatureGuard.Text.Numeral

/-!
The dates and times of TOML: a date, a time of day, or a date and a time, which may stand in some
offset from universal time. As settings they are texts, in which a `T` stands between date and time,
and in which the fraction of a second has at most nine digits and no idle zeros.
-/

namespace FeatureGuard.Toml

/-- The numbers between separators, each written with the given number of digits. -/
def numbers? (separator : Char) (widths : List Nat) (t : Text) : Option (List Nat) :=
  let groups := t.splitOnP (· == separator)
  if groups.map List.length = widths ∧ groups.all (·.all Char.isDigit) then
    some (groups.map (Text.valueOf 10 Text.digitValue))
  else none

def isLeapYear (year : Nat) : Bool := year % 4 == 0 && (year % 100 != 0 || year % 400 == 0)

/-- How many days a month has. -/
def monthLength (year month : Nat) : Nat :=
  if month = 2 then if isLeapYear year then 29 else 28
  else if [4, 6, 9, 11].contains month then 30 else 31

def isDate (t : Text) : Bool :=
  match numbers? '-' [4, 2, 2] t with
  | some [year, month, day] =>
    1 ≤ month && month ≤ 12 && 1 ≤ day && day ≤ monthLength year month
  | _ => false

/-- Whether a text is a time of day, in whole seconds. A leap second may be the last of its minute. -/
def isTime (t : Text) : Bool :=
  match numbers? ':' [2, 2, 2] t with
  | some [hour, minute, second] => hour ≤ 23 && minute ≤ 59 && second ≤ 60
  | _ => false

/-- The fraction of a second at the start of a text, and what follows it. -/
def fraction? : Text → Option (Text × Text)
  | '.' :: r =>
    match r.takeWhile Char.isDigit with
    | [] => none
    | digits =>
      let kept := Text.dropEndWhile (· == '0') (digits.take 9)
      some (if kept = [] then [] else '.' :: kept, r.dropWhile Char.isDigit)
  | r => some ([], r)

/-- A time of day at the start of a text, and what follows it. -/
def time? (t : Text) : Option (Text × Text) :=
  let (clock, rest) := t.splitAt 8
  if isTime clock then (fraction? rest).map fun (fraction, rest) => (clock ++ fraction, rest) else none

/-- An offset from universal time. -/
def offset? : Text → Option Text
  | [] => some []
  | ['Z'] | ['z'] => some ['Z']
  | sign :: t =>
    match numbers? ':' [2, 2] t with
    | some [hour, minute] =>
      if (sign ≠ '+' ∧ sign ≠ '-') ∨ 23 < hour ∨ 59 < minute then none
      else some ((if hour = 0 ∧ minute = 0 then '+' else sign) :: t)
    | _ => none

/-- The date or time that a word denotes. -/
def moment? (t : Text) : Option Text :=
  let (date, rest) := t.splitAt 10
  if isDate date then
    match rest with
    | [] => some date
    | separator :: rest =>
      if separator ∉ ['T', 't', ' '] then none
      else do
        let (time, rest) ← time? rest
        return date ++ 'T' :: time ++ (← offset? rest)
  else
    match time? t with
    | some (time, []) => some time
    | _ => none

end FeatureGuard.Toml
