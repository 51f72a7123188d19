import FeatureGuard.Settings.Json
import FeatureGuard.Settings.Toml.Moment

/-!
The words and strings of TOML. A word is a boolean, an integer in base two, eight, ten or sixteen, a
floating-point number, or a date or time; single underscores may stand between the digits of a
number. A string is basic, with escapes, or literal, and either may span lines where its quotes are
tripled.
-/

namespace FeatureGuard.Toml

/-! ### Numbers -/

/-- Removes the underscores between digits. -/
def withoutMarks (isDigit : Char → Bool) (t : Text) : Option Text :=
  let groups := t.splitOnP (· == '_')
  if groups.all fun group => group ≠ [] && group.all isDigit then some groups.flatten else none

/-- The integer that digits in a base denote. -/
def based? (base : Nat) (t : Text) : Option Nat :=
  let value := fun c => (Json.hexValue? c).getD base
  (withoutMarks (value · < base) t).map (Text.valueOf base value)

/-- The decimal digits of a number that does not start with an idle zero. -/
def whole? (t : Text) : Option Text :=
  (withoutMarks Char.isDigit t).filter fun digits => digits = ['0'] || digits.head? ≠ some '0'

/-- The sign at the start of a number: whether it is negative, and what follows it. -/
def sign : Text → Bool × Text
  | '-' :: r => (true, r)
  | '+' :: r => (false, r)
  | r => (false, r)

/-- The integer that a word denotes, if it has the form of one. -/
def integer? (t : Text) : Option Int :=
  match t with
  | '0' :: 'x' :: r => (based? 16 r).map Int.ofNat
  | '0' :: 'o' :: r => (based? 8 r).map Int.ofNat
  | '0' :: 'b' :: r => (based? 2 r).map Int.ofNat
  | t =>
    let (negative, r) := sign t
    (whole? r).map fun digits =>
      let n : Int := Text.valueOf 10 Text.digitValue digits
      if negative then -n else n

/-- The floating-point number that a word denotes, if it has the form of one. -/
def float? (t : Text) : Option Binary64 :=
  let (negative, t) := sign t
  if t = "inf" then some (.infinite negative)
  else if t = "nan" then some .nan
  else do
    let isMark := fun c => c == 'e' || c == 'E'
    let mantissa := t.takeWhile (!isMark ·)
    let power ← match t.dropWhile (!isMark ·) with
      | [] => some (0 : Int)
      | _ :: r =>
        let (below, r) := sign r
        (withoutMarks Char.isDigit r).map fun digits =>
          let n : Int := Text.valueOf 10 Text.digitValue digits
          if below then -n else n
    let whole ← whole? (mantissa.takeWhile (· ≠ '.'))
    let fraction ← match mantissa.dropWhile (· ≠ '.') with
      | [] => some []
      | _ :: r => withoutMarks Char.isDigit r
    let digits := whole ++ fraction
    let n := Text.valueOf 10 Text.digitValue digits
    match Binary64.ofDecimal negative n (power - fraction.length) with
    | .infinite _ => none
    | f => some f

/-- The value that a word denotes. -/
def word? (t : Text) : Option Scalar :=
  if t = "true" then some (.boolean true)
  else if t = "false" then some (.boolean false)
  else match integer? t with
    | some n => if Text.isSignedWord n then some (.integer n) else none
    | none => ((float? t).map .float).or ((moment? t).map .string)

/-! ### Strings -/

/-- The characters that may not stand in comments and strings. -/
def isControl (c : Char) : Bool := (c.toNat < 0x20 && c ≠ '\t') || c.toNat = 0x7F

def isSpace (c : Char) : Bool := c == ' ' || c == '\t'

/-- What follows a line end at the start of a text. -/
def lineEnd? : Text → Option Text
  | '\n' :: r => some r
  | '\r' :: '\n' :: r => some r
  | _ => none

/-- The character with the code that a number of digits in base sixteen denote. -/
def coded? (digits : Nat) (t : Text) : Option (Char × Text) := do
  let code ← based? 16 ((t.take digits).filter (· ≠ '_'))
  if digits ≤ t.length ∧ (t.take digits).all (· ≠ '_') ∧ code.isValidChar then
    some (Char.ofNat code, t.drop digits)
  else none

/-- The character that stands behind a backslash. -/
def escaped? : Text → Option (Char × Text)
  | '"' :: r => some ('"', r)
  | '\\' :: r => some ('\\', r)
  | 'b' :: r => some ('\x08', r)
  | 'e' :: r => some ('\x1b', r)
  | 'f' :: r => some ('\x0c', r)
  | 'n' :: r => some ('\n', r)
  | 'r' :: r => some ('\r', r)
  | 't' :: r => some ('\t', r)
  | 'x' :: r => coded? 2 r
  | 'u' :: r => coded? 4 r
  | 'U' :: r => coded? 8 r
  | _ => none

/-- What follows a backslash at the end of a line: blanks and line ends up to the next character. -/
def continued? (t : Text) : Option Text :=
  (lineEnd? (t.dropWhile isSpace)).map fun r =>
    r.dropWhile fun c => isSpace c || c == '\n' || c == '\r'

/-- A kind of string. -/
structure Style where
  quote : Char
  /-- whether a backslash starts an escape -/
  escapes : Bool
  /-- whether the quotes are tripled -/
  tall : Bool

/-- What stands at a place within a string: the characters there and what follows them, or the end,
with what follows the string. -/
inductive Piece
  | chars (read rest : Text)
  | done (read rest : Text)

/-- The piece at the start of a text. Before the three quotes at the end of a tall string there may
be two more that belong to it. -/
def piece? (s : Style) (t : Text) : Option Piece :=
  match t with
  | [] => none
  | c :: r =>
    if c = s.quote then
      if s.tall then
        let quotes := (t.takeWhile (· = s.quote)).length
        if quotes < 3 then some (.chars (List.replicate quotes c) (t.drop quotes))
        else if quotes ≤ 5 then some (.done (List.replicate (quotes - 3) c) (t.drop quotes))
        else none
      else some (.done [] r)
    else if c = '\\' && s.escapes then
      match if s.tall then continued? r else none with
      | some rest => some (.chars [] rest)
      | none => (escaped? r).map fun (c, rest) => .chars [c] rest
    else match if s.tall then lineEnd? t else none with
      | some rest => some (.chars ['\n'] rest)
      | none => if isControl c then none else some (.chars [c] r)

/-- The string whose opening quotes were read, and what follows it. The characters read so far are
given last first. Each piece takes at least one character, which bounds the fuel. -/
def stringBody? (s : Style) : Nat → Text → Text → Option (Text × Text)
  | 0, _, _ => none
  | fuel + 1, read, t =>
    match piece? s t with
    | none => none
    | some (.chars more rest) => stringBody? s fuel (more.reverse ++ read) rest
    | some (.done more rest) => some (read.reverse ++ more, rest)

/-- The string on one line at the start of a text, and what follows it. -/
def string? : Text → Option (Text × Text)
  | '"' :: r => stringBody? ⟨'"', true, false⟩ (r.length + 1) [] r
  | '\x27' :: r => stringBody? ⟨'\x27', false, false⟩ (r.length + 1) [] r
  | _ => none

/-- The string at the start of a text, on one line or on several, and what follows it. -/
def anyString? (t : Text) : Option (Text × Text) :=
  let tall := fun (quote : Char) (r : Text) =>
    let r := (lineEnd? r).getD r
    stringBody? ⟨quote, quote = '"', true⟩ (r.length + 1) [] r
  match t with
  | '"' :: '"' :: '"' :: r => tall '"' r
  | '\x27' :: '\x27' :: '\x27' :: r => tall '\x27' r
  | t => string? t

end FeatureGuard.Toml
