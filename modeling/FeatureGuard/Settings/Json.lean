import FeatureGuard.Settings.Tree

/-!
Reading JSON. A text is first split into tokens; these are then put together by a machine that keeps
the containers that are still open. Where a key is repeated in an object, the last value counts.
-/

namespace FeatureGuard.Json

inductive Token
  | openArray
  | closeArray
  | openObject
  | closeObject
  | colon
  | comma
  | scalar (value : Scalar)
  deriving DecidableEq

/-! ### Strings -/

/-- The value of a digit in base sixteen. -/
def hexValue? (c : Char) : Option Nat :=
  if c.isDigit then some (c.toNat - '0'.toNat)
  else if 'a' ≤ c ∧ c ≤ 'f' then some (c.toNat - 'a'.toNat + 10)
  else if 'A' ≤ c ∧ c ≤ 'F' then some (c.toNat - 'A'.toNat + 10)
  else none

/-- The code unit that four digits denote, and what follows them. -/
def unit? : Text → Option (Nat × Text)
  | a :: b :: c :: d :: rest => do
    return (4096 * (← hexValue? a) + 256 * (← hexValue? b) + 16 * (← hexValue? c) + (← hexValue? d),
      rest)
  | _ => none

/-- The character that one code unit or two denote. -/
def character? (t : Text) : Option (Char × Text) := do
  let (high, rest) ← unit? t
  if 0xDC00 ≤ high ∧ high ≤ 0xDFFF then none
  else if 0xD800 ≤ high ∧ high ≤ 0xDBFF then
    match rest with
    | '\\' :: 'u' :: rest =>
      let (low, rest) ← unit? rest
      if 0xDC00 ≤ low ∧ low ≤ 0xDFFF then
        some (Char.ofNat (0x10000 + 0x400 * (high - 0xD800) + (low - 0xDC00)), rest)
      else none
    | _ => none
  else some (Char.ofNat high, rest)

/-- The character that stands behind a backslash. -/
def escaped? : Text → Option (Char × Text)
  | '"' :: r => some ('"', r)
  | '\\' :: r => some ('\\', r)
  | '/' :: r => some ('/', r)
  | 'b' :: r => some ('\x08', r)
  | 'f' :: r => some ('\x0c', r)
  | 'n' :: r => some ('\n', r)
  | 'r' :: r => some ('\r', r)
  | 't' :: r => some ('\t', r)
  | 'u' :: r => character? r
  | _ => none

/-- The string whose opening quote was read, and what follows its closing quote. The characters read
so far are given last first. A text has more characters than its string has, which bounds the
fuel. -/
def string? : Nat → Text → Text → Option (Text × Text)
  | 0, _, _ => none
  | fuel + 1, read, t =>
    match t with
    | [] => none
    | '"' :: r => some (read.reverse, r)
    | '\\' :: r =>
      match escaped? r with
      | none => none
      | some (c, r) => string? fuel (c :: read) r
    | c :: r => if c.toNat < 0x20 then none else string? fuel (c :: read) r

/-! ### Numbers -/

/-- The digits of a number are taken into an integer of 64 bits as long as it has room for them. -/
def takeDigits : Nat → Text → Nat × Text
  | n, [] => (n, [])
  | n, c :: r =>
    let next := 10 * n + Text.digitValue c
    if next < Text.wordCount then takeDigits next r else (n, c :: r)

/-- Divides by powers of ten that can be represented, one after the other. -/
def shrink : Nat → Binary64 → Nat → Binary64
  | 0, f, _ => f
  | fuel + 1, f, places =>
    if places ≤ 308 then f.dividedBy (.ofDecimal false 1 places)
    else shrink fuel (f.dividedBy (.ofDecimal false 1 308)) (places - 308)

/-- An integer of 64 bits times a power of ten, both rounded before they are multiplied. A number
outside the range is refused. -/
def float? (negative : Bool) (n : Nat) (power : Int) : Option Binary64 :=
  let f := Binary64.ofRatio negative n 1
  if n = 0 then some f
  else if power < 0 then some (shrink 4 f (-power).toNat)
  else if 308 < power then none
  else match f.times (.ofDecimal false 1 power) with
    | .infinite _ => none
    | f => some f

/-- The exponent at the start of a text, if there is one. -/
def exponent? (t : Text) : Option (Int × Text) :=
  match t with
  | 'e' :: r | 'E' :: r =>
    let (negative, r) := match r with
      | '-' :: r => (true, r)
      | '+' :: r => (false, r)
      | r => (false, r)
    (Text.digits? (r.takeWhile Char.isDigit)).map fun n =>
      (if negative then -(n : Int) else n, r.dropWhile Char.isDigit)
  | r => some (0, r)

/-- The number with given digits before the point and behind it. -/
def number? (negative : Bool) (whole fraction : Text) (exponent : Option Int) : Option Scalar :=
  let (n, left) := takeDigits 0 whole
  let isWord := left = [] && !(negative && (n = 0 || Text.negativeCount < n))
  if fraction = [] ∧ exponent = none ∧ isWord then
    some (.integer (if negative then -(n : Int) else n))
  else
    let (n, ignored) := takeDigits n fraction
    let places : Int := fraction.length - ignored.length
    (float? negative n (left.length - places + exponent.getD 0)).map .float

/-- The number at the start of a text, whose sign was read. -/
def unsigned? (negative : Bool) (t : Text) : Option (Scalar × Text) := do
  let digits := t.takeWhile Char.isDigit
  let whole := if digits.head? = some '0' then ['0'] else digits
  if whole = [] then none
  let rest := t.drop whole.length
  let (fraction, rest) ← match rest with
    | '.' :: r =>
      let fraction := r.takeWhile Char.isDigit
      if fraction = [] then none else some (fraction, r.drop fraction.length)
    | r => some ([], r)
  let (exponent, after) ← exponent? rest
  let value ← number? negative whole fraction (if after = rest then none else some exponent)
  return (value, after)

/-! ### Tokens -/

def isSpace (c : Char) : Bool := c == ' ' || c == '\t' || c == '\n' || c == '\r'

/-- A word at the start of a text. -/
def word? (word : String) (value : Scalar) (t : Text) : Option (Token × Text) :=
  if word.toList.isPrefixOf t then some (.scalar value, t.drop word.length) else none

/-- The token at the start of a text that does not start with a space. -/
def token? (t : Text) : Option (Token × Text) :=
  match t with
  | '[' :: r => some (.openArray, r)
  | ']' :: r => some (.closeArray, r)
  | '\x7b' :: r => some (.openObject, r)
  | '\x7d' :: r => some (.closeObject, r)
  | ':' :: r => some (.colon, r)
  | ',' :: r => some (.comma, r)
  | '"' :: r => (string? (r.length + 1) [] r).map fun (s, r) => (.scalar (.string s), r)
  | '-' :: r => (unsigned? true r).map fun (n, r) => (.scalar n, r)
  | 'n' :: _ => word? "null" .null t
  | 't' :: _ => word? "true" (.boolean true) t
  | 'f' :: _ => word? "false" (.boolean false) t
  | _ => (unsigned? false t).map fun (n, r) => (.scalar n, r)

/-- The tokens of a text. Each takes at least one character, which bounds the fuel. -/
def tokens? : Nat → Text → Option (List Token)
  | 0, _ => none
  | fuel + 1, t =>
    match t.dropWhile isSpace with
    | [] => some []
    | t => (token? t).bind fun (token, rest) => (tokens? fuel rest).map (token :: ·)

/-! ### Values -/

/-- A container that is still open: the items of an array, the last one first, or the entries of an
object with the key whose value is next. -/
inductive Frame
  | array (items : List Tree)
  | object (entries : Keyed Tree) (key : Text)

/-- What has to come next. -/
inductive Expectation
  | value
  /-- a value, or the end of the array that was just opened -/
  | firstItem
  | key
  /-- a key, or the end of the object that was just opened -/
  | firstKey
  | colon
  /-- a comma, or the end of a container -/
  | next
  deriving DecidableEq

/-- How far the tokens of a value were put together. -/
structure Machine where
  frames : List Frame := []
  expected : Expectation := .value
  /-- the whole value, once it is complete -/
  result : Option Tree := none

namespace Machine

/-- How many containers may stand within each other. -/
def depth : Nat := 127

/-- Takes a value that is complete. -/
def deliver (value : Tree) (m : Machine) : Machine :=
  match m.frames with
  | [] => { m with expected := .next, result := some value }
  | .array items :: frames =>
    { m with frames := .array (value :: items) :: frames, expected := .next }
  | .object entries key :: frames =>
    { m with frames := .object (Keyed.set key value entries) [] :: frames, expected := .next }

/-- Opens a container. -/
def push (frame : Frame) (expected : Expectation) (m : Machine) : Option Machine :=
  if m.frames.length < depth then some { m with frames := frame :: m.frames, expected } else none

/-- Closes the innermost container. -/
def closeArray (m : Machine) : Option Machine :=
  match m.frames with
  | .array items :: frames => some ({ m with frames }.deliver (.array none items.reverse))
  | _ => none

def closeObject (m : Machine) : Option Machine :=
  match m.frames with
  | .object entries _ :: frames => some ({ m with frames }.deliver (.table none entries))
  | _ => none

/-- Takes a token where a value has to start. -/
def start (m : Machine) : Token → Option Machine
  | .scalar value => some (m.deliver (.scalar none value))
  | .openArray => m.push (.array []) .firstItem
  | .openObject => m.push (.object [] []) .firstKey
  | _ => none

/-- Takes the key of an entry. -/
def takeKey (m : Machine) : Token → Option Machine
  | .scalar (.string key) =>
    match m.frames with
    | .object entries _ :: frames =>
      some { m with frames := .object entries key :: frames, expected := .colon }
    | _ => none
  | _ => none

/-- Takes the next token. -/
def step (m : Machine) (token : Token) : Option Machine :=
  match m.expected with
  | .value => m.start token
  | .firstItem => if token = .closeArray then m.closeArray else m.start token
  | .key => m.takeKey token
  | .firstKey => if token = .closeObject then m.closeObject else m.takeKey token
  | .colon => if token = .colon then some { m with expected := .value } else none
  | .next =>
    match token, m.frames with
    | .comma, .array _ :: _ => some { m with expected := .value }
    | .comma, .object .. :: _ => some { m with expected := .key }
    | .closeArray, _ => m.closeArray
    | .closeObject, _ => m.closeObject
    | _, _ => none

end Machine

/-- Reads a value. -/
def read? (t : Text) : Option Tree := do
  let tokens ← tokens? (t.length + 1) t
  (← tokens.foldlM Machine.step {}).result

end FeatureGuard.Json
