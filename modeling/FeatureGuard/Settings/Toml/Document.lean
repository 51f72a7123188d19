import FeatureGuard.Settings.Toml.Draft
import FeatureGuard.Settings.Toml.Scalar

/-!
Reading TOML. A document is a list of lines, each of which is blank, starts a table, or assigns a
value to a key; a value may go on over several lines.
-/

namespace FeatureGuard.Toml

/-! ### Blanks and comments -/

def skipSpaces (t : Text) : Text := t.dropWhile isSpace

/-- What follows the rest of a line that says no more: blanks and a comment. -/
def restOfLine? (t : Text) : Option Text :=
  let t := match skipSpaces t with
    | '#' :: r => r.dropWhile (!isControl ·)
    | r => r
  if t = [] then some [] else lineEnd? t

/-- What follows blanks, line ends and comments. -/
def skipLines : Nat → Text → Text
  | 0, t => t
  | fuel + 1, t =>
    match skipSpaces t with
    | [] => []
    | t => match restOfLine? t with
      | some rest => skipLines fuel rest
      | none => t

/-- What follows blanks, line ends and comments. Each line has a character. -/
def skipBlank (t : Text) : Text := skipLines (t.length + 1) t

/-! ### Keys -/

/-- A key without dots, and what follows it. -/
def simpleKey? (t : Text) : Option (Text × Text) := (KeyPath.key? t).or (string? t)

/-- A key with dots between its parts, and what follows it and the blanks behind it. -/
def key? : Nat → Text → Option (List Text × Text)
  | 0, _ => none
  | fuel + 1, t => do
    let (first, rest) ← simpleKey? (skipSpaces t)
    match skipSpaces rest with
    | '.' :: rest => do
      let (more, rest) ← key? fuel rest
      return (first :: more, rest)
    | rest => return ([first], rest)

/-- What follows a character. -/
def expect? (c : Char) : Text → Option Text
  | d :: r => if d = c then some r else none
  | [] => none

/-- A key and the equals sign behind it, and what follows. -/
def assignee? (t : Text) : Option (List Text × Text) := do
  let (key, rest) ← key? (t.length + 1) t
  return (key, ← expect? '=' rest)

/-! ### Values -/

def isWordChar (c : Char) : Bool :=
  c.isAlphanum || c == '_' || c == '+' || c == '-' || c == '.' || c == ':'

/-- The word at the start of a text, and what follows it. There may be a blank between a date and a
time. -/
def word (t : Text) : Text × Text :=
  let first := t.takeWhile isWordChar
  match t.dropWhile isWordChar with
  | ' ' :: r =>
    if isDate first && (r.head?.any Char.isDigit) then
      (first ++ ' ' :: r.takeWhile isWordChar, r.dropWhile isWordChar)
    else (first, ' ' :: r)
  | r => (first, r)

mutual

/-- The value at the start of a text, and what follows it. The fuel is used up by the characters
that open values and by those between them. -/
def value? : Nat → Text → Option (Tree × Text)
  | 0, _ => none
  | fuel + 1, t =>
    match t with
    | '[' :: r => (items? fuel (skipBlank r)).map fun (items, rest) => (.array none items, rest)
    | '\x7b' :: r =>
      (entries? fuel [] (skipBlank r)).map fun (entries, rest) =>
        (.table none (Draft.finishEntries entries), rest)
    | '"' :: _ | '\x27' :: _ =>
      (anyString? t).map fun (s, rest) => (.scalar none (.string s), rest)
    | t =>
      let (first, rest) := word t
      (word? first).map fun v => (.scalar none v, rest)

/-- The items of an array up to its closing bracket. -/
def items? : Nat → Text → Option (List Tree × Text)
  | 0, _ => none
  | fuel + 1, t =>
    match t with
    | ']' :: rest => some ([], rest)
    | t => do
      let (item, rest) ← value? fuel t
      match skipBlank rest with
      | ']' :: rest => return ([item], rest)
      | ',' :: rest => do
        let (more, rest) ← items? fuel (skipBlank rest)
        return (item :: more, rest)
      | _ => none

/-- The entries of an inline table up to its closing brace, after those that were read. -/
def entries? : Nat → Keyed Draft → Text → Option (Keyed Draft × Text)
  | 0, _, _ => none
  | fuel + 1, read, t =>
    match t with
    | '\x7d' :: rest => some (read, rest)
    | t => do
      let (key, rest) ← assignee? t
      let (value, rest) ← value? fuel (skipSpaces rest)
      let read ← Draft.assign value true key read
      match skipBlank rest with
      | '\x7d' :: rest => return (read, rest)
      | ',' :: rest => entries? fuel read (skipBlank rest)
      | _ => none

end

/-! ### Documents -/

/-- What was read of a document: its tables, and the keys that lead to the one that lines add to. -/
structure Reading where
  entries : Keyed Draft := []
  here : List Text := []

/-- Reads a header whose opening brackets were read. -/
def header? (start : Text → Keyed Draft → Option (Keyed Draft)) (closing : Text) (r : Reading)
    (t : Text) : Option (Reading × Text) := do
  let (key, rest) ← key? (t.length + 1) t
  if !closing.isPrefixOf rest then none
  else
    let entries ← Draft.within (start (key.getLastD [])) key.dropLast r.entries
    return ({ entries, here := key }, rest.drop closing.length)

/-- Reads a key and its value. -/
def assignment? (r : Reading) (t : Text) : Option (Reading × Text) := do
  let (key, rest) ← assignee? t
  let rest := skipSpaces rest
  let (value, rest) ← value? (2 * rest.length + 2) rest
  let entries ← Draft.within (Draft.assign value true key) r.here r.entries
  return ({ r with entries }, rest)

/-- Reads the line at the start of a text, up to what ends it. -/
def line? (r : Reading) (t : Text) : Option (Reading × Text) :=
  match t with
  | '[' :: '[' :: rest => header? Draft.openNext "]]" r rest
  | '[' :: rest => header? Draft.openTable "]" r rest
  | t => assignment? r t

/-- Reads the lines of a text. Each has a character, which bounds the fuel. -/
def lines? : Nat → Reading → Text → Option Reading
  | 0, _, _ => none
  | fuel + 1, r, t =>
    match skipBlank t with
    | [] => some r
    | t => do
      let (r, rest) ← line? r t
      lines? fuel r (← restOfLine? rest)

/-- Reads a document. -/
def read? (t : Text) : Option (Keyed Tree) :=
  (lines? (t.length + 1) {} t).map fun r => Draft.finishEntries r.entries

end FeatureGuard.Toml
