import FeatureGuard.Settings.Tree
import FeatureGuard.Text.Quoted

/-!
Decoding settings: from the values of a tree to values of the types that are asked for, or to a
mismatch, which says what was found where something else was expected.
-/

namespace FeatureGuard

inductive Mismatch
  /-- a value of the wrong sort, and where it was written if that is said -/
  | sort (found expected : Text) (origin : Option Text)
  /-- a word that is none of a choice -/
  | word (choice given : Text)
  /-- neither a word nor a table with one key -/
  | form (choice : Text)
  deriving DecidableEq

/-- A mismatch at the place that steps lead to. -/
structure Misfit where
  steps : List Step
  mismatch : Mismatch
  deriving DecidableEq

namespace Misfit

/-- A step as it follows others. -/
def stepText : Step → Text
  | .key name => "." ++ name
  | .index i => "[" ++ Text.ofInt i ++ "]"

/-- The key that steps make up. -/
def keyText : List Step → Text
  | .key name :: rest => name ++ rest.flatMap stepText
  | steps => steps.flatMap stepText

/-- The message of a misfit, with the key that leads to it. -/
def message (m : Misfit) : Text :=
  let key := " for key `" ++ keyText m.steps ++ "`"
  match m.mismatch with
  | .sort found expected origin =>
    "invalid type: " ++ found ++ ", expected " ++ expected ++ key ++
      (match origin with
        | some origin => " in " ++ origin
        | none => [])
  | .word choice given =>
    "enum " ++ choice ++ " does not have variant constructor " ++ given ++ key
  | .form choice =>
    "value of enum " ++ choice ++
      " should be represented by either string or table with exactly one key" ++ key

/-- Adds the step that leads to where a misfit was found. -/
def under (step : Step) (m : Misfit) : Misfit := { m with steps := step :: m.steps }

end Misfit

abbrev Decoded (α : Type) := Except Misfit α

namespace Tree

/-- The mismatch of a value, as it is reported for a single setting. -/
def misfit (found expected : Text) (origin : Option Text) : Misfit :=
  ⟨[], .sort found expected origin⟩

def booleanText (b : Bool) : Text := if b then "true" else "false"

/-- The text of a string, a boolean or a number. -/
def text : Tree → Decoded Text
  | scalar origin value =>
    match value with
    | .string t => .ok t
    | .boolean b => .ok (booleanText b)
    | .integer n => .ok (Text.ofInt n)
    | .float f => .ok f.text
    | .null => .error (misfit "unit value" "a string" origin)
  | array origin _ => .error (misfit "sequence" "a string" origin)
  | table origin _ => .error (misfit "map" "a string" origin)

/-- A text, or none where the value is null. -/
def optionalText : Tree → Decoded (Option Text)
  | scalar _ .null => .ok none
  | t => some <$> t.text

/-- The number of a word that stands for one, in any case. -/
def flag? (t : Text) : Option Nat :=
  let word := t.map Char.toLower
  if word = "true" ∨ word = "on" ∨ word = "yes" then some 1
  else if word = "false" ∨ word = "off" ∨ word = "no" then some 0
  else none

/-- A number of 64 bits, from a number, a boolean, or the text of either. -/
def word64 : Tree → Decoded Nat
  | scalar origin value =>
    match value with
    | .integer n =>
      if n < 0 then
        .error (misfit ("64-bit integer `" ++ Text.ofInt n ++ "`")
          "an unsigned 64 bit or less integer" origin)
      else .ok n.toNat
    | .boolean b => .ok b.toNat
    | .float f => .ok f.toWord64
    | .string t =>
      match (flag? t).or (Text.word64? t) with
      | some n => .ok n
      | none => .error (misfit ("string " ++ Text.quoted t) "an integer" origin)
    | .null => .error (misfit "unit value" "an integer" origin)
  | array origin _ => .error (misfit "sequence" "an integer" origin)
  | table origin _ => .error (misfit "map" "an integer" origin)

/-- One of a list of words, each with what it stands for: either as a string or as the only key of a
table. -/
def choice {α : Type} (name : Text) (words : List (Text × α)) (t : Tree) : Decoded α :=
  let pick := fun (word : Text) => match Keyed.get? word words with
    | some a => .ok a
    | none => .error ⟨[], .word name word⟩
  match t with
  | scalar _ (.string word) => pick word
  | table _ [(word, _)] => pick word
  | _ => .error ⟨[], .form name⟩

/-- How a scalar is described where a section was expected. -/
def describe : Scalar → Text
  | .null => "unit value"
  | .boolean b => "boolean `" ++ booleanText b ++ "`"
  | .integer n => "integer `" ++ Text.ofInt n ++ "`"
  | .float f =>
    let digits := f.text
    let isWhole := digits.all fun c => c.isDigit || c == '-'
    "floating point `" ++ digits ++ (if isWhole then ".0" else "") ++ "`"
  | .string t => "string " ++ Text.quoted t

/-- A setting of a section: its key, and how its value changes the section. -/
structure Field (α : Type) where
  key : Text
  read : Tree → α → Decoded α

/-- A field that is set to what a decoder makes of its value. -/
def Field.ofDecoder {α β : Type} (key : Text) (decode : Tree → Decoded β) (put : β → α → α) :
    Field α :=
  ⟨key, fun t a => (decode t).map (put · a)⟩

/-- Reads the fields of a section from the entries of a table. -/
def readEntries {α : Type} (entries : Keyed Tree) (a : α) (f : Field α) : Decoded α :=
  match Keyed.get? f.key entries with
  | none => .ok a
  | some t => (f.read t a).mapError (Misfit.under (.key f.key))

/-- Reads fields from the items of an array, one after the other from an index on. -/
def readItems {α : Type} : Nat → List (Field α) → List Tree → α → Decoded α
  | i, f :: fields, t :: items, a => do
    let a ← (f.read t a).mapError (Misfit.under (.index i))
    readItems (i + 1) fields items a
  | _, _, _, a => .ok a

/-- Reads a section. A table gives fields by their keys and an array in their order; what is not
given keeps its default. -/
def readSection {α : Type} (name : Text) (fields : List (Field α)) (default : α) :
    Tree → Decoded α
  | table _ entries => fields.foldlM (readEntries entries) default
  | array _ items => readItems 0 fields items default
  | scalar _ value =>
    .error (misfit (describe value) ("struct " ++ name) none)

end Tree

end FeatureGuard
