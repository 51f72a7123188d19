import FeatureGuard.Text.Basic

/-!
Texts as bytes, in UTF-8.
-/

namespace FeatureGuard.Text

def toBytes (t : Text) : ByteArray := (String.ofList t).toUTF8

/-- The text that bytes spell, if they spell one. -/
def ofBytes? (bytes : ByteArray) : Option Text := (String.fromUTF8? bytes).map String.toList

/-- How many bytes a text takes. -/
def byteCount (t : Text) : Nat := t.foldl (fun n c => n + c.utf8Size) 0

/-- Removes the mark at the start that some programs write before a text. -/
def dropByteOrderMark : Text → Text
  | '\uFEFF' :: rest => rest
  | t => t

/-! ### Bytes that may not spell a text -/

/-- The character that takes the place of bytes that spell none. -/
def replacement : Char := '\uFFFD'

/-- What the first byte of a character says: how many bytes follow, its share of the code point,
and the range of the first of the bytes that follow. -/
def leading? (b : Nat) : Option (Nat × Nat × Nat × Nat) :=
  if 0xC2 ≤ b ∧ b ≤ 0xDF then some (1, b - 0xC0, 0x80, 0xBF)
  else if b = 0xE0 then some (2, 0, 0xA0, 0xBF)
  else if b = 0xED then some (2, 0xD, 0x80, 0x9F)
  else if 0xE1 ≤ b ∧ b ≤ 0xEF then some (2, b - 0xE0, 0x80, 0xBF)
  else if b = 0xF0 then some (3, 0, 0x90, 0xBF)
  else if 0xF1 ≤ b ∧ b ≤ 0xF3 then some (3, b - 0xF0, 0x80, 0xBF)
  else if b = 0xF4 then some (3, 4, 0x80, 0x8F)
  else none

/-- A character of which only some bytes were read. -/
structure Unfinished where
  /-- how many bytes are still to come -/
  missing : Nat
  code : Nat
  /-- the range of the next byte -/
  least : Nat
  greatest : Nat

/-- Takes a byte at the start of a character. The texts that are read are kept last character
first. -/
def startChar (read : Text) (b : Nat) : Option Unfinished × Text :=
  if b < 0x80 then (none, Char.ofNat b :: read)
  else match leading? b with
    | some (missing, code, least, greatest) => (some ⟨missing, code, least, greatest⟩, read)
    | none => (none, replacement :: read)

/-- Takes one byte. A byte that does not go on with an unfinished character ends it and may start
the next one. -/
def takeByte : Option Unfinished × Text → UInt8 → Option Unfinished × Text
  | (none, read), b => startChar read b.toNat
  | (some u, read), b =>
    let b := b.toNat
    if u.least ≤ b ∧ b ≤ u.greatest then
      let code := 64 * u.code + (b - 0x80)
      if u.missing ≤ 1 then (none, Char.ofNat code :: read)
      else (some ⟨u.missing - 1, code, 0x80, 0xBF⟩, read)
    else startChar (replacement :: read) b

/-- Reads bytes as a text. One replacement character stands for each longest run of bytes that
start a character without finishing it, and for each other byte that belongs to none. -/
def ofBytesLossy (bytes : ByteArray) : Text :=
  match bytes.toList.foldl takeByte (none, []) with
  | (none, read) => read.reverse
  | (some _, read) => (replacement :: read).reverse

end FeatureGuard.Text
