import FeatureGuard.Text.Numeral
import FeatureGuard.Text.Printable

/-!
Quoted texts, as they stand in messages: between double quotes, with escapes for quotes,
backslashes, and all characters that do not show as themselves.
-/

namespace FeatureGuard.Text

/-- A number in base sixteen. -/
def ofNatHex (n : Nat) : Text := Nat.toDigits 16 n

/-- A character by its code point. -/
def codePoint (c : Char) : Text := "\\u\x7b" ++ ofNatHex c.toNat ++ "\x7d"

/-- A character within quotes. -/
def quotedChar (c : Char) : Text :=
  match c with
  | '"' => "\\\""
  | '\\' => "\\\\"
  | '\t' => "\\t"
  | '\n' => "\\n"
  | '\r' => "\\r"
  | c => if c.toNat = 0 then "\\0" else if isShown c then [c] else codePoint c

/-- A text between quotes. -/
def quoted (t : Text) : Text := "\"" ++ t.flatMap quotedChar ++ "\""

end FeatureGuard.Text
