/-!
Texts are lists of Unicode scalar values. This module holds the few operations that the readers
of the library share: which characters are blank, trimming, splitting at separators, and cutting a
text at the first occurrence of a pattern.
-/

namespace FeatureGuard

/-- A text is the list of its Unicode scalar values. -/
abbrev Text := List Char

instance : Coe String Text := ⟨String.toList⟩

namespace Text

/-! ### Blank characters -/

/-- The characters with the Unicode property `White_Space`, as inclusive ranges of code points. -/
def blankRanges : List (Nat × Nat) :=
  [(0x09, 0x0D), (0x20, 0x20), (0x85, 0x85), (0xA0, 0xA0), (0x1680, 0x1680), (0x2000, 0x200A),
    (0x2028, 0x2029), (0x202F, 0x202F), (0x205F, 0x205F), (0x3000, 0x3000)]

/-- Whether some range of a table holds the character. -/
def inRanges (ranges : List (Nat × Nat)) (c : Char) : Bool :=
  ranges.any fun r => r.1 ≤ c.toNat && c.toNat ≤ r.2

def isBlank (c : Char) : Bool := inRanges blankRanges c

/-! ### Trimming and splitting -/

/-- Removes the longest run of certain characters at the end. -/
def dropEndWhile (p : Char → Bool) (t : Text) : Text := (t.reverse.dropWhile p).reverse

def trimStart (t : Text) : Text := t.dropWhile isBlank

def trimEnd (t : Text) : Text := dropEndWhile isBlank t

/-- Removes the blank characters at both ends. -/
def trim (t : Text) : Text := trimEnd (trimStart t)

/-- The maximal runs of characters that are not separators. -/
def fields (separator : Char → Bool) (t : Text) : List Text :=
  (t.splitOnP separator).filter (· ≠ [])

/-- The maximal runs of characters that are not blank. -/
def words (t : Text) : List Text := fields isBlank t

/-- The first word of a text and what follows it, without the blanks around either. -/
def splitWord (t : Text) : Text × Text :=
  let t := trimStart t
  (t.takeWhile (!isBlank ·), trimStart (t.dropWhile (!isBlank ·)))

/-- Cuts a text at the first occurrence of a pattern: what stands before it and what after it. -/
def cut (pattern : Text) : Text → Option (Text × Text)
  | [] => if pattern = [] then some ([], []) else none
  | c :: r =>
    if pattern.isPrefixOf (c :: r) then some ([], (c :: r).drop pattern.length)
    else (cut pattern r).map fun (before, after) => (c :: before, after)

/-- What a cut returns are pieces of the text: with the pattern between them they are the text. -/
theorem eq_of_cut {pattern t before after : Text} (h : cut pattern t = some (before, after)) :
    t = before ++ pattern ++ after := by
  induction t generalizing before with
  | nil =>
    simp only [cut] at h
    split at h <;> simp_all
  | cons c r ih =>
    simp only [cut] at h
    split at h
    · rename_i hp
      obtain ⟨rest, hrest⟩ := List.isPrefixOf_iff_prefix.1 hp
      simp only [Option.some.injEq, Prod.mk.injEq] at h
      obtain ⟨rfl, rfl⟩ := h
      simp [← hrest]
    · obtain ⟨⟨b, a⟩, hb, hab⟩ := Option.map_eq_some_iff.1 h
      simp only [Prod.mk.injEq] at hab
      obtain ⟨rfl, rfl⟩ := hab
      simp [ih hb]

/-! ### Lines -/

/-- Drops one carriage return at the end. -/
def dropReturn (t : Text) : Text := if t.getLast? = some '\r' then t.dropLast else t

/-- The lines of a document. A line feed ends a line, together with a carriage return directly
before it; a document that ends with a line feed has no further, empty line. -/
def lines (t : Text) : List Text :=
  let pieces := t.splitOnP (· == '\n')
  pieces.dropLast.map dropReturn ++ (pieces.getLast?.toList.filter (· ≠ []))

/-! ### Joining -/

/-- The texts one after the other, with a separator between neighbours. -/
def join (separator : Text) : List Text → Text
  | [] => []
  | [t] => t
  | t :: ts => t ++ separator ++ join separator ts

end Text

end FeatureGuard
