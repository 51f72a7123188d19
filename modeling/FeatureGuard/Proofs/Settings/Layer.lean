import FeatureGuard.Proofs.Keyed
import FeatureGuard.Proofs.Text.Word
import FeatureGuard.Settings.Tree

/-!
Setting trees laid over each other. A table that is laid over another one takes the place of the
entries with its keys and leaves the others as they are. A path of two keys changes one entry of one
section, and a path that starts elsewhere leaves the section alone.
-/

namespace FeatureGuard

/-! ### Paths -/

namespace KeyPath

theorem key?_append {key rest : Text} (hne : key ≠ []) (hkey : ∀ c ∈ key, isKeyChar c = true)
    (hrest : ∀ c ∈ rest.head?, isKeyChar c = false) : key? (key ++ rest) = some (key, rest) := by
  have htake : (key ++ rest).takeWhile isKeyChar = key := by
    rw [List.takeWhile_append_of_pos hkey]
    cases rest with
    | nil => exact List.append_nil key
    | cons c rest =>
        rw [List.takeWhile_cons_of_neg (Bool.eq_false_iff.1 (hrest c rfl)), List.append_nil]
  have hdrop : (key ++ rest).dropWhile isKeyChar = rest := by
    rw [List.dropWhile_append_of_pos hkey, Text.dropWhile_eq_self hrest]
  rw [key?, htake, hdrop]
  obtain ⟨c, others, rfl⟩ := List.exists_cons_of_ne_nil hne
  rfl

/-- A key is a path of one step. -/
theorem ofText_key {key : Text} (hne : key ≠ []) (hkey : ∀ c ∈ key, isKeyChar c = true) :
    ofText key = ⟨key, []⟩ := by
  have h : key? (key ++ []) = some (key, []) := key?_append hne hkey nofun
  rw [List.append_nil] at h
  rw [ofText, h]
  simp [steps?]

/-- Two keys with a dot between them are a path of two steps. -/
theorem ofText_dotted {root key : Text} (hne : root ≠ []) (hroot : ∀ c ∈ root, isKeyChar c = true)
    (hne' : key ≠ []) (hkey : ∀ c ∈ key, isKeyChar c = true) :
    ofText (root ++ '.' :: key) = ⟨root, [.key key]⟩ := by
  have hfirst : key? (root ++ '.' :: key) = some (root, '.' :: key) :=
    key?_append hne hroot (by simp; decide)
  have hsecond : key? (key ++ []) = some (key, []) := key?_append hne' hkey nofun
  rw [List.append_nil] at hsecond
  have hsteps : steps? ('.' :: key) = some [.key key] := by
    rw [steps?]
    split
    · rename_i hnone
      rw [hsecond] at hnone
      cases hnone
    · rename_i hsome
      rw [hsecond] at hsome
      cases hsome
      simp [steps?]
  rw [ofText, hfirst]
  simp only [hsteps]

end KeyPath

namespace Tree

variable {root key : Text} {t value : Tree} {entries below : Keyed Tree}

/-! ### Tables -/

theorem entries_withEntries (entries : Keyed Tree) (t : Tree) :
    (t.withEntries entries).entries = entries := by
  cases t <;> rfl

theorem get?_set (t : Tree) (path : KeyPath) (value : Tree) (root : Text) :
    Keyed.get? root (t.set path value).entries =
      if path.root = root then
        some (mapAt (covering value) path.steps (Keyed.get? path.root t.entries))
      else Keyed.get? root t.entries := by
  rw [set, mapEntry, entries_withEntries, Keyed.get?_set]

theorem covering_scalar (origin : Option Text) (value : Scalar) (below : Option Tree) :
    covering (scalar origin value) below = scalar origin value := by
  simp [covering]

theorem covering_table (origin : Option Text) (entries : List (Text × Tree)) (below : Option Tree) :
    ∃ origin', covering (table origin entries) below =
      table origin' (coveringEntries entries (below.getD null).entries) := by
  rcases below with - | (- | - | ⟨origin', kept⟩)
  · exact ⟨none, by simp [covering, null, Tree.entries]⟩
  · exact ⟨none, by simp [covering, Tree.entries]⟩
  · exact ⟨none, by simp [covering, Tree.entries]⟩
  · exact ⟨origin', by simp [covering, Tree.entries]⟩

/-- The entries of a table take the place of those with their keys. -/
theorem get?_coveringEntries (h : (Keyed.keys entries).Nodup) (below : Keyed Tree) (key : Text) :
    Keyed.get? key (coveringEntries entries below) =
      ((Keyed.get? key entries).map fun value => covering value (Keyed.get? key below)).or
        (Keyed.get? key below) := by
  induction entries generalizing below with
  | nil =>
      rw [coveringEntries]
      rfl
  | cons e rest ih =>
      obtain ⟨first, value⟩ := e
      obtain ⟨hfirst, hrest⟩ := List.nodup_cons.1 h
      rw [coveringEntries, ih hrest, Keyed.get?_set, Keyed.get?]
      split_ifs with heq
      · rw [← heq, Keyed.get?_eq_none_iff.2 hfirst]
        rfl
      · rfl

/-! ### Sections -/

/-- The section of a tree is a table with the entries, or there is none, and no entries. -/
inductive HasSection (t : Tree) (root : Text) : Keyed Tree → Prop
  | absent : Keyed.get? root t.entries = none → HasSection t root []
  | present {origin : Option Text} {entries : Keyed Tree} :
      Keyed.get? root t.entries = some (table origin entries) → HasSection t root entries

namespace HasSection

theorem unique {entries' : Keyed Tree} (h : t.HasSection root entries)
    (h' : t.HasSection root entries') : entries = entries' := by
  cases h with
  | absent hnone =>
      cases h' with
      | absent _ => rfl
      | present hsome => simp [hnone] at hsome
  | present hsome =>
      cases h' with
      | absent hnone => simp [hsome] at hnone
      | present hsome' =>
          rw [hsome] at hsome'
          injection hsome' with heq
          injection heq

/-- A path that starts elsewhere leaves the section alone. -/
theorem set_of_ne (h : t.HasSection root entries) {path : KeyPath} (hne : path.root ≠ root) :
    (t.set path value).HasSection root entries := by
  have hget := get?_set t path value root
  rw [if_neg hne] at hget
  cases h with
  | absent hnone => exact .absent (hget.trans hnone)
  | present hsome => exact .present (hget.trans hsome)

/-- A table that is laid over a section is laid over its entries. -/
theorem set_table (h : t.HasSection root entries) (origin : Option Text)
    (new : List (Text × Tree)) :
    (t.set ⟨root, []⟩ (table origin new)).HasSection root (coveringEntries new entries) := by
  have hget := get?_set t ⟨root, []⟩ (table origin new) root
  rw [if_pos rfl, mapAt] at hget
  obtain ⟨origin', hcovering⟩ := covering_table origin new (Keyed.get? root t.entries)
  rw [hcovering] at hget
  cases h with
  | absent hnone =>
      rw [hnone] at hget
      exact .present hget
  | present hsome =>
      rw [hsome] at hget
      exact .present hget

/-- A path of two keys changes the entry of one key in the section. -/
theorem set_key (h : t.HasSection root entries) (key : Text) (value : Tree) :
    (t.set ⟨root, [.key key]⟩ value).HasSection root
      (Keyed.set key (covering value (Keyed.get? key entries)) entries) := by
  have hget := get?_set t ⟨root, [.key key]⟩ value root
  rw [if_pos rfl, mapAt, mapEntry, mapAt] at hget
  cases h with
  | absent hnone =>
      rw [hnone] at hget
      exact .present hget
  | present hsome =>
      rw [hsome] at hget
      exact .present hget

/-- A source whose keys lead to the section only where they are its name lays a table over it. -/
theorem layer {source : Keyed Tree} (hnodup : (Keyed.keys source).Nodup)
    (hroot : KeyPath.ofText root = ⟨root, []⟩)
    (htable : ∀ s, Keyed.get? root source = some s → ∃ origin new, s = table origin new)
    (hother : ∀ e ∈ source, e.1 ≠ root → (KeyPath.ofText e.1).root ≠ root)
    (h : t.HasSection root entries) :
    (t.layer source).HasSection root
      (coveringEntries ((Keyed.get? root source).getD null).entries entries) := by
  induction source generalizing t entries with
  | nil =>
      show t.HasSection root (coveringEntries [] entries)
      rw [coveringEntries]
      exact h
  | cons e rest ih =>
      obtain ⟨key, value⟩ := e
      obtain ⟨hkey, hrest⟩ := List.nodup_cons.1 hnodup
      obtain ⟨hfirst, hothers⟩ := List.forall_mem_cons.1 hother
      by_cases heq : key = root
      · subst heq
        obtain ⟨origin, new, rfl⟩ := htable value (by rw [Keyed.get?, if_pos rfl])
        have hnone := Keyed.get?_eq_none_iff.2 hkey
        have hstep := h.set_table origin new
        have hrun := ih hrest (fun s hs => by rw [hnone] at hs; cases hs) hothers hstep
        rw [hnone] at hrun
        rw [Keyed.get?, if_pos rfl]
        show (((t.set (KeyPath.ofText key) (table origin new)).layer rest).HasSection key _)
        rw [hroot]
        exact hrun
      · have hget : Keyed.get? root ((key, value) :: rest) = Keyed.get? root rest := by
          rw [Keyed.get?, if_neg heq]
        rw [hget] at htable ⊢
        exact ih hrest htable hothers (h.set_of_ne (hfirst heq))

end HasSection

end Tree

end FeatureGuard
