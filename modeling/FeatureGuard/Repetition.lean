import Std.Data.TreeSet

/-!
Repetition. A list is sifted into the entries that occur in it for the first time and the entries
that repeat an earlier one. Which entries repeat each other is said by an order: those that compare
as equal.
-/

namespace FeatureGuard

/-- The entries of a list, parted into first occurrences and repetitions, each in their order. -/
structure Sifted (α : Type) where
  first : List α := []
  repeated : List α := []
  deriving DecidableEq

namespace Sifted

variable {α : Type} {cmp : α → α → Ordering}

/-- Sifts a list, where the entries of a set count as having occurred already. -/
def after (seen : Std.TreeSet α cmp) : List α → Sifted α
  | [] => {}
  | a :: rest =>
    let sifted := after (seen.insert a) rest
    if seen.contains a then { sifted with repeated := a :: sifted.repeated }
    else { sifted with first := a :: sifted.first }

/-- Sifts a list by an order. -/
def ofList (cmp : α → α → Ordering) (entries : List α) : Sifted α :=
  after (∅ : Std.TreeSet α cmp) entries

variable [Std.TransCmp cmp]

theorem not_mem_of_mem_first {seen : Std.TreeSet α cmp} {entries : List α} {a : α}
    (h : a ∈ (after seen entries).first) : a ∉ seen := by
  induction entries generalizing seen with
  | nil => simp [after] at h
  | cons b rest ih =>
    have hrest : a ∈ (after (seen.insert b) rest).first → a ∉ seen.insert b := ih
    simp only [after] at h
    split at h
    · exact fun ha => hrest h (Std.TreeSet.mem_insert.2 (.inr ha))
    · rename_i hb
      rcases List.mem_cons.1 h with rfl | h
      · exact fun ha => hb ha
      · exact fun ha => hrest h (Std.TreeSet.mem_insert.2 (.inr ha))

/-- No two first occurrences repeat each other. -/
theorem pairwise_first (entries : List α) (seen : Std.TreeSet α cmp) :
    (after seen entries).first.Pairwise fun a b => ¬cmp a b = .eq := by
  induction entries generalizing seen with
  | nil => simp [after]
  | cons b rest ih =>
    simp only [after]
    split
    · exact ih _
    · refine List.pairwise_cons.2 ⟨fun a ha hab => ?_, ih _⟩
      exact not_mem_of_mem_first ha (Std.TreeSet.mem_insert.2 (.inl hab))

end Sifted

end FeatureGuard
