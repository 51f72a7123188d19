import FeatureGuard.Text.Basic

/-!
Keyed lists: the entries of a table or a directory. Each key occurs at most once in them, in the
order in which the keys were first set.
-/

namespace FeatureGuard

abbrev Keyed (α : Type) := List (Text × α)

namespace Keyed

variable {α : Type}

/-- The value of a key. -/
def get? (key : Text) : Keyed α → Option α
  | [] => none
  | (k, a) :: rest => if k = key then some a else get? key rest

/-- Sets the value of a key, in its old place or else at the end. -/
def set (key : Text) (a : α) : Keyed α → Keyed α
  | [] => [(key, a)]
  | (k, b) :: rest => if k = key then (key, a) :: rest else (k, b) :: set key a rest

/-- Removes a key. -/
def erase (key : Text) (entries : Keyed α) : Keyed α := entries.filter (·.1 ≠ key)

theorem get?_set {key other : Text} {a : α} {entries : Keyed α} :
    get? other (set key a entries) = if key = other then some a else get? other entries := by
  induction entries with
  | nil => simp [set, get?]
  | cons e rest ih =>
    obtain ⟨k, b⟩ := e
    simp only [set]
    split
    · rename_i hk
      subst hk
      simp only [get?]
      split <;> rfl
    · rename_i hk
      simp only [get?, ih]
      split
      · rename_i ho
        subst ho
        simp [Ne.symm hk]
      · rfl

theorem get?_erase {key other : Text} {entries : Keyed α} :
    get? other (erase key entries) = if key = other then none else get? other entries := by
  induction entries with
  | nil => simp [erase, get?]
  | cons e rest ih =>
    obtain ⟨k, b⟩ := e
    simp only [erase, List.filter_cons] at ih ⊢
    by_cases hk : k = key
    · subst hk
      simp only [ne_eq, not_true_eq_false, decide_false, Bool.false_eq_true, if_false, ih, get?]
      split <;> rfl
    · simp only [ne_eq, hk, not_false_eq_true, decide_true, if_true, get?, ih]
      split
      · rename_i ho
        subst ho
        simp [Ne.symm hk]
      · rfl

end Keyed

end FeatureGuard
