import Mathlib.Data.List.Nodup
import FeatureGuard.Keyed

/-!
Keyed lists by their keys. Setting a key keeps the keys distinct, and where they are distinct the
value of a key is the one that stands beside it.
-/

namespace FeatureGuard.Keyed

variable {α β : Type} {key : Text} {a : α} {entries : Keyed α}

/-- The keys of entries. -/
def keys (entries : Keyed α) : List Text := entries.map Prod.fst

@[simp]
theorem keys_nil : keys ([] : Keyed α) = [] := rfl

@[simp]
theorem keys_cons (e : Text × α) (entries : Keyed α) : keys (e :: entries) = e.1 :: keys entries :=
  rfl

theorem mem_of_get? (h : get? key entries = some a) : (key, a) ∈ entries := by
  induction entries with
  | nil => cases h
  | cons e rest ih =>
      rw [get?] at h
      split_ifs at h with hkey
      · obtain rfl := Option.some.inj h
        rw [← hkey]
        exact List.mem_cons_self
      · exact List.mem_cons_of_mem e (ih h)

theorem get?_eq_none_iff : get? key entries = none ↔ key ∉ keys entries := by
  induction entries with
  | nil => simp [get?]
  | cons e rest ih =>
      rw [get?, keys_cons, List.mem_cons, not_or]
      split_ifs with hkey
      · simp [hkey]
      · simp [ih, Ne.symm hkey]

theorem keys_map (f : α → β) (entries : Keyed α) :
    keys (entries.map fun e => (e.1, f e.2)) = keys entries := by
  rw [keys, List.map_map]
  rfl

theorem get?_map (f : α → β) (entries : Keyed α) (key : Text) :
    get? key (entries.map fun e => (e.1, f e.2)) = (get? key entries).map f := by
  induction entries with
  | nil => rfl
  | cons e rest ih =>
      rw [List.map_cons, get?, get?]
      split_ifs
      · rfl
      · exact ih

theorem mem_set {e : Text × α} (h : e ∈ set key a entries) : e = (key, a) ∨ e ∈ entries := by
  induction entries with
  | nil => exact .inl (List.mem_singleton.1 h)
  | cons first rest ih =>
      rw [set] at h
      split_ifs at h with hkey
      · exact (List.mem_cons.1 h).imp_right (List.mem_cons_of_mem first)
      · rcases List.mem_cons.1 h with rfl | h
        · exact .inr List.mem_cons_self
        · exact (ih h).imp_right (List.mem_cons_of_mem first)

theorem nodup_keys_set (h : (keys entries).Nodup) : (keys (set key a entries)).Nodup := by
  induction entries with
  | nil => exact List.nodup_singleton key
  | cons first rest ih =>
      obtain ⟨hfirst, hrest⟩ := List.nodup_cons.1 h
      rw [set]
      split_ifs with hkey
      · rw [← hkey]
        exact h
      · refine List.nodup_cons.2 ⟨fun hmem => ?_, ih hrest⟩
        obtain ⟨e, he, heq⟩ := List.mem_map.1 hmem
        rcases mem_set he with rfl | he
        · exact hkey heq.symm
        · exact hfirst (List.mem_map.2 ⟨e, he, heq⟩)

end FeatureGuard.Keyed
