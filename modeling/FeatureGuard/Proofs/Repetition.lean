import FeatureGuard.Feature.Name

/-!
What sifting keeps of a list: the first occurrences are entries in their order, and every entry
repeats one of them. Where entries repeat each other that have the same key, the first occurrences
are the entries whose key no entry in an earlier place has.
-/

namespace FeatureGuard

namespace Sifted

variable {α : Type} {cmp : α → α → Ordering}

theorem first_sublist (seen : Std.TreeSet α cmp) (entries : List α) :
    (after seen entries).first.Sublist entries := by
  induction entries generalizing seen with
  | nil => exact List.Sublist.refl _
  | cons a rest ih =>
      simp only [after]
      split
      · exact (ih _).cons a
      · exact (ih _).cons_cons a

theorem mem_of_mem_first {entries : List α} {a : α} (ha : a ∈ (ofList cmp entries).first) :
    a ∈ entries :=
  (first_sublist ∅ entries).subset ha

variable [Std.TransCmp cmp]

theorem exists_mem_first {seen : Std.TreeSet α cmp} {entries : List α} {a : α}
    (ha : a ∈ entries) (hseen : a ∉ seen) : ∃ b ∈ (after seen entries).first, cmp b a = .eq := by
  induction entries generalizing seen with
  | nil => cases ha
  | cons b rest ih =>
      simp only [after]
      by_cases hab : cmp b a = .eq
      · -- `b` is new because `a` is, and it is the entry that `a` repeats
        have hb : b ∉ seen := fun hmem => hseen ((Std.TreeSet.mem_congr hab).1 hmem)
        rw [if_neg (by simpa using hb)]
        exact ⟨b, List.mem_cons_self, hab⟩
      · have hrest : a ∈ rest := by
          refine (List.mem_cons.1 ha).resolve_left ?_
          rintro rfl
          exact hab Std.ReflCmp.compare_self
        have hinsert : a ∉ seen.insert b := by
          rw [Std.TreeSet.mem_insert, not_or]
          exact ⟨hab, hseen⟩
        obtain ⟨c, hc, hca⟩ := ih hrest hinsert
        split
        · exact ⟨c, hc, hca⟩
        · exact ⟨c, List.mem_cons_of_mem _ hc, hca⟩

theorem exists_mem_first_ofList {entries : List α} {a : α} (ha : a ∈ entries) :
    ∃ b ∈ (ofList cmp entries).first, cmp b a = .eq :=
  exists_mem_first ha Std.TreeSet.not_mem_emptyc

theorem first_eq_nil_iff {entries : List α} : (ofList cmp entries).first = [] ↔ entries = [] := by
  constructor
  · intro h
    apply List.eq_nil_iff_forall_not_mem.2
    intro a ha
    have hfirst : ∃ b ∈ (ofList cmp entries).first, cmp b a = .eq := exists_mem_first_ofList ha
    obtain ⟨b, hb, -⟩ := hfirst
    rw [h] at hb
    cases hb
  · rintro rfl
    rfl

/-! ### Entries by their places -/

/-- The sifting of a list tells the entries that no earlier entry repeats from the others, whatever
the entries carry besides. -/
theorem after_map {γ : Type} {entry : γ → α} {isNew : γ → Prop} [DecidablePred isNew]
    {seen : Std.TreeSet α cmp} {past rest : List γ}
    (hseen : ∀ a, a ∈ seen ↔ ∃ b ∈ past, cmp (entry b) a = .eq)
    (hnew : ∀ before c behind, past ++ rest = before ++ c :: behind →
      (isNew c ↔ ∀ b ∈ before, cmp (entry b) (entry c) ≠ .eq)) :
    after seen (rest.map entry) =
      ⟨(rest.filter (isNew ·)).map entry, (rest.filter (¬isNew ·)).map entry⟩ := by
  induction rest generalizing seen past with
  | nil => rfl
  | cons c rest ih =>
      have hinsert : ∀ a, a ∈ seen.insert (entry c) ↔
          ∃ b ∈ past ++ [c], cmp (entry b) a = .eq := by
        intro a
        simp only [Std.TreeSet.mem_insert, hseen, List.mem_append, List.mem_singleton, or_and_right,
          exists_or, exists_eq_left]
        exact or_comm
      have hrest := ih hinsert fun before d behind heq => hnew before d behind (by simpa using heq)
      have hc : isNew c ↔ seen.contains (entry c) = false := by
        rw [hnew past c rest rfl, ← Bool.not_eq_true, Std.TreeSet.contains_iff_mem, hseen]
        simp
      rw [List.map_cons, after, hrest]
      by_cases h : isNew c
      · simp [h, hc.1 h]
      · simp [h, Bool.of_not_eq_false (mt hc.2 h)]

theorem ofList_map {γ : Type} {entry : γ → α} {isNew : γ → Prop} [DecidablePred isNew] {l : List γ}
    (hnew : ∀ before c behind, l = before ++ c :: behind →
      (isNew c ↔ ∀ b ∈ before, cmp (entry b) (entry c) ≠ .eq)) :
    ofList cmp (l.map entry) =
      ⟨(l.filter (isNew ·)).map entry, (l.filter (¬isNew ·)).map entry⟩ := by
  have hseen : ∀ a, a ∈ (∅ : Std.TreeSet α cmp) ↔ ∃ b ∈ ([] : List γ), cmp (entry b) a = .eq := by
    intro a
    simp
  exact after_map hseen hnew

section Keys

variable {κ : Type} {key : α → κ}

/-- No entry in an earlier place has the key of an entry. -/
def IsNew (key : α → κ) (entries : List α) (e : α × Nat) : Prop :=
  ∀ earlier ∈ entries.take e.2, key earlier ≠ key e.1

variable [DecidableEq κ]

instance (key : α → κ) (entries : List α) : DecidablePred (IsNew key entries) :=
  fun e => inferInstanceAs (Decidable (∀ earlier ∈ entries.take e.2, key earlier ≠ key e.1))

omit [Std.TransCmp cmp] [DecidableEq κ] in
theorem take_of_zipIdx_eq {entries : List α} {before behind : List (α × Nat)} {e : α × Nat}
    (h : entries.zipIdx = before ++ e :: behind) : entries.take e.2 = before.map Prod.fst := by
  have hplace : entries.zipIdx[before.length]? = some e := by
    rw [h, List.getElem?_append_right (Nat.le_refl _), Nat.sub_self]
    rfl
  have hentries : entries = before.map Prod.fst ++ e.1 :: behind.map Prod.fst := by
    rw [← List.zipIdx_map_fst 0 entries, h, List.map_append, List.map_cons]
  rw [List.getElem?_zipIdx, Option.map_eq_some_iff] at hplace
  obtain ⟨a, -, rfl⟩ := hplace
  rw [hentries, Nat.zero_add]
  exact List.take_left' (List.length_map _)

/-- The entry with a new key is the first one that is found with its key. -/
theorem exists_isNew_iff {entries : List α} {a : α} :
    (∃ place, (a, place) ∈ entries.zipIdx ∧ IsNew key entries (a, place)) ↔
      entries.find? (key · = key a) = some a := by
  rw [List.find?_eq_some_iff_append]
  constructor
  · rintro ⟨place, hmem, hnew⟩
    obtain ⟨before, behind, hsplit⟩ := List.append_of_mem hmem
    have hentries : entries = before.map Prod.fst ++ a :: behind.map Prod.fst := by
      rw [← List.zipIdx_map_fst 0 entries, hsplit, List.map_append, List.map_cons]
    refine ⟨decide_eq_true rfl, _, _, hentries, fun b hb => ?_⟩
    rw [← take_of_zipIdx_eq hsplit] at hb
    simpa using hnew b hb
  · rintro ⟨-, before, behind, rfl, hbefore⟩
    refine ⟨before.length, List.mem_zipIdx_iff_getElem?.2 (by simp), fun b hb => ?_⟩
    rw [List.take_left] at hb
    simpa using hbefore b hb

end Keys

end Sifted

theorem Name.mem_distinct {names : List Name} {name : Name} :
    name ∈ distinct names ↔ name ∈ names := by
  constructor
  · exact Sifted.mem_of_mem_first
  · intro h
    have hfirst : ∃ other ∈ distinct names, compare other name = .eq :=
      Sifted.exists_mem_first_ofList h
    obtain ⟨other, hother, heq⟩ := hfirst
    rwa [← Std.LawfulEqCmp.eq_of_compare heq]

end FeatureGuard
