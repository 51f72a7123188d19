import FeatureGuard.Proofs.Settings.Reading
import FeatureGuard.Proofs.Settings.Setting
import FeatureGuard.Settings.Load

/-!
Sources of settings. A file holds a setting as an entry of its section, and the environment in a
variable whose name is made of the two keys. Laid over each other, the sources make a tree in which
the entry of a setting is that of its variable, if there is one, and else that of the file; no other
entry or variable has a part in it.
-/

namespace FeatureGuard

open Settings (lowered variablePrefix variableKey? environmentEntries)

/-! ### Trees that hold settings -/

namespace Tree

/-- A table whose sections hold these entries for the settings. -/
structure Shows (t : Tree) (entry : Setting → Option Tree) : Prop where
  table : ∃ origin entries, t = .table origin entries
  own (x : Setting) : ∃ own, t.HasSection x.home own ∧ Keyed.get? x.key own = entry x

theorem set_eq_table (t : Tree) (path : KeyPath) (value : Tree) :
    ∃ origin entries, t.set path value = .table origin entries := by
  rw [set, mapEntry]
  cases t with
  | table origin entries => exact ⟨origin, _, rfl⟩
  | scalar _ _ => exact ⟨none, _, rfl⟩
  | array _ _ => exact ⟨none, _, rfl⟩

theorem layer_eq_table (source : Keyed Tree) {t : Tree}
    (ht : ∃ origin entries, t = .table origin entries) :
    ∃ origin entries, t.layer source = .table origin entries := by
  induction source generalizing t with
  | nil => exact ht
  | cons e rest ih => exact ih (set_eq_table t (.ofText e.1) e.2)

end Tree

namespace Setting

variable {x y : Setting} {t : Tree} {entry : Setting → Option Tree} {file : Keyed Tree}
  {environment : Keyed Text} {name : Text} {origin : Text}

/-! ### The environment -/

/-- The name of the variable that holds a setting, in any case. -/
def Names (x : Setting) (name : Text) : Prop :=
  name.map lowered = variablePrefix ++ x.home ++ "__" ++ x.key

instance : Decidable (x.Names name) := inferInstanceAs (Decidable (_ = _))

/-- The value of the variable that holds a setting. -/
def override? (x : Setting) (environment : Keyed Text) : Option Text :=
  (environment.find? fun e => x.Names e.1).map Prod.snd

/-- The value of a variable, as it stands in the tree. -/
def spoken (value : Text) : Tree := .scalar (some "the environment") (.string value)

/-- At most one variable holds each setting, and its value is one that the setting can have. All
other variables have names without the prefix. -/
structure Overrides (environment : Keyed Text) : Prop where
  known : ∀ e ∈ environment,
    ¬variablePrefix <+: e.1.map lowered ∨ ∃ x : Setting, x.Names e.1 ∧ ∃ v, x.Spells (spoken e.2) v
  once : environment.Pairwise fun e e' => ∀ x : Setting, x.Names e.1 → ¬x.Names e'.1

theorem isPrefix_of_names (h : x.Names name) : variablePrefix <+: name.map lowered := by
  rw [h, List.append_assoc, List.append_assoc]
  exact List.prefix_append _ _

theorem variableKey?_of_names (h : x.Names name) :
    variableKey? name = some (x.home ++ '.' :: x.key) := by
  rw [variableKey?, h]
  cases x <;> decide

theorem variableKey?_eq_none (h : ¬variablePrefix <+: name.map lowered) :
    variableKey? name = none := by
  rw [variableKey?, if_neg (by rwa [List.isPrefixOf_iff_prefix])]

/-- A variable holds one setting only, since its name gives the keys. -/
theorem eq_of_names (h : x.Names name) (h' : y.Names name) : x = y := by
  have hkey : x.home ++ '.' :: x.key = y.home ++ '.' :: y.key :=
    Option.some.inj ((variableKey?_of_names h).symm.trans (variableKey?_of_names h'))
  have hpath := congrArg KeyPath.ofText hkey
  rw [ofText_place, ofText_place] at hpath
  injection hpath with _ hsteps
  injection hsteps with hstep
  injection hstep with hkey
  exact eq_of_key_eq hkey

theorem override?_cons_of_names (h : x.Names name) (value : Text) :
    x.override? ((name, value) :: environment) = some value := by
  simp [override?, h]

theorem override?_cons_of_not_names (h : ¬x.Names name) (value : Text) :
    x.override? ((name, value) :: environment) = x.override? environment := by
  rw [override?, List.find?_cons_of_neg (by simpa using h), override?]

theorem override?_eq_none (h : ∀ e ∈ environment, ¬x.Names e.1) :
    x.override? environment = none := by
  rw [override?, List.find?_eq_none.2 fun e he => by simpa using h e he]
  rfl

end Setting

namespace Tree.Shows

variable {t : Tree} {entry : Setting → Option Tree} {environment : Keyed Text}

/-- A variable changes the entry of its setting and leaves those of the others. -/
theorem set (h : t.Shows entry) (x : Setting) (value : Text) :
    (t.set ⟨x.home, [.key x.key]⟩ (Setting.spoken value)).Shows
      (Function.update entry x (some (Setting.spoken value))) where
  table := set_eq_table t _ _
  own y := by
    obtain ⟨own, hsection, hentry⟩ := h.own y
    by_cases hhome : x.home = y.home
    · rw [hhome]
      refine ⟨_, hsection.set_key x.key (Setting.spoken value), ?_⟩
      rw [Keyed.get?_set]
      by_cases hxy : x = y
      · subst hxy
        rw [if_pos rfl, Function.update_self, Setting.spoken, covering_scalar]
      · rw [if_neg fun hkey => hxy (Setting.eq_of_key_eq hkey),
          Function.update_of_ne (Ne.symm hxy), hentry]
    · refine ⟨own, hsection.set_of_ne hhome, ?_⟩
      rw [Function.update_of_ne fun hyx => hhome (by rw [hyx]), hentry]

/-- The environment changes the entries of the settings that it holds. -/
theorem layer_environment (h : t.Shows entry) (henvironment : Setting.Overrides environment) :
    (t.layer (environmentEntries environment)).Shows fun x =>
      ((x.override? environment).map Setting.spoken).or (entry x) := by
  induction environment generalizing t entry with
  | nil => exact h
  | cons e rest ih =>
      obtain ⟨name, value⟩ := e
      obtain ⟨hknown, hrest⟩ := List.forall_mem_cons.1 henvironment.known
      obtain ⟨honce, hpairwise⟩ := List.pairwise_cons.1 henvironment.once
      rcases hknown with hforeign | ⟨x, hx, -⟩
      · have hentries : environmentEntries ((name, value) :: rest) = environmentEntries rest := by
          rw [environmentEntries, List.filterMap_cons_none]
          · rfl
          · simp [Setting.variableKey?_eq_none hforeign]
        have hoverride (y : Setting) :
            y.override? ((name, value) :: rest) = y.override? rest :=
          Setting.override?_cons_of_not_names
            (fun hy => hforeign (Setting.isPrefix_of_names hy)) value
        simp only [hentries, hoverride]
        exact ih h ⟨hrest, hpairwise⟩
      · have hentries : environmentEntries ((name, value) :: rest) =
            (x.home ++ '.' :: x.key, Setting.spoken value) :: environmentEntries rest := by
          rw [environmentEntries, List.filterMap_cons_some]
          · rfl
          · simp [Setting.variableKey?_of_names hx, Setting.spoken]
        have hoverride (y : Setting) :
            ((y.override? ((name, value) :: rest)).map Setting.spoken).or (entry y) =
              ((y.override? rest).map Setting.spoken).or
                (Function.update entry x (some (Setting.spoken value)) y) := by
          by_cases hyx : y = x
          · subst hyx
            rw [Setting.override?_cons_of_names hx,
              Setting.override?_eq_none fun e he => honce e he y hx, Function.update_self]
            rfl
          · rw [Setting.override?_cons_of_not_names (fun hy => hyx (Setting.eq_of_names hy hx)),
              Function.update_of_ne hyx]
        simp only [hentries, hoverride]
        show ((t.set (KeyPath.ofText _) _).layer _).Shows _
        rw [Setting.ofText_place]
        exact ih (h.set x value) ⟨hrest, hpairwise⟩

end Tree.Shows

/-! ### Files -/

namespace Setting

variable {x : Setting} {t : Tree} {file : Keyed Tree} {origin : Text}

/-- The entry of a setting in a file. -/
def entry? (x : Setting) (file : Keyed Tree) : Option Tree :=
  (Keyed.get? x.home file).bind fun own => Keyed.get? x.key own.entries

/-- The sections of a file are tables, and the entries of settings in them are values that the
settings can have. -/
structure WellTyped (file : Keyed Tree) : Prop where
  table : ∀ x : Setting, ∀ own, Keyed.get? x.home file = some own →
    ∃ origin entries, own = .table origin entries
  spelled : ∀ x : Setting, ∀ t, x.entry? file = some t → ∃ v, x.Spells t v

/-- No key of a file but a section's own leads to a section. -/
def Apart (file : Keyed Tree) : Prop :=
  ∀ e ∈ file, e.1 ∉ homes → (KeyPath.ofText e.1).root ∉ homes

end Setting

namespace Tree

variable {file : Keyed Tree} {origin : Text}

theorem fromEntries_eq_map (origin : Text) (entries : Keyed Tree) :
    fromEntries origin entries = entries.map fun e => (e.1, e.2.writtenIn origin) := by
  induction entries with
  | nil => rfl
  | cons e rest ih =>
      rw [fromEntries, ih]
      rfl

theorem keys_fromEntries (origin : Text) (entries : Keyed Tree) :
    Keyed.keys (fromEntries origin entries) = Keyed.keys entries := by
  rw [fromEntries_eq_map, Keyed.keys_map]

theorem get?_fromEntries (origin : Text) (entries : Keyed Tree) (key : Text) :
    Keyed.get? key (fromEntries origin entries) =
      (Keyed.get? key entries).map (writtenIn origin) := by
  rw [fromEntries_eq_map, Keyed.get?_map]

/-- A file over nothing shows its entries. -/
theorem shows_file (hcomplete : Keyed.Complete file) (htyped : Setting.WellTyped file)
    (hapart : Setting.Apart file) (origin : Text) :
    ((table none []).layer (fromEntries origin file)).Shows fun x =>
      (x.entry? file).map (laid origin) where
  table := layer_eq_table _ ⟨none, [], rfl⟩
  own x := by
    have hempty : (table none []).HasSection x.home [] := .absent rfl
    have hnodup : (Keyed.keys (fromEntries origin file)).Nodup := by
      rw [keys_fromEntries]
      exact hcomplete.nodup
    have htable : ∀ own, Keyed.get? x.home (fromEntries origin file) = some own →
        ∃ origin new, own = table origin new := by
      intro own hown
      rw [get?_fromEntries, Option.map_eq_some_iff] at hown
      obtain ⟨written, hwritten, rfl⟩ := hown
      obtain ⟨_, entries, rfl⟩ := htyped.table x written hwritten
      exact ⟨some origin, fromEntries origin entries, rfl⟩
    have hother : ∀ e ∈ fromEntries origin file, e.1 ≠ x.home →
        (KeyPath.ofText e.1).root ≠ x.home := by
      intro e he hne
      rw [fromEntries_eq_map, List.mem_map] at he
      obtain ⟨written, hwritten, rfl⟩ := he
      by_cases hmem : written.1 ∈ Setting.homes
      · rw [Setting.ofText_of_mem_homes hmem]
        exact hne
      · exact fun heq => hapart written hwritten hmem (heq ▸ x.home_mem_homes)
    refine ⟨_, hempty.layer hnodup (Setting.ofText_of_mem_homes x.home_mem_homes) htable hother, ?_⟩
    rw [get?_fromEntries, Setting.entry?]
    cases hget : Keyed.get? x.home file with
    | none => rfl
    | some own =>
        obtain ⟨_, entries, rfl⟩ := htyped.table x own hget
        have hentries : (Keyed.keys (fromEntries origin entries)).Nodup := by
          rw [keys_fromEntries]
          exact (hcomplete.of_get? hget).nodup
        show Keyed.get? x.key (coveringEntries (fromEntries origin entries) []) =
          (Keyed.get? x.key entries).map (laid origin)
        rw [get?_coveringEntries hentries, get?_fromEntries]
        cases Keyed.get? x.key entries <;> rfl

end Tree

/-! ### Both together -/

namespace Setting

variable {x : Setting} {value : Option Text} {entry : Option Tree} {v v' : x.Value}
  {file : Keyed Tree} {environment : Keyed Text}

/-- The value of a setting by its variable, else by its entry in the file, else by default. -/
inductive Takes (x : Setting) : Option Text → Option Tree → x.Value → Prop
  | override {value : Text} {entry : Option Tree} {v : x.Value} :
      x.Spells (spoken value) v → Takes x (some value) entry v
  | entry {t : Tree} {v : x.Value} : x.Spells t v → Takes x none (some t) v
  | usual : Takes x none none x.usual

theorem Takes.unique (h : x.Takes value entry v) (h' : x.Takes value entry v') : v = v' := by
  cases h with
  | override h =>
      cases h' with
      | override h' => exact h.unique h'
  | entry h =>
      cases h' with
      | entry h' => exact h.unique h'
  | usual =>
      cases h'
      rfl

theorem Takes.reads (h : x.Takes value entry v) (origin : Text) :
    Tree.Reads (fun t => x.decode t) x.usual
      ((value.map spoken).or (entry.map (Tree.laid origin))) v := by
  cases h with
  | override h => exact .given (decode_eq_ok_iff.2 h)
  | entry h => exact .given (decode_eq_ok_iff.2 (h.laid origin))
  | usual => exact .missing

theorem exists_takes (htyped : WellTyped file) (henvironment : Overrides environment)
    (x : Setting) : ∃ v, x.Takes (x.override? environment) (x.entry? file) v := by
  cases hoverride : x.override? environment with
  | some value =>
      obtain ⟨e, hfind, rfl⟩ := Option.map_eq_some_iff.1 hoverride
      have hx : x.Names e.1 := by simpa using List.find?_some hfind
      rcases henvironment.known e (List.mem_of_find?_eq_some hfind) with hforeign | ⟨y, hy, v, hv⟩
      · exact absurd (isPrefix_of_names hx) hforeign
      · obtain rfl := eq_of_names hx hy
        exact ⟨v, .override hv⟩
  | none =>
      cases hentry : x.entry? file with
      | some t =>
          obtain ⟨v, hv⟩ := htyped.spelled x t hentry
          exact ⟨v, .entry hv⟩
      | none => exact ⟨x.usual, .usual⟩

/-- A file and the environment give each setting its own value. -/
theorem exists_ofSources (hcomplete : Keyed.Complete file) (htyped : WellTyped file)
    (hapart : Apart file) (henvironment : Overrides environment) (origin : Text) :
    ∃ settings, Settings.ofSources (Tree.fromEntries origin file)
        (environmentEntries environment) = .ok settings ∧
      ∀ x : Setting, x.Takes (x.override? environment) (x.entry? file) (x.get settings) := by
  choose values hvalues using exists_takes htyped henvironment
  have hshows := (Tree.shows_file hcomplete htyped hapart origin).layer_environment henvironment
  obtain ⟨_, _, htable⟩ := hshows.table
  refine ⟨gather values, ?_, fun x => ?_⟩
  · rw [Settings.ofSources, ofTree_eq htable]
    · rfl
    · intro x
      obtain ⟨own, hsection, hentry⟩ := hshows.own x
      refine ⟨own, hsection, ?_⟩
      rw [ReadFrom, hentry]
      exact (hvalues x).reads origin
  · rw [get_gather]
    exact hvalues x

end Setting

end FeatureGuard
