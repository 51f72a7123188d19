import FeatureGuard.Proofs.Keyed
import FeatureGuard.Settings.Json
import FeatureGuard.Settings.Toml.Document

/-!
Tables as they are read. In every table of a JSON text or a TOML document, and in every table within
it, each key stands once: the readers set keys one after the other, and a table that is not complete
yet has this property at every step.
-/

namespace FeatureGuard

namespace Keyed

variable {α : Type} {P : α → Prop} {key : Text} {a : α} {entries : Keyed α}

/-- Each key occurs once, and the values have a property. -/
structure Proper (P : α → Prop) (entries : Keyed α) : Prop where
  nodup : (keys entries).Nodup
  value : ∀ e ∈ entries, P e.2

theorem Proper.nil : Proper P [] := ⟨List.nodup_nil, List.forall_mem_nil _⟩

theorem Proper.set (h : Proper P entries) (ha : P a) : Proper P (Keyed.set key a entries) where
  nodup := nodup_keys_set h.nodup
  value e he := by
    rcases mem_set he with rfl | he
    · exact ha
    · exact h.value e he

theorem Proper.of_get? (h : Proper P entries) (hget : get? key entries = some a) : P a :=
  h.value _ (mem_of_get? hget)

end Keyed

/-- A tree whose tables have each of their keys once. -/
inductive Tree.WellKeyed : Tree → Prop
  | scalar (origin : Option Text) (value : Scalar) : WellKeyed (.scalar origin value)
  | array {origin : Option Text} {items : List Tree} :
      (∀ t ∈ items, WellKeyed t) → WellKeyed (.array origin items)
  | table {origin : Option Text} {entries : List (Text × Tree)} :
      (Keyed.keys entries).Nodup → (∀ e ∈ entries, WellKeyed e.2) → WellKeyed (.table origin entries)

theorem Tree.WellKeyed.nodup {origin : Option Text} {entries : List (Text × Tree)}
    (h : (Tree.table origin entries).WellKeyed) : (Keyed.keys entries).Nodup := by
  cases h with
  | table hnodup _ => exact hnodup

/-- Entries with each key once, and the same in all tables within them. -/
abbrev Keyed.Complete (entries : Keyed Tree) : Prop := entries.Proper Tree.WellKeyed

/-! ### JSON -/

namespace Json

def Frame.WellKeyed : Frame → Prop
  | array items => ∀ t ∈ items, t.WellKeyed
  | object entries _ => entries.Complete

namespace Machine

variable {m next : Machine} {token : Token} {value : Tree}

/-- What was put together so far has each key once in every table. -/
structure WellKeyed (m : Machine) : Prop where
  frames : ∀ f ∈ m.frames, f.WellKeyed
  result : ∀ t ∈ m.result, t.WellKeyed

theorem WellKeyed.deliver (h : m.WellKeyed) (hvalue : value.WellKeyed) :
    (m.deliver value).WellKeyed := by
  obtain ⟨hframes, hresult⟩ := h
  rw [Machine.deliver]
  split
  · exact ⟨hframes, by simpa using hvalue⟩
  · rename_i items frames heq
    rw [heq] at hframes
    obtain ⟨hitems, hrest⟩ := List.forall_mem_cons.1 hframes
    exact ⟨List.forall_mem_cons.2 ⟨List.forall_mem_cons.2 ⟨hvalue, hitems⟩, hrest⟩, hresult⟩
  · rename_i entries key frames heq
    rw [heq] at hframes
    obtain ⟨hentries, hrest⟩ := List.forall_mem_cons.1 hframes
    exact ⟨List.forall_mem_cons.2 ⟨Keyed.Proper.set hentries hvalue, hrest⟩, hresult⟩

theorem WellKeyed.push (h : m.WellKeyed) {frame : Frame} (hframe : frame.WellKeyed)
    {expected : Expectation} (hpush : m.push frame expected = some next) : next.WellKeyed := by
  rw [Machine.push] at hpush
  split_ifs at hpush
  obtain rfl := Option.some.inj hpush
  exact ⟨List.forall_mem_cons.2 ⟨hframe, h.frames⟩, h.result⟩

theorem WellKeyed.closeArray (h : m.WellKeyed) (hclose : m.closeArray = some next) :
    next.WellKeyed := by
  rw [Machine.closeArray] at hclose
  split at hclose
  · rename_i items frames heq
    obtain rfl := Option.some.inj hclose
    have hframes := h.frames
    rw [heq] at hframes
    obtain ⟨hitems, hrest⟩ := List.forall_mem_cons.1 hframes
    refine WellKeyed.deliver ⟨hrest, h.result⟩ (.array fun t ht => ?_)
    exact hitems t (List.mem_reverse.1 ht)
  · cases hclose

theorem WellKeyed.closeObject (h : m.WellKeyed) (hclose : m.closeObject = some next) :
    next.WellKeyed := by
  rw [Machine.closeObject] at hclose
  split at hclose
  · rename_i entries key frames heq
    obtain rfl := Option.some.inj hclose
    have hframes := h.frames
    rw [heq] at hframes
    obtain ⟨hentries, hrest⟩ := List.forall_mem_cons.1 hframes
    exact WellKeyed.deliver ⟨hrest, h.result⟩ (.table hentries.nodup hentries.value)
  · cases hclose

theorem WellKeyed.start (h : m.WellKeyed) (hstart : m.start token = some next) :
    next.WellKeyed := by
  unfold Machine.start at hstart
  split at hstart
  · obtain rfl := Option.some.inj hstart
    exact h.deliver (.scalar none _)
  · have hframe : (Frame.array []).WellKeyed := List.forall_mem_nil _
    exact h.push hframe hstart
  · have hframe : (Frame.object [] []).WellKeyed := Keyed.Proper.nil
    exact h.push hframe hstart
  · cases hstart

theorem WellKeyed.takeKey (h : m.WellKeyed) (htake : m.takeKey token = some next) :
    next.WellKeyed := by
  unfold Machine.takeKey at htake
  split at htake
  · split at htake
    · rename_i entries key frames heq
      obtain rfl := Option.some.inj htake
      have hframes := h.frames
      rw [heq] at hframes
      obtain ⟨hentries, hrest⟩ := List.forall_mem_cons.1 hframes
      exact ⟨List.forall_mem_cons.2 ⟨hentries, hrest⟩, h.result⟩
    · cases htake
  · cases htake

theorem WellKeyed.step (h : m.WellKeyed) (hstep : m.step token = some next) : next.WellKeyed := by
  have hexpect (expected : Expectation) : WellKeyed { m with expected } := ⟨h.frames, h.result⟩
  unfold Machine.step at hstep
  split at hstep
  · exact h.start hstep
  · split_ifs at hstep
    · exact h.closeArray hstep
    · exact h.start hstep
  · exact h.takeKey hstep
  · split_ifs at hstep
    · exact h.closeObject hstep
    · exact h.takeKey hstep
  · split_ifs at hstep
    obtain rfl := Option.some.inj hstep
    exact hexpect .value
  · split at hstep
    · obtain rfl := Option.some.inj hstep
      exact hexpect .value
    · obtain rfl := Option.some.inj hstep
      exact hexpect .key
    · exact h.closeArray hstep
    · exact h.closeObject hstep
    · cases hstep

theorem WellKeyed.run {tokens : List Token} (h : m.WellKeyed)
    (hrun : tokens.foldlM Machine.step m = some next) : next.WellKeyed := by
  induction tokens generalizing m with
  | nil =>
      obtain rfl := Option.some.inj hrun
      exact h
  | cons token tokens ih =>
      rw [List.foldlM_cons] at hrun
      obtain ⟨between, hstep, hrest⟩ := Option.bind_eq_some_iff.1 hrun
      exact ih (h.step hstep) hrest

end Machine

theorem wellKeyed_of_read? {t : Text} {tree : Tree} (h : read? t = some tree) :
    tree.WellKeyed := by
  obtain ⟨tokens, -, h⟩ := Option.bind_eq_some_iff.1 h
  obtain ⟨m, hrun, hresult⟩ := Option.bind_eq_some_iff.1 h
  have hstart : Machine.WellKeyed {} := ⟨List.forall_mem_nil _, by simp⟩
  exact (hstart.run hrun).result tree hresult

end Json

/-! ### TOML -/

namespace Toml

/-- A draft whose tables have each of their keys once. -/
inductive Draft.WellKeyed : Draft → Prop
  | value {t : Tree} : t.WellKeyed → WellKeyed (.value t)
  | table {standing : Standing} {entries : List (Text × Draft)} :
      (Keyed.keys entries).Nodup → (∀ e ∈ entries, WellKeyed e.2) →
      WellKeyed (.table standing entries)
  | tables {last : List (Text × Draft)} {earlier : List (List (Text × Draft))} :
      (∀ entries ∈ last :: earlier, (Keyed.keys entries).Nodup) →
      (∀ entries ∈ last :: earlier, ∀ e ∈ entries, WellKeyed e.2) →
      WellKeyed (.tables last earlier)

namespace Draft

variable {entries after : Keyed Draft}

/-- Entries of a draft with each key once, and the same in all tables within them. -/
abbrev Complete (entries : Keyed Draft) : Prop := entries.Proper WellKeyed

theorem complete_of_table {standing : Standing} {entries : List (Text × Draft)}
    (h : (table standing entries).WellKeyed) : Complete entries := by
  cases h with
  | table hnodup hvalue => exact ⟨hnodup, hvalue⟩

theorem wellKeyed_table (h : Complete entries) (standing : Standing) :
    (table standing entries).WellKeyed := .table h.nodup h.value

theorem complete_of_tables {last : List (Text × Draft)} {earlier : List (List (Text × Draft))}
    (h : (tables last earlier).WellKeyed) : ∀ entries ∈ last :: earlier, Complete entries := by
  cases h with
  | tables hnodup hvalue => exact fun entries h => ⟨hnodup entries h, hvalue entries h⟩

theorem wellKeyed_tables {last : Keyed Draft} {earlier : List (Keyed Draft)}
    (h : ∀ entries ∈ last :: earlier, Complete entries) : (tables last earlier).WellKeyed :=
  .tables (fun entries he => (h entries he).nodup) fun entries he => (h entries he).value

/-! #### Changes -/

theorem complete_within {change : Keyed Draft → Option (Keyed Draft)}
    (hchange : ∀ entries after, Complete entries → change entries = some after → Complete after)
    {keys : List Text} (h : Complete entries) (hwithin : within change keys entries = some after) :
    Complete after := by
  induction keys generalizing entries after with
  | nil => exact hchange entries after h hwithin
  | cons key keys ih =>
      rw [within] at hwithin
      split at hwithin
      · obtain ⟨inner, hinner, rfl⟩ := Option.map_eq_some_iff.1 hwithin
        exact h.set (wellKeyed_table (ih .nil hinner) .implied)
      · rename_i standing below hget
        obtain ⟨inner, hinner, rfl⟩ := Option.map_eq_some_iff.1 hwithin
        exact h.set (wellKeyed_table (ih (complete_of_table (h.of_get? hget)) hinner) standing)
      · rename_i last earlier hget
        obtain ⟨inner, hinner, rfl⟩ := Option.map_eq_some_iff.1 hwithin
        obtain ⟨hlast, hearlier⟩ := List.forall_mem_cons.1 (complete_of_tables (h.of_get? hget))
        exact h.set (wellKeyed_tables (List.forall_mem_cons.2 ⟨ih hlast hinner, hearlier⟩))
      · cases hwithin

theorem complete_openTable {key : Text} (h : Complete entries)
    (hopen : openTable key entries = some after) : Complete after := by
  rw [openTable] at hopen
  split at hopen
  · obtain rfl := Option.some.inj hopen
    exact h.set (wellKeyed_table .nil .headed)
  · rename_i inner hget
    obtain rfl := Option.some.inj hopen
    exact h.set (wellKeyed_table (complete_of_table (h.of_get? hget)) .headed)
  · cases hopen

theorem complete_openNext {key : Text} (h : Complete entries)
    (hopen : openNext key entries = some after) : Complete after := by
  rw [openNext] at hopen
  split at hopen
  · obtain rfl := Option.some.inj hopen
    exact h.set (wellKeyed_tables (List.forall_mem_singleton.2 .nil))
  · rename_i last earlier hget
    obtain rfl := Option.some.inj hopen
    have htables := complete_of_tables (h.of_get? hget)
    exact h.set (wellKeyed_tables (List.forall_mem_cons.2 ⟨.nil, htables⟩))
  · cases hopen

theorem complete_assign {value : Tree} (hvalue : value.WellKeyed) {own : Bool} {keys : List Text}
    (h : Complete entries) (hassign : assign value own keys entries = some after) :
    Complete after := by
  induction keys generalizing own entries after with
  | nil => cases hassign
  | cons key rest ih =>
      cases rest with
      | nil =>
          rw [assign] at hassign
          split_ifs at hassign
          obtain rfl := Option.some.inj hassign
          exact h.set (.value hvalue)
      | cons next rest =>
          rw [assign] at hassign
          · split at hassign
            · obtain ⟨inner, hinner, rfl⟩ := Option.map_eq_some_iff.1 hassign
              exact h.set (wellKeyed_table (ih .nil hinner) .dotted)
            · rename_i below hget
              obtain ⟨inner, hinner, rfl⟩ := Option.map_eq_some_iff.1 hassign
              exact h.set (wellKeyed_table (ih (complete_of_table (h.of_get? hget)) hinner) .dotted)
            · rename_i below hget
              obtain ⟨inner, hinner, rfl⟩ := Option.map_eq_some_iff.1 hassign
              exact h.set (wellKeyed_table (ih (complete_of_table (h.of_get? hget)) hinner) .implied)
            · cases hassign
          · simp

/-! #### Completion -/

theorem finishEntries_eq (entries : List (Text × Draft)) :
    finishEntries entries = entries.map fun e => (e.1, finish e.2) := by
  induction entries with
  | nil => rfl
  | cons e rest ih => rw [finishEntries, ih, List.map_cons]

theorem finishTables_eq (earlier : List (List (Text × Draft))) (later : List Tree) :
    finishTables earlier later =
      (earlier.map fun entries => Tree.table none (finishEntries entries)).reverse ++ later := by
  induction earlier generalizing later with
  | nil => rfl
  | cons entries earlier ih => rw [finishTables, ih]; simp

theorem keys_finishEntries (entries : Keyed Draft) :
    Keyed.keys (finishEntries entries) = Keyed.keys entries := by
  rw [finishEntries_eq, Keyed.keys_map]

theorem forall_mem_finishEntries {entries : List (Text × Draft)}
    (h : ∀ e ∈ entries, (finish e.2).WellKeyed) : ∀ e ∈ finishEntries entries, e.2.WellKeyed := by
  rw [finishEntries_eq, List.forall_mem_map]
  exact h

theorem wellKeyed_finish {d : Draft} (h : d.WellKeyed) : (finish d).WellKeyed := by
  induction h with
  | value h => exact h
  | table hnodup _ ih =>
      rw [finish]
      exact .table ((keys_finishEntries _).symm ▸ hnodup) (forall_mem_finishEntries ih)
  | @tables last earlier hnodup _ ih =>
      have htable : ∀ entries ∈ last :: earlier,
          (Tree.table none (finishEntries entries)).WellKeyed := fun entries he =>
        .table ((keys_finishEntries entries).symm ▸ hnodup entries he)
          (forall_mem_finishEntries (ih entries he))
      obtain ⟨hlast, hearlier⟩ := List.forall_mem_cons.1 htable
      rw [finish, finishTables_eq]
      refine .array (List.forall_mem_append.2 ⟨?_, List.forall_mem_singleton.2 hlast⟩)
      intro t ht
      obtain ⟨entries, he, rfl⟩ := List.mem_map.1 (List.mem_reverse.1 ht)
      exact hearlier entries he

theorem complete_finishEntries (h : Complete entries) : Keyed.Complete (finishEntries entries) where
  nodup := (keys_finishEntries entries).symm ▸ h.nodup
  value := forall_mem_finishEntries fun e he => wellKeyed_finish (h.value e he)

end Draft

/-! #### Reading -/

/-- What is read with some fuel has each key once in every table. -/
structure ReadsWell (fuel : ℕ) : Prop where
  value : ∀ {t value rest}, value? fuel t = some (value, rest) → value.WellKeyed
  items : ∀ {t items rest}, items? fuel t = some (items, rest) → ∀ item ∈ items, item.WellKeyed
  entries : ∀ {read t entries rest}, Draft.Complete read →
    entries? fuel read t = some (entries, rest) → Draft.Complete entries

namespace ReadsWell

variable {fuel : ℕ} {t rest : Text}

theorem value_succ (h : ReadsWell fuel) {value : Tree}
    (hread : value? (fuel + 1) t = some (value, rest)) : value.WellKeyed := by
  unfold value? at hread
  split at hread
  · obtain ⟨⟨items, after⟩, hitems, heq⟩ := Option.map_eq_some_iff.1 hread
    obtain ⟨rfl, -⟩ := Prod.mk.inj heq
    exact .array (h.items hitems)
  · obtain ⟨⟨entries, after⟩, hentries, heq⟩ := Option.map_eq_some_iff.1 hread
    obtain ⟨rfl, -⟩ := Prod.mk.inj heq
    have hcomplete := Draft.complete_finishEntries (h.entries .nil hentries)
    exact .table hcomplete.nodup hcomplete.value
  · obtain ⟨⟨s, after⟩, -, heq⟩ := Option.map_eq_some_iff.1 hread
    obtain ⟨rfl, -⟩ := Prod.mk.inj heq
    exact .scalar none _
  · obtain ⟨⟨s, after⟩, -, heq⟩ := Option.map_eq_some_iff.1 hread
    obtain ⟨rfl, -⟩ := Prod.mk.inj heq
    exact .scalar none _
  · obtain ⟨word, -, heq⟩ := Option.map_eq_some_iff.1 hread
    obtain ⟨rfl, -⟩ := Prod.mk.inj heq
    exact .scalar none _

theorem items_succ (h : ReadsWell fuel) {items : List Tree}
    (hread : items? (fuel + 1) t = some (items, rest)) : ∀ item ∈ items, item.WellKeyed := by
  unfold items? at hread
  split at hread
  · obtain ⟨rfl, -⟩ := Prod.mk.inj (Option.some.inj hread)
    exact List.forall_mem_nil _
  · obtain ⟨⟨item, after⟩, hitem, hread⟩ := Option.bind_eq_some_iff.1 hread
    have hfirst := h.value hitem
    dsimp only at hread
    split at hread
    · obtain ⟨rfl, -⟩ := Prod.mk.inj (Option.some.inj hread)
      exact List.forall_mem_singleton.2 hfirst
    · obtain ⟨⟨more, last⟩, hmore, hread⟩ := Option.bind_eq_some_iff.1 hread
      obtain ⟨rfl, -⟩ := Prod.mk.inj (Option.some.inj hread)
      exact List.forall_mem_cons.2 ⟨hfirst, h.items hmore⟩
    · cases hread

theorem entries_succ (h : ReadsWell fuel) {before entries : Keyed Draft}
    (hbefore : Draft.Complete before)
    (hread : entries? (fuel + 1) before t = some (entries, rest)) : Draft.Complete entries := by
  unfold entries? at hread
  split at hread
  · obtain ⟨rfl, -⟩ := Prod.mk.inj (Option.some.inj hread)
    exact hbefore
  · obtain ⟨⟨key, after⟩, -, hread⟩ := Option.bind_eq_some_iff.1 hread
    obtain ⟨⟨value, behind⟩, hvalue, hread⟩ := Option.bind_eq_some_iff.1 hread
    obtain ⟨next, hassign, hread⟩ := Option.bind_eq_some_iff.1 hread
    have hnext := Draft.complete_assign (h.value hvalue) hbefore hassign
    split at hread
    · obtain ⟨rfl, -⟩ := Prod.mk.inj (Option.some.inj hread)
      exact hnext
    · exact h.entries hnext hread
    · cases hread

end ReadsWell

theorem readsWell (fuel : ℕ) : ReadsWell fuel := by
  induction fuel with
  | zero =>
      refine ⟨fun h => ?_, fun h => ?_, fun _ h => ?_⟩
      · rw [value?] at h
        cases h
      · rw [items?] at h
        cases h
      · rw [entries?] at h
        cases h
  | succ fuel ih => exact ⟨ih.value_succ, ih.items_succ, ih.entries_succ⟩

variable {r r' : Reading} {t rest : Text}

theorem complete_header? {start : Text → Keyed Draft → Option (Keyed Draft)}
    (hstart : ∀ key entries after, Draft.Complete entries → start key entries = some after →
      Draft.Complete after) {closing : Text} (h : Draft.Complete r.entries)
    (hread : header? start closing r t = some (r', rest)) : Draft.Complete r'.entries := by
  obtain ⟨⟨key, after⟩, -, hread⟩ := Option.bind_eq_some_iff.1 hread
  dsimp only at hread
  split_ifs at hread
  obtain ⟨entries, hwithin, hread⟩ := Option.bind_eq_some_iff.1 hread
  obtain ⟨rfl, rfl⟩ := Prod.mk.inj (Option.some.inj hread)
  exact Draft.complete_within (hstart _) h hwithin

theorem complete_assignment? (h : Draft.Complete r.entries)
    (hread : assignment? r t = some (r', rest)) : Draft.Complete r'.entries := by
  obtain ⟨⟨key, after⟩, -, hread⟩ := Option.bind_eq_some_iff.1 hread
  obtain ⟨⟨value, behind⟩, hvalue, hread⟩ := Option.bind_eq_some_iff.1 hread
  obtain ⟨entries, hwithin, hread⟩ := Option.bind_eq_some_iff.1 hread
  obtain ⟨rfl, rfl⟩ := Prod.mk.inj (Option.some.inj hread)
  have hwell := (readsWell _).value hvalue
  exact Draft.complete_within (fun _ _ => Draft.complete_assign hwell) h hwithin

theorem complete_line? (h : Draft.Complete r.entries) (hread : line? r t = some (r', rest)) :
    Draft.Complete r'.entries := by
  unfold line? at hread
  split at hread
  · exact complete_header? (fun _ _ _ => Draft.complete_openNext) h hread
  · exact complete_header? (fun _ _ _ => Draft.complete_openTable) h hread
  · exact complete_assignment? h hread

theorem complete_lines? {fuel : ℕ} (h : Draft.Complete r.entries)
    (hread : lines? fuel r t = some r') : Draft.Complete r'.entries := by
  induction fuel generalizing r t with
  | zero =>
      rw [lines?] at hread
      cases hread
  | succ fuel ih =>
      rw [lines?] at hread
      split at hread
      · obtain rfl := Option.some.inj hread
        exact h
      · obtain ⟨⟨next, after⟩, hline, hread⟩ := Option.bind_eq_some_iff.1 hread
        obtain ⟨following, -, hread⟩ := Option.bind_eq_some_iff.1 hread
        exact ih (complete_line? h hline) hread

theorem complete_of_read? {entries : Keyed Tree} (h : read? t = some entries) :
    entries.Complete := by
  obtain ⟨r, hread, rfl⟩ := Option.map_eq_some_iff.1 h
  exact Draft.complete_finishEntries (complete_lines? .nil hread)

end Toml

end FeatureGuard
