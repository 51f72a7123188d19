import FeatureGuard.Proofs.Volume.Parent

/-!
Removing files. A file that can be read can also be written and removed, so that a path whose file
could not be removed has not named one. Where files are removed, every other file can still be read
under the same paths. Where directories are made as well, a path that has led nowhere may lead to a
file, but no file is new.
-/

namespace FeatureGuard.Volume

variable {v v' : Volume} {p : Path} {location : Location} {contents : ByteArray}

/-! ### Paths to files -/

/-- A directory stands in directories only. -/
theorem shape?_dropLast (h : v.shape? location = some .directory) :
    v.shape? location.dropLast = some .directory := by
  rcases List.eq_nil_or_concat location with rfl | ⟨front, name, rfl⟩
  · exact h
  · rw [List.concat_eq_append] at h ⊢
    rw [List.dropLast_concat]
    by_contra hfront
    rw [shape?, Node.shape?_append hfront (List.cons_ne_nil name [])] at h
    cases h

/-- A path names a file exactly when it leads to an entry of a directory where the file stands. -/
theorem read_eq_ok_iff : v.read p = .ok contents ↔
    ∃ directory name, v.Reaches p directory name ∧
      v.shape? (directory ++ [name]) = some (.file contents) := by
  have hread : v.read p = .ok contents ↔ v.node p = .ok (.file contents) := by
    rw [read]
    cases v.node p with
    | error fault => simp [bind, Except.bind]
    | ok node => cases node <;> simp [bind, Except.bind, pure, Except.pure]
  constructor
  · intro h
    obtain ⟨⟨directory, last, slash⟩, htarget, hfound, hslash⟩ :=
      exists_target_of_node (hread.1 h)
    have hdirectory := (target_eq_ok htarget).2.1
    -- only an entry that is named can be a file: the path has gone through directories before
    have hnot : ∀ {other : Location}, v.shape? other = some .directory →
        (.ok ((v.root.at? other).getD default) : Except Fault Node) ≠ .ok (.file contents) := by
      intro other hother heq
      obtain ⟨entries, hentries⟩ := Node.shape?_eq_directory_iff.1 hother
      rw [hentries] at heq
      cases heq
    cases last with
    | name name =>
        obtain ⟨-, hshort, hat⟩ := lookup_eq_ok_iff.1 hfound
        have hnoSlash : slash = false := Bool.eq_false_iff.2 fun htrue => by cases hslash htrue
        exact ⟨directory, name, ⟨hnoSlash ▸ htarget, hshort⟩, shape?_eq_of_at? hat⟩
    | here => exact absurd hfound (hnot hdirectory)
    | up => exact absurd hfound (hnot (shape?_dropLast hdirectory))
  · rintro ⟨directory, name, hreaches, hfile⟩
    rwa [hreaches.read_eq_ok_iff, hreaches.place_eq]

theorem isFile_eq_true_iff : v.isFile p = true ↔ ∃ contents, v.read p = .ok contents := by
  rw [isFile, read]
  cases v.node p with
  | error fault => simp [bind, Except.bind]
  | ok node => cases node <;> simp [Node.isDirectory, bind, Except.bind, pure, Except.pure]

/-- What is read under a path stands at the place of the path. -/
theorem shape?_of_read (h : v.read p = .ok contents) :
    v.shape? (p.place v.home) = some (.file contents) := by
  obtain ⟨directory, name, hreaches, hfile⟩ := read_eq_ok_iff.1 h
  rwa [hreaches.place_eq]

theorem isFile_eq_false_iff : v.isFile p = false ↔ ∀ contents, v.read p ≠ .ok contents := by
  rw [← Bool.not_eq_true, isFile_eq_true_iff, not_exists]

theorem Reaches.shape?_ne_file {directory : Location} {name : Text} (h : v.Reaches p directory name)
    (hmissing : v.isFile p = false) : v.shape? (p.place v.home) ≠ some (.file contents) :=
  fun hfile => isFile_eq_false_iff.1 hmissing contents (h.read_eq_ok_iff.2 hfile)

/-- Directories are only added, so that a path that has led somewhere has led to the same entry. -/
theorem Keeps.reaches_back (h : v.Keeps v') {t : Target} (ht : v.target p = .ok t)
    {directory : Location} {name : Text} (hreaches : v'.Reaches p directory name) :
    v.Reaches p directory name := by
  obtain rfl := Except.ok.inj ((h.target ht).symm.trans hreaches.target)
  exact ⟨ht, hreaches.short⟩

theorem exists_write (h : v.read p = .ok contents) (new : ByteArray) :
    ∃ v', v.write p new = .ok v' := by
  obtain ⟨directory, name, hreaches, hfile⟩ := read_eq_ok_iff.1 h
  have hlookup := lookup_eq_ok_iff.2
    ⟨hreaches.shape?_directory, hreaches.short, Node.shape?_eq_file_iff.1 hfile⟩
  refine ⟨v.put directory name (.file new), ?_⟩
  rw [write, change, hreaches.target]
  simp [bind, Except.bind, hlookup, pure, Except.pure]

theorem exists_unlink (h : v.read p = .ok contents) : ∃ v', v.unlink p = .ok v' := by
  obtain ⟨directory, name, hreaches, hfile⟩ := read_eq_ok_iff.1 h
  have hlookup := lookup_eq_ok_iff.2
    ⟨hreaches.shape?_directory, hreaches.short, Node.shape?_eq_file_iff.1 hfile⟩
  refine ⟨{ v with root := v.root.remove directory name }, ?_⟩
  rw [unlink, hreaches.target]
  simp [bind, Except.bind, hlookup, pure, Except.pure]

/-- A file that was removed is missing where it stood. -/
theorem unlink_eq_ok (h : v.unlink p = .ok v') : (∃ contents, v.read p = .ok contents) ∧
    v'.home = v.home ∧ v'.shape? = Function.update v.shape? (p.place v.home) none := by
  rw [unlink] at h
  obtain ⟨⟨directory, last, slash⟩, htarget, h⟩ := exists_of_bind_eq_ok h
  cases last with
  | name name =>
      obtain ⟨node, hlookup, h⟩ := exists_of_bind_eq_ok h
      cases node with
      | directory entries => cases h
      | file contents =>
          obtain ⟨hslash, h⟩ := of_guard_eq_ok h
          obtain ⟨hdirectory, hshort, hat⟩ := lookup_eq_ok_iff.1 hlookup
          obtain rfl : slash = false := Bool.eq_false_iff.2 hslash
          have hreaches : v.Reaches p directory name := ⟨htarget, hshort⟩
          have hfile : v.shape? (directory ++ [name]) = some (.file contents) :=
            shape?_eq_of_at? hat
          obtain rfl := Except.ok.inj h
          refine ⟨⟨contents, read_eq_ok_iff.2 ⟨directory, name, hreaches, hfile⟩⟩, rfl, ?_⟩
          rw [hreaches.place_eq]
          exact Node.shape?_remove hdirectory (by rw [← shape?, hfile]; simp)
  | here => cases h
  | up => cases h

/-! ### Volumes with fewer files -/

/-- The second volume is the first one without some of the files at certain places. -/
structure Sheds (v v' : Volume) (places : Set Location) : Prop where
  home : v'.home = v.home
  shape : ∀ location, v'.shape? location = v.shape? location ∨
    location ∈ places ∧ (∃ contents, v.shape? location = some (.file contents)) ∧
      v'.shape? location = none

namespace Sheds

variable {v'' : Volume} {places places' : Set Location}

protected theorem refl (v : Volume) (places : Set Location) : v.Sheds v places :=
  ⟨rfl, fun _ => .inl rfl⟩

protected theorem trans (h : v.Sheds v' places) (h' : v'.Sheds v'' places') :
    v.Sheds v'' (places ∪ places') where
  home := h'.home.trans h.home
  shape location := by
    rcases h.shape location with hsame | ⟨hmem, hfile, hnone⟩
    · rcases h'.shape location with hsame' | ⟨hmem', hfile', hnone'⟩
      · exact .inl (hsame'.trans hsame)
      · exact .inr ⟨.inr hmem', hsame ▸ hfile', hnone'⟩
    · rcases h'.shape location with hsame' | ⟨-, -, hnone'⟩
      · exact .inr ⟨.inl hmem, hfile, hsame'.trans hnone⟩
      · exact .inr ⟨.inl hmem, hfile, hnone'⟩

theorem of_unlink (h : v.unlink p = .ok v') : v.Sheds v' {p.place v.home} := by
  obtain ⟨⟨contents, hread⟩, hhome, hshape⟩ := unlink_eq_ok h
  refine ⟨hhome, fun location => ?_⟩
  rw [hshape, Function.update_apply]
  split
  · rename_i heq
    exact .inr ⟨heq, ⟨contents, heq ▸ shape?_of_read hread⟩, rfl⟩
  · exact .inl rfl

theorem shape?_eq_directory_iff (h : v.Sheds v' places) :
    v'.shape? location = some .directory ↔ v.shape? location = some .directory := by
  rcases h.shape location with hsame | ⟨-, ⟨contents, hfile⟩, hnone⟩
  · rw [hsame]
  · simp [hfile, hnone]

theorem keeps (h : v.Sheds v' places) : v.Keeps v' :=
  ⟨h.home, fun _ => h.shape?_eq_directory_iff.2⟩

theorem keeps_back (h : v.Sheds v' places) : v'.Keeps v :=
  ⟨h.home.symm, fun _ => h.shape?_eq_directory_iff.1⟩

theorem shape?_of_file (h : v.Sheds v' places)
    (hfile : v'.shape? location = some (.file contents)) :
    v.shape? location = some (.file contents) := by
  rcases h.shape location with hsame | ⟨-, -, hnone⟩
  · rwa [← hsame]
  · rw [hnone] at hfile
    cases hfile

theorem shape?_of_not_mem (h : v.Sheds v' places) (hlocation : location ∉ places) :
    v'.shape? location = v.shape? location :=
  (h.shape location).resolve_right fun hmem => hlocation hmem.1

/-- No path names another file than before. -/
theorem read_of_read (h : v.Sheds v' places) (hread : v'.read p = .ok contents) :
    v.read p = .ok contents := by
  obtain ⟨directory, name, hreaches, hfile⟩ := read_eq_ok_iff.1 hread
  exact read_eq_ok_iff.2 ⟨directory, name, h.keeps_back.reaches hreaches, h.shape?_of_file hfile⟩

theorem isFile_eq_false (h : v.Sheds v' places) (hmissing : v.isFile p = false) :
    v'.isFile p = false := by
  rw [isFile_eq_false_iff] at *
  exact fun contents hread => hmissing contents (h.read_of_read hread)

end Sheds

/-- A file that was written and is missing in the end has only taken away what was there before. -/
theorem Sheds.of_write (hwrite : v.write p contents = .ok v')
    {v'' : Volume} (h : v'.Sheds v'' {p.place v'.home}) (hmissing : v''.isFile p = false) :
    v.Sheds v'' {p.place v.home} := by
  obtain ⟨hadmits, hhome, hshape⟩ := write_eq_ok hwrite
  obtain ⟨directory, name, hreaches⟩ := hadmits.reaches
  have hgone : v''.shape? (p.place v''.home) ≠ some (.file contents) :=
    (((Keeps.of_write hwrite).trans h.keeps).reaches hreaches).shape?_ne_file hmissing
  rw [h.home] at hgone
  rw [hhome] at h hgone
  refine ⟨h.home.trans hhome, fun location => ?_⟩
  by_cases hlocation : location = p.place v.home
  · subst hlocation
    have hnone : v''.shape? (p.place v.home) = none := by
      rcases h.shape (p.place v.home) with hsame | ⟨-, -, hnone⟩
      · rw [hshape, Function.update_self] at hsame
        exact absurd hsame hgone
      · exact hnone
    rw [hnone]
    cases hbefore : v.shape? (p.place v.home) with
    | none => exact .inl rfl
    | some shape =>
        cases shape with
        | file old => exact .inr ⟨rfl, ⟨old, rfl⟩, rfl⟩
        | directory => exact absurd hbefore hadmits.free
  · refine .inl ?_
    rw [h.shape?_of_not_mem hlocation, hshape, Function.update_of_ne hlocation]

/-- The second volume has no files at certain places. No file of it is new, and none is missing except
there and at places that were spoiled. No directory is missing. -/
structure Clears (v v' : Volume) (places spoiled : Set Location) : Prop where
  keeps : v.Keeps v'
  cleared : ∀ location ∈ places, ∀ contents, v'.shape? location ≠ some (.file contents)
  old : ∀ location contents, v'.shape? location = some (.file contents) →
    v.shape? location = some (.file contents)
  kept : ∀ location ∉ places, location ∉ spoiled → ∀ contents,
    v.shape? location = some (.file contents) → v'.shape? location = some (.file contents)

namespace Clears

variable {places spoiled : Set Location}

theorem isFile_eq_false (h : v.Clears v' places spoiled) (hp : p.place v.home ∈ places) :
    v'.isFile p = false := by
  refine isFile_eq_false_iff.2 fun contents hread => ?_
  have hfile := shape?_of_read hread
  rw [h.keeps.home] at hfile
  exact h.cleared _ hp contents hfile

/-- A file that is named has been there. -/
theorem shape?_of_read (h : v.Clears v' places spoiled) (hread : v'.read p = .ok contents) :
    v.shape? (p.place v.home) = some (.file contents) := by
  have hfile := Volume.shape?_of_read hread
  rw [h.keeps.home] at hfile
  exact h.old _ contents hfile

theorem shape?_eq_file_iff (h : v.Clears v' places spoiled) (hplaces : location ∉ places)
    (hspoiled : location ∉ spoiled) :
    v'.shape? location = some (.file contents) ↔ v.shape? location = some (.file contents) :=
  ⟨h.old location contents, h.kept location hplaces hspoiled contents⟩

/-- A path that has led somewhere names the same file as before. -/
theorem read_iff (h : v.Clears v' places spoiled) {t : Target} (ht : v.target p = .ok t)
    (hplaces : p.place v.home ∉ places) (hspoiled : p.place v.home ∉ spoiled) :
    v'.read p = .ok contents ↔ v.read p = .ok contents := by
  constructor
  · intro hread
    obtain ⟨directory, name, hreaches, -⟩ := read_eq_ok_iff.1 hread
    have hbefore : v.Reaches p directory name := h.keeps.reaches_back ht hreaches
    exact hbefore.read_eq_ok_iff.2 (h.shape?_of_read hread)
  · intro hread
    obtain ⟨directory, name, hreaches, hfile⟩ := read_eq_ok_iff.1 hread
    rw [hreaches.place_eq] at hplaces hspoiled
    exact read_eq_ok_iff.2
      ⟨directory, name, h.keeps.reaches hreaches, h.kept _ hplaces hspoiled contents hfile⟩

end Clears

end FeatureGuard.Volume
