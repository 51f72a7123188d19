import FeatureGuard.Proofs.Volume.Layout
import FeatureGuard.Proofs.Volume.Place

/-!
What operations on files do to the shape of a volume. An operation that succeeds has led to an entry
of a directory that exists, and changes what stands there, and nothing else.
-/

namespace FeatureGuard.Volume

variable {v v' : Volume} {p : Path} {directory location : Location} {name : Text}

def shape? (v : Volume) : Layout := v.root.shape?

/-! ### Looking for entries -/

theorem isDirectoryAt_iff : v.isDirectoryAt location = true ↔ v.shape? location = some .directory := by
  rw [isDirectoryAt, shape?, Node.shape?]
  cases v.root.at? location with
  | none => simp
  | some node => cases node <;> simp [Node.isDirectory, Node.shape]

theorem at?_entry {entries : List (Text × Node)}
    (h : v.root.at? directory = some (.directory entries)) :
    v.root.at? (directory ++ [name]) = Keyed.get? name entries := by
  rw [Node.at?_append, h, Option.bind_some, Node.at?, Node.entry?]
  cases Keyed.get? name entries <;> rfl

theorem lookup_eq (h : v.shape? directory = some .directory)
    (hshort : Text.byteCount name ≤ longestName) :
    v.lookup directory name = match v.root.at? (directory ++ [name]) with
      | some node => .ok node
      | none => .error .notFound := by
  obtain ⟨entries, hentries⟩ := Node.shape?_eq_directory_iff.1 h
  rw [lookup, hentries, at?_entry hentries]
  exact if_neg (Nat.not_lt.2 hshort)

/-- An entry is looked up only in a directory, and only under a name that is not too long. -/
theorem lookup_answers {answer : Except Fault Node} (h : v.lookup directory name = answer)
    (hdirectory : answer ≠ .error .notDirectory) (hlong : answer ≠ .error .nameTooLong) :
    v.shape? directory = some .directory ∧ Text.byteCount name ≤ longestName := by
  rw [lookup] at h
  split at h
  · rename_i entries hentries
    refine ⟨Node.shape?_eq_directory_iff.2 ⟨entries, hentries⟩, ?_⟩
    by_contra hshort
    rw [if_pos (Nat.lt_of_not_le hshort)] at h
    exact hlong h.symm
  · exact absurd h.symm hdirectory

theorem lookup_eq_ok_iff {node : Node} : v.lookup directory name = .ok node ↔
    v.shape? directory = some .directory ∧ Text.byteCount name ≤ longestName ∧
      v.root.at? (directory ++ [name]) = some node := by
  constructor
  · intro h
    obtain ⟨hdirectory, hshort⟩ := lookup_answers h (by simp) (by simp)
    rw [lookup_eq hdirectory hshort] at h
    refine ⟨hdirectory, hshort, ?_⟩
    cases hat : v.root.at? (directory ++ [name]) with
    | none => simp [hat] at h
    | some other => simpa [hat] using h
  · rintro ⟨hdirectory, hshort, hat⟩
    rw [lookup_eq hdirectory hshort, hat]

theorem lookup_eq_notFound_iff : v.lookup directory name = .error .notFound ↔
    v.shape? directory = some .directory ∧ Text.byteCount name ≤ longestName ∧
      v.root.at? (directory ++ [name]) = none := by
  constructor
  · intro h
    obtain ⟨hdirectory, hshort⟩ := lookup_answers h (by simp) (by simp)
    rw [lookup_eq hdirectory hshort] at h
    refine ⟨hdirectory, hshort, ?_⟩
    cases hat : v.root.at? (directory ++ [name]) with
    | none => rfl
    | some other => simp [hat] at h
  · rintro ⟨hdirectory, hshort, hat⟩
    rw [lookup_eq hdirectory hshort, hat]

/-! ### Following paths -/

theorem exists_of_bind_eq_ok {ε α β : Type} {x : Except ε α} {f : α → Except ε β} {b : β}
    (h : (x >>= f) = .ok b) : ∃ a, x = .ok a ∧ f a = .ok b := by
  cases x with
  | error e => cases h
  | ok a => exact ⟨a, rfl, h⟩

theorem of_guard_eq_ok {ε α : Type} {c : Prop} [Decidable c] {e : ε} {x : Except ε α} {a : α}
    (h : (if c then .error e else x) = .ok a) : ¬c ∧ x = .ok a := by
  split at h
  · cases h
  · exact ⟨‹_›, h⟩

/-- A step is taken from a directory, and a name leads on only where there is something. -/
theorem step_eq_ok_iff {component : Text} {next : Location} :
    v.step location component = .ok next ↔ v.shape? location = some .directory ∧
      if component = "." then next = location
      else if component = ".." then next = location.dropLast
      else Text.byteCount component ≤ longestName ∧
        (∃ node, v.root.at? (location ++ [component]) = some node) ∧
          next = location ++ [component] := by
  rw [step, ← isDirectoryAt_iff]
  by_cases hdirectory : v.isDirectoryAt location = true
  · rw [hdirectory, Bool.not_true, if_neg Bool.false_ne_true, eq_self_iff_true, true_and]
    split
    · rw [Except.ok.injEq, eq_comm]
    · split
      · rw [Except.ok.injEq, eq_comm]
      · rw [isDirectoryAt_iff] at hdirectory
        constructor
        · intro h
          cases hlookup : v.lookup location component with
          | error fault => simp [hlookup, Except.map] at h
          | ok node =>
              obtain ⟨-, hshort, hat⟩ := lookup_eq_ok_iff.1 hlookup
              rw [hlookup] at h
              exact ⟨hshort, ⟨node, hat⟩, (Except.ok.inj h).symm⟩
        · rintro ⟨hshort, ⟨node, hat⟩, rfl⟩
          rw [lookup_eq_ok_iff.2 ⟨hdirectory, hshort, hat⟩]
          rfl
  · simp [hdirectory]

theorem eq_follow_of_step {component : Text} {next : Location}
    (h : v.step location component = .ok next) (hne : component ≠ []) :
    next = location.follow component := by
  obtain ⟨-, h⟩ := step_eq_ok_iff.1 h
  rw [Location.follow]
  split at h
  · rename_i hdot
    rw [if_pos (Or.inr hdot), h]
  · rename_i hdot
    rw [if_neg (not_or.2 ⟨hne, hdot⟩)]
    split at h
    · rename_i hup
      rw [if_pos hup, h]
    · rename_i hup
      rw [if_neg hup, h.2.2]

theorem eq_foldl_of_foldlM {components : List Text} {start : Location}
    (h : components.foldlM v.step start = .ok directory) (hne : ∀ t ∈ components, t ≠ []) :
    directory = components.foldl Location.follow start := by
  induction components generalizing start with
  | nil => exact (Except.ok.inj h).symm
  | cons component components ih =>
      obtain ⟨hcomponent, hne⟩ := List.forall_mem_cons.1 hne
      rw [List.foldlM_cons] at h
      obtain ⟨next, hstep, h⟩ := exists_of_bind_eq_ok h
      rw [List.foldl_cons, ← eq_follow_of_step hstep hcomponent]
      exact ih h hne

/-- A volume with the working directory and all directories of another one. -/
structure Keeps (v v' : Volume) : Prop where
  home : v'.home = v.home
  directory : ∀ location, v.shape? location = some .directory → v'.shape? location = some .directory

protected theorem Keeps.refl (v : Volume) : v.Keeps v := ⟨rfl, fun _ h => h⟩

protected theorem Keeps.trans {v'' : Volume} (h : v.Keeps v') (h' : v'.Keeps v'') : v.Keeps v'' :=
  ⟨h'.home.trans h.home, fun location hlocation =>
    h'.directory location (h.directory location hlocation)⟩

/-- The way through directories is still there where no directory has gone. -/
theorem Keeps.foldlM_step (hkeeps : Keeps v v') {components : List Text} {start : Location}
    (h : components.foldlM v.step start = .ok directory)
    (hdirectory : v.shape? directory = some .directory) :
    components.foldlM v'.step start = .ok directory := by
  induction components generalizing start with
  | nil => exact h
  | cons component components ih =>
      rw [List.foldlM_cons] at h ⊢
      obtain ⟨next, hstep, h⟩ := exists_of_bind_eq_ok h
      -- a location on the way is a directory, as the next step starts from it, and so is the last one
      have hnext : v'.shape? next = some .directory := by
        apply hkeeps.directory
        cases components with
        | nil =>
            obtain rfl := Except.ok.inj h
            exact hdirectory
        | cons second components =>
            rw [List.foldlM_cons] at h
            obtain ⟨other, hother, -⟩ := exists_of_bind_eq_ok h
            exact (step_eq_ok_iff.1 hother).1
      have hstep' : v'.step start component = .ok next := by
        obtain ⟨hstart, hstep⟩ := step_eq_ok_iff.1 hstep
        refine step_eq_ok_iff.2 ⟨hkeeps.directory start hstart, ?_⟩
        split at hstep
        · rename_i hdot
          rwa [if_pos hdot]
        · rename_i hdot
          split at hstep
          · rename_i hup
            rwa [if_neg hdot, if_pos hup]
          · rename_i hup
            obtain ⟨hshort, -, rfl⟩ := hstep
            obtain ⟨entries, hentries⟩ := Node.shape?_eq_directory_iff.1 hnext
            rw [if_neg hdot, if_neg hup]
            exact ⟨hshort, ⟨_, hentries⟩, rfl⟩
      rw [hstep']
      exact ih h

/-! ### Entries that paths lead to -/

/-- The path leads to an entry of a directory that exists, and no slash follows the name of the
entry. -/
structure Reaches (v : Volume) (p : Path) (directory : Location) (name : Text) : Prop where
  target : v.target p = .ok ⟨directory, .name name, false⟩
  short : Text.byteCount name ≤ longestName

/-- A path leads through all its components but the last. -/
theorem target_eq_ok {t : Target} (h : v.target p = .ok t) :
    (Text.fields (· == '/') p).dropLast.foldlM v.step (p.origin v.home) = .ok t.directory ∧
      v.shape? t.directory = some .directory ∧ p ≠ [] ∧
      t.last = (match (Text.fields (· == '/') p).getLast? with
        | none => .here
        | some component =>
          if component = "." then .here else if component = ".." then .up else .name component) ∧
      t.slash = decide (p.getLast? = some '/') := by
  rw [target] at h
  obtain ⟨-, h⟩ := of_guard_eq_ok h
  obtain ⟨hne, h⟩ := of_guard_eq_ok h
  obtain ⟨-, h⟩ := of_guard_eq_ok h
  obtain ⟨directory, hfollowed, h⟩ := exists_of_bind_eq_ok h
  obtain ⟨hdirectory, h⟩ := of_guard_eq_ok h
  rw [Bool.not_eq_true, Bool.not_eq_false', isDirectoryAt_iff] at hdirectory
  obtain rfl := Except.ok.inj h
  exact ⟨hfollowed, hdirectory, hne, rfl, rfl⟩

theorem Keeps.target (hkeeps : Keeps v v') {t : Target} (h : v.target p = .ok t) :
    v'.target p = .ok t := by
  obtain ⟨hfollowed, hdirectory, -⟩ := target_eq_ok h
  have hfollowed' := hkeeps.foldlM_step hfollowed hdirectory
  have hdirectory' := isDirectoryAt_iff.2 (hkeeps.directory _ hdirectory)
  rw [Path.origin, ← hkeeps.home] at hfollowed'
  rw [Volume.target] at h ⊢
  -- whether the path is well formed has nothing to do with the volume
  obtain ⟨hnull, h⟩ := of_guard_eq_ok h
  obtain ⟨hne, h⟩ := of_guard_eq_ok h
  obtain ⟨hlong, h⟩ := of_guard_eq_ok h
  rw [if_neg hnull, if_neg hne, if_neg hlong]
  obtain ⟨directory, -, h⟩ := exists_of_bind_eq_ok h
  obtain ⟨-, h⟩ := of_guard_eq_ok h
  obtain rfl := Except.ok.inj h
  show (List.foldlM v'.step _ _ >>= _) = _
  rw [hfollowed']
  show (if (!v'.isDirectoryAt directory) = true then _ else _) = _
  rw [hdirectory']
  rfl

theorem Keeps.reaches (hkeeps : Keeps v v') (h : v.Reaches p directory name) :
    v'.Reaches p directory name := ⟨hkeeps.target h.target, h.short⟩

namespace Reaches

theorem shape?_directory (h : v.Reaches p directory name) :
    v.shape? directory = some .directory := (target_eq_ok h.target).2.1

theorem exists_splitOnP_eq (h : v.Reaches p directory name) :
    ∃ before, p.splitOnP (· == '/') = before ++ [name] ∧ Path.isIdle name = false ∧ name ≠ ".." ∧
      directory = before.foldl Location.follow (p.origin v.home) := by
  obtain ⟨hfollowed, -, hne, hlast, hslash⟩ := target_eq_ok h.target
  have hnoSlash : p.getLast? ≠ some '/' := of_decide_eq_false hslash.symm
  rcases List.eq_nil_or_concat (p.splitOnP (· == '/')) with hnil | ⟨before, last, hsplit⟩
  · exact absurd hnil (List.splitOnP_ne_nil _ p)
  rw [List.concat_eq_append] at hsplit
  have hlastPiece := Path.last_ne_nil hsplit hne hnoSlash
  have hfields : Text.fields (· == '/') p = before.filter (· ≠ []) ++ [last] := by
    rw [Text.fields, hsplit, List.filter_append, List.filter_singleton]
    simp [hlastPiece]
  rw [hfields, List.getLast?_concat] at hlast
  rw [hfields, List.dropLast_concat] at hfollowed
  simp only at hlast
  split at hlast
  · cases hlast
  · rename_i hdot
    split at hlast
    · cases hlast
    · rename_i hup
      cases hlast
      have hidle : Path.isIdle name = false := by
        rw [Path.isIdle, decide_eq_false hlastPiece, decide_eq_false hdot, Bool.or_false]
      refine ⟨before, hsplit, hidle, hup, ?_⟩
      have hne : ∀ t ∈ before.filter (· ≠ []), t ≠ [] :=
        fun t ht => of_decide_eq_true (List.mem_filter.1 ht).2
      exact (eq_foldl_of_foldlM hfollowed hne).trans (Path.foldl_follow_filter before _)

/-- A path that leads to an entry ends with its name. -/
theorem endName?_eq (h : v.Reaches p directory name) : p.endName? = some name := by
  obtain ⟨before, hsplit, hidle, hup, -⟩ := h.exists_splitOnP_eq
  rw [Path.endName?, hsplit, List.getLast?_concat, Option.filter_some,
    if_pos (decide_eq_true ⟨hidle, hup⟩)]

theorem place_eq (h : v.Reaches p directory name) : p.place v.home = directory ++ [name] := by
  obtain ⟨before, hsplit, hidle, hup, rfl⟩ := h.exists_splitOnP_eq
  exact Path.place_eq_append hsplit hidle hup

theorem node_eq (h : v.Reaches p directory name) : v.node p = v.lookup directory name := by
  rw [node, h.target]
  show (v.lookup directory name >>= fun node =>
    if (false && !node.isDirectory) = true then .error .notDirectory else .ok node) = _
  cases v.lookup directory name <;> rfl

theorem read_eq_ok_iff {contents : ByteArray} (h : v.Reaches p directory name) :
    v.read p = .ok contents ↔ v.shape? (p.place v.home) = some (.file contents) := by
  rw [h.place_eq, shape?, Node.shape?_eq_file_iff, read, h.node_eq, lookup_eq h.shape?_directory h.short]
  cases v.root.at? (directory ++ [name]) with
  | none => simp [bind, Except.bind]
  | some node => cases node <;> simp [bind, Except.bind, pure, Except.pure]

theorem node_eq_notFound_iff (h : v.Reaches p directory name) :
    v.node p = .error .notFound ↔ v.shape? (p.place v.home) = none := by
  rw [h.place_eq, h.node_eq, lookup_eq h.shape?_directory h.short, shape?, Node.shape?,
    Option.map_eq_none_iff]
  cases v.root.at? (directory ++ [name]) <;> simp

end Reaches

/-- The path leads to where a file can be: an entry of a directory that exists, where no directory
is. -/
structure Admits (v : Volume) (p : Path) : Prop where
  reaches : ∃ directory name, v.Reaches p directory name
  free : v.shape? (p.place v.home) ≠ some .directory

theorem Reaches.admits (h : v.Reaches p directory name)
    (hfree : v.shape? (directory ++ [name]) ≠ some .directory) : v.Admits p where
  reaches := ⟨directory, name, h⟩
  free := by rwa [h.place_eq]

/-! ### Operations -/

theorem shape?_eq_of_at? {node : Node} (h : v.root.at? location = some node) :
    v.shape? location = some node.shape := by
  rw [shape?, Node.shape?, h]
  rfl

theorem shape?_eq_none (h : v.root.at? location = none) : v.shape? location = none := by
  rw [shape?, Node.shape?, h]
  rfl

theorem Reaches.put_file (h : v.Reaches p directory name)
    (hfree : v.shape? (directory ++ [name]) ≠ some .directory) (contents : ByteArray) :
    (v.put directory name (.file contents)).shape? =
      Function.update v.shape? (p.place v.home) (some (.file contents)) := by
  rw [h.place_eq]
  exact Node.shape?_put_file h.shape?_directory hfree

/-- A file that was opened to be changed stands where its path leads, where no directory was. -/
theorem change_eq_ok {f : ByteArray → ByteArray} (h : v.change p f = .ok v') :
    v.Admits p ∧ v'.home = v.home ∧ ∃ old,
      (v.shape? (p.place v.home) = some (.file old) ∨
        v.shape? (p.place v.home) = none ∧ old = .empty) ∧
      v'.shape? = Function.update v.shape? (p.place v.home) (some (.file (f old))) := by
  rw [change] at h
  obtain ⟨⟨directory, last, slash⟩, htarget, h⟩ := exists_of_bind_eq_ok h
  split at h
  · rename_i name hlast hslash
    obtain rfl : last = .name name := hlast
    obtain rfl : slash = false := hslash
    split at h
    · rename_i hlookup
      obtain ⟨-, hshort, hat⟩ := lookup_eq_notFound_iff.1 hlookup
      obtain rfl := Except.ok.inj h
      have hreaches : v.Reaches p directory name := ⟨htarget, hshort⟩
      have hnone : v.shape? (directory ++ [name]) = none := shape?_eq_none hat
      have hfree : v.shape? (directory ++ [name]) ≠ some .directory := by
        rw [hnone]
        simp
      exact ⟨hreaches.admits hfree, rfl, .empty, .inr ⟨by rwa [hreaches.place_eq], rfl⟩,
        hreaches.put_file hfree _⟩
    · cases h
    · rename_i old hlookup
      obtain ⟨-, hshort, hat⟩ := lookup_eq_ok_iff.1 hlookup
      obtain rfl := Except.ok.inj h
      have hreaches : v.Reaches p directory name := ⟨htarget, hshort⟩
      have hfile : v.shape? (directory ++ [name]) = some (.file old) := shape?_eq_of_at? hat
      have hfree : v.shape? (directory ++ [name]) ≠ some .directory := by
        rw [hfile]
        simp
      exact ⟨hreaches.admits hfree, rfl, old, .inl (by rwa [hreaches.place_eq]),
        hreaches.put_file hfree _⟩
    · cases h
  · cases h

theorem write_eq_ok {contents : ByteArray} (h : v.write p contents = .ok v') :
    v.Admits p ∧ v'.home = v.home ∧
      v'.shape? = Function.update v.shape? (p.place v.home) (some (.file contents)) := by
  obtain ⟨hadmits, hhome, -, -, hshape⟩ := change_eq_ok h
  exact ⟨hadmits, hhome, hshape⟩

/-- A directory that was created stands where nothing was. -/
theorem makeDirectory_eq_ok (h : v.makeDirectory p = .ok v') : ∃ location,
    v.shape? location = none ∧ v'.home = v.home ∧
      v'.shape? = Function.update v.shape? location (some .directory) := by
  rw [makeDirectory] at h
  obtain ⟨⟨directory, last, slash⟩, htarget, h⟩ := exists_of_bind_eq_ok h
  have hdirectory := (target_eq_ok htarget).2.1
  split at h
  · rename_i name hlast
    split at h
    · rename_i hlookup
      obtain ⟨-, -, hat⟩ := lookup_eq_notFound_iff.1 hlookup
      obtain rfl := Except.ok.inj h
      have hnone := shape?_eq_none hat
      have hbefore : v.root.shape? (directory ++ [name]) ≠ some .directory := by
        rw [show v.root.shape? (directory ++ [name]) = none from hnone]
        simp
      exact ⟨directory ++ [name], hnone, rfl, Node.shape?_put_directory hdirectory hbefore⟩
    · cases h
    · cases h
  · cases h

/-- The directory that a file goes to is still there when the file has left its place. -/
theorem shape?_remove_put {contents : ByteArray} {directory' : Location} {name' : Text}
    (hdirectory : v.shape? directory = some .directory)
    (hdirectory' : v.shape? directory' = some .directory)
    (hfile : v.shape? (directory ++ [name]) = some (.file contents))
    (hfree : v.shape? (directory' ++ [name']) ≠ some .directory) :
    ((v.root.remove directory name).put directory' name' (.file contents)).shape? =
      Layout.move v.shape? ⟨directory ++ [name], directory' ++ [name']⟩ := by
  have hremoved : (v.root.remove directory name).shape? =
      Function.update v.shape? (directory ++ [name]) none :=
    Node.shape?_remove hdirectory (by rw [← shape?, hfile]; simp)
  -- the place that is left was that of a file, so it is not the directory that is gone to
  have hstill : (v.root.remove directory name).shape? directory' = some .directory := by
    have hne : directory' ≠ directory ++ [name] := by
      rintro rfl
      rw [hfile] at hdirectory'
      cases hdirectory'
    rw [hremoved, Function.update_of_ne hne, hdirectory']
  have hfree' : (v.root.remove directory name).shape? (directory' ++ [name']) ≠
      some .directory := by
    rw [hremoved, Function.update_apply]
    split
    · simp
    · exact hfree
  rw [Node.shape?_put_file hstill hfree', hremoved, Layout.move, hfile]

theorem rename_targets {source : Path} (h : v.rename source p = .ok v') :
    ∃ directory name slash directory' name' slash' node,
      v.target source = .ok ⟨directory, .name name, slash⟩ ∧
        v.target p = .ok ⟨directory', .name name', slash'⟩ ∧
          v.lookup directory name = .ok node := by
  rw [rename] at h
  obtain ⟨⟨directory, last, slash⟩, hold, h⟩ := exists_of_bind_eq_ok h
  obtain ⟨⟨directory', last', slash'⟩, hnew, h⟩ := exists_of_bind_eq_ok h
  split at h
  · rename_i name name' hname hname'
    obtain rfl : last = .name name := hname
    obtain rfl : last' = .name name' := hname'
    obtain ⟨node, hlookup, -⟩ := exists_of_bind_eq_ok h
    exact ⟨directory, name, slash, directory', name', slash', node, hold, hnew, hlookup⟩
  · cases h

/-- A file takes the place of whatever file was there, unless that is the place where it stands. -/
theorem rename_file {source : Path} {contents : ByteArray} {directory' : Location} {name' : Text}
    {slash : Bool} (h : v.rename source p = .ok v')
    (hold : v.target source = .ok ⟨directory, .name name, false⟩)
    (hnew : v.target p = .ok ⟨directory', .name name', slash⟩)
    (hlookup : v.lookup directory name = .ok (.file contents)) :
    slash = false ∧ Text.byteCount name' ≤ longestName ∧
      v.shape? (directory' ++ [name']) ≠ some .directory ∧
        if directory ++ [name] = directory' ++ [name'] then v' = v
        else v' = { v with
          root := (v.root.remove directory name).put directory' name' (.file contents) } := by
  rw [rename] at h
  obtain ⟨old, hold', h⟩ := exists_of_bind_eq_ok h
  obtain rfl := Except.ok.inj (hold.symm.trans hold')
  obtain ⟨new, hnew', h⟩ := exists_of_bind_eq_ok h
  obtain rfl := Except.ok.inj (hnew.symm.trans hnew')
  obtain ⟨node, hnode, h⟩ := exists_of_bind_eq_ok h
  obtain rfl := Except.ok.inj (hlookup.symm.trans hnode)
  cases hthere : v.lookup directory' name' with
  | error fault =>
      by_cases hfault : fault = .notFound
      · rw [hfault] at hthere
        obtain ⟨-, hshort, hnone⟩ := lookup_eq_notFound_iff.1 hthere
        simp only [hthere, pure_bind] at h
        obtain ⟨hslash, h⟩ := of_guard_eq_ok h
        obtain ⟨-, h⟩ := of_guard_eq_ok h
        obtain ⟨-, h⟩ := of_guard_eq_ok h
        refine ⟨by simpa [Node.isDirectory] using hslash, hshort, ?_, ?_⟩
        · rw [shape?_eq_none hnone]
          simp
        · split
          · rename_i hsame
            rw [if_pos hsame] at h
            exact (Except.ok.inj h).symm
          · rename_i hother
            rw [if_neg hother] at h
            exact (Except.ok.inj h).symm
      · simp only [hthere] at h
        cases h
  | ok there =>
      simp only [hthere, pure_bind] at h
      obtain ⟨-, hshort, hat⟩ := lookup_eq_ok_iff.1 hthere
      obtain ⟨hslash, h⟩ := of_guard_eq_ok h
      obtain ⟨-, h⟩ := of_guard_eq_ok h
      obtain ⟨-, h⟩ := of_guard_eq_ok h
      refine ⟨by simpa [Node.isDirectory] using hslash, hshort, ?_⟩
      split at h
      · rename_i hsame
        rw [if_pos hsame, ← hsame, shape?_eq_of_at? (lookup_eq_ok_iff.1 hlookup).2.2]
        exact ⟨by simp [Node.shape], (Except.ok.inj h).symm⟩
      · rename_i hother
        rw [if_neg hother, shape?_eq_of_at? hat]
        cases there with
        | file contents' => exact ⟨by simp [Node.shape], (Except.ok.inj h).symm⟩
        | directory entries => cases h

/-- A file that was moved stands where the path leads, where no directory was, and no longer where it
stood before. -/
theorem rename_eq_ok {source : Path} (h : v.rename source p = .ok v') (hsource : v.Admits source) :
    v.Admits p ∧ v'.home = v.home ∧
      v'.shape? = Layout.move v.shape? ⟨source.place v.home, p.place v.home⟩ := by
  obtain ⟨⟨directory, name, hsource⟩, hfile⟩ := hsource
  rw [hsource.place_eq] at hfile ⊢
  obtain ⟨_, _, _, directory', name', slash, node, hold, hnew, hlookup⟩ := rename_targets h
  cases Except.ok.inj (hold.symm.trans hsource.target)
  obtain ⟨hdirectory, -, hat⟩ := lookup_eq_ok_iff.1 hlookup
  obtain ⟨contents, rfl⟩ : ∃ contents, node = .file contents := by
    cases node with
    | file contents => exact ⟨contents, rfl⟩
    | directory entries => exact absurd (shape?_eq_of_at? hat) hfile
  obtain ⟨rfl, hshort, hfree, hv⟩ := rename_file h hold hnew hlookup
  have hreaches : v.Reaches p directory' name' := ⟨hnew, hshort⟩
  refine ⟨hreaches.admits hfree, ?_⟩
  rw [hreaches.place_eq]
  split at hv
  · rename_i hsame
    rw [hv, ← hsame, Layout.move_self]
    exact ⟨rfl, rfl⟩
  · rw [hv]
    exact ⟨rfl, shape?_remove_put hdirectory hreaches.shape?_directory (shape?_eq_of_at? hat) hfree⟩

/-! ### Directories -/

/-- Changing a file makes no directory and removes none. -/
theorem Keeps.of_change {f : ByteArray → ByteArray} (h : v.change p f = .ok v') : v.Keeps v' := by
  obtain ⟨hadmits, hhome, old, -, hshape⟩ := change_eq_ok h
  refine ⟨hhome, fun other hother => ?_⟩
  have hne : other ≠ p.place v.home := by
    rintro rfl
    exact hadmits.free hother
  rw [hshape, Function.update_of_ne hne, hother]

theorem Keeps.of_write {contents : ByteArray} (h : v.write p contents = .ok v') : v.Keeps v' :=
  .of_change h

variable {source : Path}

theorem shape?_rename_eq_directory_iff (h : v.rename source p = .ok v')
    (hsource : v.Admits source) :
    v'.shape? location = some .directory ↔ v.shape? location = some .directory := by
  obtain ⟨hadmits, -, hshape⟩ := rename_eq_ok h hsource
  rw [hshape]
  exact Layout.move_eq_directory_iff hsource.free hadmits.free

theorem Keeps.of_rename (h : v.rename source p = .ok v') (hsource : v.Admits source) :
    v.Keeps v' where
  home := (rename_eq_ok h hsource).2.1
  directory _ := (shape?_rename_eq_directory_iff h hsource).2

/-- Where a file can be, one can be after another file was moved. -/
theorem Admits.of_rename {q : Path} (hq : v.Admits q) (h : v.rename source p = .ok v')
    (hsource : v.Admits source) : v'.Admits q where
  reaches :=
    let ⟨directory, name, hreaches⟩ := hq.reaches
    ⟨directory, name, (Keeps.of_rename h hsource).reaches hreaches⟩
  free := by
    rw [(Keeps.of_rename h hsource).home, Ne, shape?_rename_eq_directory_iff h hsource]
    exact hq.free

end FeatureGuard.Volume
