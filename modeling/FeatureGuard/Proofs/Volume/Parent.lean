import FeatureGuard.Proofs.Volume.Operation

/-!
Paths that begin with other paths. The way that a path leads goes through the parent of the path, so
that a path leads nowhere where its parent is not a directory.
-/

namespace FeatureGuard

namespace Text

theorem byteCount_le_append (a b : Text) : byteCount a ≤ byteCount (a ++ b) := by
  have hle : ∀ (t : Text) (n : ℕ), n ≤ t.foldl (fun n c => n + c.utf8Size) n := by
    intro t
    induction t with
    | nil => exact fun n => Nat.le_refl n
    | cons c t ih => exact fun n => Nat.le_trans (Nat.le_add_right n _) (ih _)
  rw [byteCount, byteCount, List.foldl_append]
  exact hle b _

end Text

namespace Path

variable {p q : Path} {name : Text}

/-- The second path begins with the first one, has a slash where the first one ends, and has more
than slashes after it. -/
def Above (q p : Path) : Prop :=
  ∃ tail, p = q ++ tail ∧ (q.getLast? = some '/' ∨ tail.head? = some '/') ∧ ∃ c ∈ tail, c ≠ '/'

theorem Above.length_lt (h : Above q p) : q.length < p.length := by
  obtain ⟨tail, rfl, -, c, hc, -⟩ := h
  have := List.length_pos_of_mem hc
  rw [List.length_append]
  omega

theorem Above.append (h : Above q p) (t : Text) : Above q (p ++ t) := by
  obtain ⟨tail, rfl, hslash, c, hc, hne⟩ := h
  refine ⟨tail ++ t, List.append_assoc _ _ _, hslash.imp_right fun hhead => ?_,
    c, List.mem_append_left t hc, hne⟩
  rw [List.head?_append, hhead]
  rfl

theorem Above.fields_eq (h : Above q p) :
    ∃ rest, rest ≠ [] ∧ Text.fields (· == '/') p = Text.fields (· == '/') q ++ rest := by
  obtain ⟨tail, rfl, hslash, c, hc, hne⟩ := h
  have hrest : Text.fields (· == '/') tail ≠ [] := Text.fields_ne_nil hc (by simpa using hne)
  refine ⟨_, hrest, ?_⟩
  rcases hslash with hlast | hhead
  · obtain ⟨front, rfl⟩ := List.getLast?_eq_some_iff.1 hlast
    rw [List.append_assoc, List.singleton_append, Text.fields_append_cons _ _ _ rfl,
      Text.fields_append_cons _ _ [] rfl]
    simp [Text.fields]
  · obtain ⟨after, rfl⟩ := List.head?_eq_some_iff.1 hhead
    rw [Text.fields_append_cons _ _ _ rfl]
    exact congrArg _ (Text.fields_append_cons (· == '/') [] after rfl).symm

theorem exists_push_eq (p : Path) (hname : name.head? ≠ some '/') : ∃ t, push p name = p ++ t := by
  rw [push, if_neg hname]
  split
  · exact ⟨name, rfl⟩
  · exact ⟨'/' :: name, List.append_assoc _ _ _⟩

theorem above_push (hq : q ≠ []) (hname : name.head? ≠ some '/') {c : Char} (hc : c ∈ name)
    (hne : c ≠ '/') : Above q (push q name) := by
  rw [push, if_neg hname]
  by_cases hlast : q.getLast? = some '/'
  · rw [decide_eq_true hlast, Bool.or_true, if_pos rfl]
    exact ⟨name, rfl, .inl hlast, c, hc, hne⟩
  · rw [decide_eq_false hlast, decide_eq_false hq, if_neg (by decide)]
    exact ⟨'/' :: name, List.append_assoc _ _ _, .inr rfl, c, List.mem_cons_of_mem _ hc, hne⟩

/-- What the parent of a path is, where it is not empty, and what stands behind it. -/
theorem exists_of_parent? (h : parent? p = some q) (hq : q ≠ []) : ∃ first kept behind n,
    q = (if first = [] && kept = [] then ("/" : Text) else Text.join "/" (first :: kept)) ∧
      p = Text.join "/" (first :: kept) ++ '/' :: Text.join "/" behind ∧
        n ∈ behind ∧ n ≠ [] ∧ '/' ∉ n := by
  obtain ⟨first, rest, hsplit⟩ := List.exists_cons_of_ne_nil (List.splitOnP_ne_nil (· == '/') p)
  obtain ⟨idle, hrest, -⟩ := exists_eq_dropIdle_append rest
  have hslash : ∀ t ∈ first :: rest, '/' ∉ t :=
    fun t ht => Text.slash_not_mem_piece (hsplit ▸ ht)
  rcases List.eq_nil_or_concat (dropIdle rest) with hnil | ⟨before, n, hconcat⟩
  · rw [parent?, pieces_eq hsplit, hnil] at h
    simp only at h
    split at h
    · cases h
    · exact absurd (Option.some.inj h).symm hq
  · rw [List.concat_eq_append] at hconcat
    have hn := isIdle_last_dropIdle hconcat
    rw [hconcat] at hrest
    obtain ⟨idle', hbefore, -⟩ := exists_eq_dropIdle_append before
    -- the parent is that of the path without the pieces at the end that count for nothing
    have hsplit' : (Text.join "/" (first :: (before ++ [n]))).splitOnP (· == '/') =
        first :: (before ++ [n]) := by
      refine Text.splitOnP_join (List.cons_ne_nil _ _) fun t ht => hslash t ?_
      rw [hrest, ← List.cons_append]
      exact List.mem_append_left idle ht
    have hparent : parent? p = parent? (Text.join "/" (first :: (before ++ [n]))) := by
      rw [parent?, parent?, pieces_eq hsplit, pieces_eq hsplit', dropIdle_append before hn, hconcat]
    rw [hparent, parent?_eq hsplit' hn] at h
    have hall : first :: rest = (first :: dropIdle before) ++ (idle' ++ ([n] ++ idle)) := by
      have hbehind := congrArg (· ++ ([n] ++ idle)) hbefore
      rw [hrest, List.append_assoc]
      exact congrArg _ (hbehind.trans (List.append_assoc _ _ _))
    refine ⟨first, dropIdle before, idle' ++ ([n] ++ idle), n, (Option.some.inj h).symm, ?_,
      by simp, ?_, hslash n (by simp [hrest])⟩
    · rw [← Text.join_splitOnP p, hsplit, hall,
        Text.join_append_join (List.cons_ne_nil _ _) (by simp), List.append_assoc]
      rfl
    · rintro rfl
      cases hn

theorem above_of_parent? (h : parent? p = some q) (hq : q ≠ []) : Above q p := by
  obtain ⟨first, kept, behind, n, rfl, hp, hn, hne, hslash⟩ := exists_of_parent? h hq
  obtain ⟨c, name, rfl⟩ := List.exists_cons_of_ne_nil hne
  have hmem : c ∈ Text.join "/" behind := Text.mem_join_of_mem hn List.mem_cons_self
  have hc : c ≠ '/' := by
    rintro rfl
    exact hslash List.mem_cons_self
  split
  · rename_i hroot
    obtain ⟨hfirst, hkept⟩ : first = [] ∧ kept = [] := by simpa using hroot
    rw [hfirst, hkept] at hp
    exact ⟨_, hp, .inl rfl, c, hmem, hc⟩
  · exact ⟨_, hp, .inr rfl, c, List.mem_cons_of_mem _ hmem, hc⟩

theorem slash_not_mem_fileName? (h : fileName? p = some name) : '/' ∉ name := by
  obtain ⟨first, rest, hsplit⟩ := List.exists_cons_of_ne_nil (List.splitOnP_ne_nil (· == '/') p)
  obtain ⟨idle, hrest, -⟩ := exists_eq_dropIdle_append rest
  have hlast := (Option.filter_eq_some_iff.1 h).1
  rw [last?, pieces_eq hsplit] at hlast
  refine Text.slash_not_mem_piece (t := p) ?_
  rw [hsplit]
  cases hkept : dropIdle rest with
  | nil =>
      simp only [hkept] at hlast
      split at hlast
      · cases hlast
      · exact Option.some.inj hlast ▸ List.mem_cons_self
  | cons piece kept =>
      simp only [hkept] at hlast
      rw [hkept] at hrest
      rw [hrest]
      exact List.mem_cons_of_mem _ (List.mem_append_left idle (List.mem_of_getLast? hlast))

/-- A path with another file name goes the same way as far as the parent. -/
theorem above_withFileName (h : parent? p = some q) (hq : q ≠ []) (hname : name.head? ≠ some '/')
    {c : Char} (hc : c ∈ name) (hne : c ≠ '/') : Above q (withFileName p name) := by
  rw [withFileName, h]
  split
  · rename_i heq
    cases heq
    exact above_push hq hname hc hne
  · obtain ⟨t, ht⟩ := exists_push_eq p hname
    rw [ht]
    exact (above_of_parent? h hq).append t

end Path

namespace Volume

open FeatureGuard.Path

variable {v : Volume} {p q : Path}

/-! ### Paths to directories -/

theorem isDirectory_eq_true_iff :
    v.isDirectory p = true ↔ ∃ entries, v.node p = .ok (.directory entries) := by
  rw [isDirectory]
  cases v.node p with
  | error fault => simp
  | ok node => cases node <;> simp [Node.isDirectory]

/-- What is asked of a path before it is followed. -/
structure WellFormed (p : Path) : Prop where
  null : p.contains (Char.ofNat 0) = false
  ne : p ≠ []
  long : ¬longestPath < Text.byteCount p

theorem wellFormed_of_target {t : Target} (h : v.target p = .ok t) : WellFormed p := by
  rw [target] at h
  obtain ⟨hnull, h⟩ := of_guard_eq_ok h
  obtain ⟨hne, h⟩ := of_guard_eq_ok h
  obtain ⟨hlong, -⟩ := of_guard_eq_ok h
  exact ⟨by simpa using hnull, hne, hlong⟩

theorem WellFormed.of_above (hp : WellFormed p) (h : Above q p) (hq : q ≠ []) : WellFormed q := by
  obtain ⟨tail, rfl, -⟩ := h
  refine ⟨?_, hq, fun hlong => hp.long (Nat.lt_of_lt_of_le hlong (Text.byteCount_le_append q tail))⟩
  have hnull := hp.null
  rw [List.contains_append, Bool.or_eq_false_iff] at hnull
  exact hnull.1

/-- A path leads to the entry that its last component names. -/
theorem WellFormed.target_eq (hp : WellFormed p) {directory : Location}
    (hfollowed : (Text.fields (· == '/') p).dropLast.foldlM v.step (p.origin v.home) = .ok directory)
    (hdirectory : v.shape? directory = some .directory) : v.target p = .ok
      { directory
        last := match (Text.fields (· == '/') p).getLast? with
          | none => .here
          | some component =>
            if component = "." then .here else if component = ".." then .up else .name component
        slash := p.getLast? = some '/' } := by
  rw [target, hp.null, if_neg Bool.false_ne_true, if_neg hp.ne, if_neg hp.long]
  show (List.foldlM v.step (p.origin v.home) _ >>= _) = _
  rw [hfollowed]
  show (if (!v.isDirectoryAt directory) = true then _ else _) = _
  rw [isDirectoryAt_iff.2 hdirectory]
  rfl

/-- What stands where a path leads, whether or not a slash follows. -/
def found (v : Volume) (t : Target) : Except Fault Node :=
  match t.last with
  | .name name => v.lookup t.directory name
  | .here => .ok ((v.root.at? t.directory).getD default)
  | .up => .ok ((v.root.at? t.directory.dropLast).getD default)

theorem node_of_target {t : Target} (ht : v.target p = .ok t) : v.node p = v.found t >>= fun node =>
    if (t.slash && !node.isDirectory) = true then .error .notDirectory else .ok node := by
  rw [node, ht]
  obtain ⟨directory, last, slash⟩ := t
  cases last <;> rfl

theorem exists_target_of_node {node : Node} (h : v.node p = .ok node) : ∃ t, v.target p = .ok t ∧
    v.found t = .ok node ∧ (t.slash = true → node.isDirectory = true) := by
  have hnode := h
  rw [Volume.node] at h
  obtain ⟨t, ht, -⟩ := exists_of_bind_eq_ok h
  rw [node_of_target ht] at hnode
  obtain ⟨other, hfound, hother⟩ := exists_of_bind_eq_ok hnode
  obtain ⟨hslash, hother⟩ := of_guard_eq_ok hother
  obtain rfl := Except.ok.inj hother
  exact ⟨t, ht, hfound, by simpa using hslash⟩

theorem node_eq_directory {t : Target} {entries : List (Text × Node)} (ht : v.target p = .ok t)
    (h : v.found t = .ok (.directory entries)) : v.node p = .ok (.directory entries) := by
  rw [node_of_target ht, h]
  show (if (t.slash && false) = true then _ else _) = _
  rw [Bool.and_false, if_neg Bool.false_ne_true]

/-- A path that can be followed to its end through directories names a directory. -/
theorem WellFormed.isDirectory (hp : WellFormed p) {location : Location}
    (hfollowed : (Text.fields (· == '/') p).foldlM v.step (p.origin v.home) = .ok location)
    (hdirectory : v.shape? location = some .directory) : v.isDirectory p = true := by
  obtain ⟨entries, hentries⟩ := Node.shape?_eq_directory_iff.1 hdirectory
  rw [isDirectory_eq_true_iff]
  refine ⟨entries, ?_⟩
  rcases List.eq_nil_or_concat (Text.fields (· == '/') p) with hnil | ⟨front, component, hconcat⟩
  · rw [hnil] at hfollowed
    obtain rfl := Except.ok.inj hfollowed
    have htarget := hp.target_eq (by rw [hnil]; rfl) hdirectory
    rw [hnil] at htarget
    refine node_eq_directory htarget ?_
    show Except.ok ((v.root.at? _).getD default) = _
    rw [hentries, Option.getD_some]
  · rw [List.concat_eq_append] at hconcat
    rw [hconcat, List.foldlM_append] at hfollowed
    obtain ⟨directory, hfront, hlast⟩ := exists_of_bind_eq_ok hfollowed
    rw [List.foldlM_cons] at hlast
    obtain ⟨next, hstep, hlast⟩ := exists_of_bind_eq_ok hlast
    obtain rfl := Except.ok.inj hlast
    obtain ⟨hbefore, hnext⟩ := step_eq_ok_iff.1 hstep
    have htarget := hp.target_eq (by rwa [hconcat, List.dropLast_concat]) hbefore
    rw [hconcat, List.getLast?_concat] at htarget
    refine node_eq_directory htarget ?_
    simp only [found]
    -- the last component is followed in the same way as those before it
    split at hnext
    · rename_i hdot
      rw [if_pos hdot, ← hnext, hentries, Option.getD_some]
    · rename_i hdot
      rw [if_neg hdot]
      split at hnext
      · rename_i hup
        rw [if_pos hup, ← hnext, hentries, Option.getD_some]
      · rename_i hup
        obtain ⟨hshort, -, rfl⟩ := hnext
        rw [if_neg hup]
        exact lookup_eq_ok_iff.2 ⟨hbefore, hshort, hentries⟩

/-- Where a directory cannot be made, and not because something is there, no directory is there. -/
theorem isDirectory_eq_false_of_makeDirectory {fault : Fault} (h : v.makeDirectory p = .error fault)
    (hne : fault ≠ .alreadyExists) : v.isDirectory p = false := by
  by_contra htrue
  rw [Bool.not_eq_false, isDirectory_eq_true_iff] at htrue
  obtain ⟨entries, hnode⟩ := htrue
  obtain ⟨⟨directory, last, slash⟩, htarget, hfound, -⟩ := exists_target_of_node hnode
  rw [makeDirectory, htarget] at h
  cases last with
  | name name =>
      have hlookup : v.lookup directory name = .ok (.directory entries) := hfound
      simp only [bind, Except.bind, hlookup] at h
      exact hne (Except.error.inj h).symm
  | here => exact hne (Except.error.inj h).symm
  | up => exact hne (Except.error.inj h).symm

/-- A path leads through every path above it. -/
theorem isDirectory_of_above (h : Above q p) (hq : q ≠ []) {t : Target} (ht : v.target p = .ok t) :
    v.isDirectory q = true := by
  obtain ⟨rest, hrest, hfields⟩ := h.fields_eq
  obtain ⟨hfollowed, hdirectory, -⟩ := target_eq_ok ht
  have horigin : p.origin v.home = q.origin v.home := by
    obtain ⟨tail, rfl, -⟩ := h
    rw [origin, origin, List.head?_append_of_ne_nil _ hq]
  rw [hfields, List.dropLast_append_of_ne_nil hrest, List.foldlM_append, horigin] at hfollowed
  obtain ⟨location, hlocation, hbehind⟩ := exists_of_bind_eq_ok hfollowed
  refine ((wellFormed_of_target ht).of_above h hq).isDirectory hlocation ?_
  -- the next step starts from this location, and where there is none it is the directory itself
  cases hcases : rest.dropLast with
  | nil =>
      rw [hcases] at hbehind
      obtain rfl := Except.ok.inj hbehind
      exact hdirectory
  | cons component behind =>
      rw [hcases, List.foldlM_cons] at hbehind
      obtain ⟨next, hstep, -⟩ := exists_of_bind_eq_ok hbehind
      exact (step_eq_ok_iff.1 hstep).1

theorem isDirectory_eq_false_of_above (h : Above q p) (hq : q ≠ []) (hmissing : v.isDirectory q = false) :
    v.isDirectory p = false := by
  refine Bool.eq_false_iff.2 fun hdirectory => ?_
  obtain ⟨entries, hnode⟩ := isDirectory_eq_true_iff.1 hdirectory
  obtain ⟨t, ht, -⟩ := exists_target_of_node hnode
  rw [isDirectory_of_above h hq ht] at hmissing
  cases hmissing

end Volume

end FeatureGuard
