import Mathlib.Data.List.Basic
import FeatureGuard.Artifact.Plan

/-!
The sections of the header. A section is what stands below a heading, up to the next one.
-/

namespace FeatureGuard

namespace Directive

def isHeading : Directive → Bool
  | heading _ => true
  | _ => false

/-- The directives below a title, up to the next one. -/
def below (title : Text) (directives : List Directive) : List Directive :=
  ((directives.dropWhile (· ≠ .heading title)).drop 1).takeWhile (!·.isHeading)

theorem below_append {title : Text} {before body rest : List Directive}
    (hbefore : .heading title ∉ before) (hbody : ∀ d ∈ body, d.isHeading = false)
    (hrest : ∀ d ∈ rest.head?, d.isHeading = true) :
    below title (before ++ .heading title :: (body ++ rest)) = body := by
  have hdrop : (before ++ .heading title :: (body ++ rest)).dropWhile (· ≠ .heading title) =
      .heading title :: (body ++ rest) := by
    induction before with
    | nil => simp
    | cons d before ih =>
        rw [List.mem_cons, not_or] at hbefore
        obtain ⟨hd, hbefore⟩ := hbefore
        rw [List.cons_append, List.dropWhile_cons, if_pos (by simpa using Ne.symm hd)]
        exact ih hbefore
  have htake : rest.takeWhile (!·.isHeading) = [] := by
    cases rest with
    | nil => rfl
    | cons d rest => simp [hrest d rfl]
  rw [below, hdrop, List.drop_one, List.tail_cons, List.takeWhile_append_of_pos, htake,
    List.append_nil]
  intro d hd
  rw [hbody d hd]
  rfl

end Directive

namespace Plan

variable (s : Settlement) (o : Options)

/-- The header down to the heading of the implications. -/
def opening : List Directive :=
  [banner o, .guardBegin o.guard, .inclusion o.buildConfig] ++
    o.userConfig.toList.map .inclusion ++
    .heading "Guards for externals" :: s.externals.map .undefine ++
    [.heading "Definitions from the build system", .inclusion o.buildConfig]

def implicationBlocks : List Directive :=
  s.implications.map fun i => .implication i.antecedent i.consequent

def derivationBlocks : List Directive :=
  s.derivations.map fun d => .derivation d.feature d.condition.human d.condition.rendered

def closing : List Directive := [.tableDeclaration o.table o.count, .guardEnd o.guard]

theorem header_ofSettlement : (ofSettlement s o).header =
    opening s o ++ .heading "Handle implications" :: (implicationBlocks s ++
      .heading "Warn when derived switches are specified manually" ::
        (derivationBlocks s ++ closing o)) := by
  simp only [ofSettlement, headerOf, opening, implicationBlocks, derivationBlocks, closing,
    List.append_assoc, List.cons_append]

theorem heading_mem_opening {title : Text} : .heading title ∈ opening s o ↔
    title = "Guards for externals" ∨ title = "Definitions from the build system" := by
  simp [opening, banner]

theorem isHeading_implicationBlocks : ∀ d ∈ implicationBlocks s, d.isHeading = false := by
  intro d hd
  obtain ⟨i, -, rfl⟩ := List.mem_map.1 hd
  rfl

theorem isHeading_derivationBlocks : ∀ d ∈ derivationBlocks s, d.isHeading = false := by
  intro d hd
  obtain ⟨e, -, rfl⟩ := List.mem_map.1 hd
  rfl

theorem below_implications :
    Directive.below "Handle implications" (ofSettlement s o).header = implicationBlocks s := by
  rw [header_ofSettlement]
  refine Directive.below_append ?_ (isHeading_implicationBlocks s) ?_
  · rw [heading_mem_opening]
    decide
  · intro d hd
    cases hd
    rfl

theorem below_derivations :
    Directive.below "Warn when derived switches are specified manually"
      (ofSettlement s o).header = derivationBlocks s ++ closing o := by
  have hheader : (ofSettlement s o).header =
      (opening s o ++ .heading "Handle implications" :: implicationBlocks s) ++
        .heading "Warn when derived switches are specified manually" ::
          ((derivationBlocks s ++ closing o) ++ []) := by
    rw [header_ofSettlement, List.append_nil, List.append_assoc, List.cons_append]
  rw [hheader]
  refine Directive.below_append ?_ ?_ ?_
  · intro hmem
    rcases List.mem_append.1 hmem with hopening | hblocks
    · rw [heading_mem_opening] at hopening
      revert hopening
      decide
    · rcases List.mem_cons.1 hblocks with heq | hblocks
      · injection heq with htitle
        revert htitle
        decide
      · cases isHeading_implicationBlocks s _ hblocks
  · intro d hd
    rcases List.mem_append.1 hd with hd | hd
    · exact isHeading_derivationBlocks s d hd
    · simp only [closing, List.mem_cons, List.not_mem_nil, or_false] at hd
      rcases hd with rfl | rfl
      · rfl
      · rfl
  · intro d hd
    cases hd

end Plan

end FeatureGuard
