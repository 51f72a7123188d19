import FeatureGuard.Proofs.Artifact.Header

/-!
The sections of the source: the requirements, and the table of names.
-/

namespace FeatureGuard.Plan

variable (s : Settlement) (o : Options)

def requirementBlocks : List Directive :=
  s.requirements.map fun q => .requirement q.feature q.condition.human q.condition.rendered

def nameTable : List Directive :=
  .tableBegin o.table :: (s.features.map .tableEntry ++ [.tableEnd o.table o.count])

theorem source_ofSettlement : (ofSettlement s o).source =
    [banner o, .inclusion o.configHeader] ++ .heading "Handle requirements" ::
      (requirementBlocks s ++ .heading "Feature list" :: nameTable s o) := by
  simp only [ofSettlement, sourceOf, requirementBlocks, nameTable, List.append_assoc,
    List.cons_append, List.nil_append]

theorem isHeading_requirementBlocks : ∀ d ∈ requirementBlocks s, d.isHeading = false := by
  intro d hd
  obtain ⟨q, -, rfl⟩ := List.mem_map.1 hd
  rfl

theorem isHeading_nameTable : ∀ d ∈ nameTable s o, d.isHeading = false := by
  intro d hd
  rcases List.mem_cons.1 hd with rfl | hd
  · rfl
  rcases List.mem_append.1 hd with hd | hd
  · obtain ⟨n, -, rfl⟩ := List.mem_map.1 hd
    rfl
  · obtain rfl := List.mem_singleton.1 hd
    rfl

theorem below_requirements :
    Directive.below "Handle requirements" (ofSettlement s o).source = requirementBlocks s := by
  rw [source_ofSettlement]
  refine Directive.below_append ?_ (isHeading_requirementBlocks s) ?_
  · simp [banner]
  · intro d hd
    cases hd
    rfl

theorem below_nameTable :
    Directive.below "Feature list" (ofSettlement s o).source = nameTable s o := by
  have hsource : (ofSettlement s o).source =
      ([banner o, .inclusion o.configHeader] ++ .heading "Handle requirements" ::
        requirementBlocks s) ++ .heading "Feature list" :: (nameTable s o ++ []) := by
    rw [source_ofSettlement, List.append_nil, List.append_assoc]
    rfl
  rw [hsource]
  refine Directive.below_append ?_ (isHeading_nameTable s o) (fun d hd => by cases hd)
  intro hmem
  rcases List.mem_append.1 hmem with hopening | hblocks
  · simp [banner] at hopening
  · rcases List.mem_cons.1 hblocks with heq | hblocks
    · injection heq with htitle
      revert htitle
      decide
    · cases isHeading_requirementBlocks s _ hblocks

end FeatureGuard.Plan
