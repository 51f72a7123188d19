import Mathlib.Data.Prod.Lex
import FeatureGuard.Proofs.Feature.Acceptance

/-!
The names that rules mention, by their places. The rules come sort by sort, first the implications,
then the derivations and last the requirements, those of one sort in the order in which they were
written, and the names in a rule from its beginning to its end. Of a name that is not declared, the
first mention on a line is the one that is reported.
-/

namespace FeatureGuard

/-- The turn of a sort of rules. -/
def RuleKind.turn : RuleKind → ℕ
  | implication => 0
  | derivation => 1
  | requirement => 2

/-- The place of a name in a rule: the turn of the rule, its number among those of its sort, and the
number of the name in it. -/
def RuleKind.place (rule : RuleKind) (number position : ℕ) : ℕ ×ₗ ℕ ×ₗ ℕ :=
  toLex (rule.turn, toLex (number, position))

theorem RuleKind.place_lt_of_turn {a b : RuleKind} (h : a.turn < b.turn)
    (number position number' position' : ℕ) :
    a.place number position < b.place number' position' :=
  Prod.Lex.toLex_lt_toLex.2 (.inl h)

theorem RuleKind.place_lt_of_number (rule : RuleKind) {number number' : ℕ} (h : number < number')
    (position position' : ℕ) : rule.place number position < rule.place number' position' :=
  Prod.Lex.toLex_lt_toLex.2 (.inr ⟨rfl, Prod.Lex.toLex_lt_toLex.2 (.inl h)⟩)

theorem RuleKind.place_lt_of_position (rule : RuleKind) (number : ℕ) {position position' : ℕ}
    (h : position < position') : rule.place number position < rule.place number position' :=
  Prod.Lex.toLex_lt_toLex.2 (.inr ⟨rfl, Prod.Lex.toLex_lt_toLex.2 (.inr ⟨rfl, h⟩)⟩)

namespace RuleSet

/-- The name and the line of a mention. -/
def Mention.spot (m : Mention) : Name × ℕ := (m.name, m.line)

theorem Mention.order_eq_iff (m n : Mention) : Mention.order m n = .eq ↔ m.spot = n.spot := by
  rw [Mention.order, compareLex_eq_eq, Mention.spot, Mention.spot, Prod.mk.injEq]
  simp only [compareOn, Std.LawfulEqCmp.compare_eq_iff_eq]

variable {r : RuleSet}

/-- A rule, by its sort and its number, stands on a line and has names in it: an implication its
antecedent and its consequent, a derivation the references of its condition, and a requirement its
feature and the references of its condition. -/
inductive Says (r : RuleSet) : RuleKind → ℕ → ℕ → List Name → Prop
  | implication {number : ℕ} {i : Implication} : r.implications[number]? = some i →
      Says r .implication number i.line [i.antecedent, i.consequent]
  | derivation {number : ℕ} {d : Derivation} : r.derivations[number]? = some d →
      Says r .derivation number d.line d.condition.references
  | requirement {number : ℕ} {q : Requirement} : r.requirements[number]? = some q →
      Says r .requirement number q.line (q.feature :: q.condition.references)

/-- A rule mentions a name at a place. -/
def MentionedAt (r : RuleSet) (m : Mention) (place : ℕ ×ₗ ℕ ×ₗ ℕ) : Prop :=
  ∃ number position names, r.Says m.rule number m.line names ∧ names[position]? = some m.name ∧
    place = m.rule.place number position

/-- The mentions of names that are not declared, of each name the first one on a line, in the order
of their places. -/
structure Strays (r : RuleSet) (strays : List (Mention × (ℕ ×ₗ ℕ ×ₗ ℕ))) : Prop where
  increasing : strays.Pairwise fun a b => a.2 < b.2
  mem_iff : ∀ m place, (m, place) ∈ strays ↔ r.MentionedAt m place ∧ ¬r.Declared m.name ∧
    ∀ other earlier, r.MentionedAt other earlier → other.spot = m.spot → place ≤ earlier

/-! ### The mentions with their places -/

section Placing

variable {Rule : Type} {rule : RuleKind} {line : Rule → ℕ} {names : Rule → List Name}
  {rules : List Rule}

/-- The mentions in rules of one sort. -/
def placedIn (rule : RuleKind) (line : Rule → ℕ) (names : Rule → List Name) (rules : List Rule) :
    List (Mention × (ℕ ×ₗ ℕ ×ₗ ℕ)) :=
  rules.zipIdx.flatMap fun (a, number) => (names a).zipIdx.map fun (name, position) =>
    (⟨name, rule, line a⟩, rule.place number position)

theorem map_fst_placedIn : (placedIn rule line names rules).map Prod.fst =
    rules.flatMap fun a => (names a).map fun name => ⟨name, rule, line a⟩ := by
  conv_rhs => rw [← List.zipIdx_map_fst 0 rules, List.flatMap_map]
  rw [placedIn, List.map_flatMap]
  refine congrArg (List.flatMap · _) (funext fun ⟨a, number⟩ => ?_)
  conv_rhs => rw [← List.zipIdx_map_fst 0 (names a), List.map_map]
  rw [List.map_map]
  rfl

theorem mem_placedIn {m : Mention} {place : ℕ ×ₗ ℕ ×ₗ ℕ} :
    (m, place) ∈ placedIn rule line names rules ↔ ∃ number a position,
      rules[number]? = some a ∧ (names a)[position]? = some m.name ∧
        m = ⟨m.name, rule, line a⟩ ∧ place = rule.place number position := by
  simp only [placedIn, List.mem_flatMap, List.mem_map, Prod.exists, List.mem_zipIdx_iff_getElem?,
    Prod.mk.injEq]
  constructor
  · rintro ⟨a, number, ha, name, position, hname, rfl, rfl⟩
    exact ⟨number, a, position, ha, hname, rfl, rfl⟩
  · rintro ⟨number, a, position, ha, hname, hm, rfl⟩
    exact ⟨a, number, ha, m.name, position, hname, hm.symm, rfl⟩

theorem pairwise_snd_lt_zipIdx {α : Type} (l : List α) (k : ℕ) :
    (l.zipIdx k).Pairwise fun a b => a.2 < b.2 := by
  induction l generalizing k with
  | nil => exact List.Pairwise.nil
  | cons a rest ih =>
      rw [List.zipIdx_cons, List.pairwise_cons]
      exact ⟨fun b hb => List.le_snd_of_mem_zipIdx hb, ih (k + 1)⟩

theorem pairwise_placedIn : (placedIn rule line names rules).Pairwise fun a b => a.2 < b.2 := by
  rw [placedIn, List.pairwise_flatMap]
  constructor
  · rintro ⟨a, number⟩ -
    rw [List.pairwise_map]
    exact (pairwise_snd_lt_zipIdx (names a) 0).imp fun h => rule.place_lt_of_position number h
  · refine (pairwise_snd_lt_zipIdx rules 0).imp fun h => ?_
    simp only [List.forall_mem_map]
    exact fun _ _ _ _ => rule.place_lt_of_number h _ _

/-- Mentions in rules whose turn is earlier have earlier places. -/
theorem lt_of_turn_lt {Rule' : Type} {rule' : RuleKind} {line' : Rule' → ℕ}
    {names' : Rule' → List Name} {rules' : List Rule'} (hturn : rule.turn < rule'.turn) :
    ∀ a ∈ placedIn rule line names rules, ∀ b ∈ placedIn rule' line' names' rules',
      a.2 < b.2 := by
  rintro ⟨m, _⟩ ha ⟨m', _⟩ hb
  obtain ⟨_, _, _, -, -, -, rfl⟩ := mem_placedIn.1 ha
  obtain ⟨_, _, _, -, -, -, rfl⟩ := mem_placedIn.1 hb
  exact RuleKind.place_lt_of_turn hturn _ _ _ _

end Placing

/-- All mentions, in the order of their places. -/
def placed (r : RuleSet) : List (Mention × (ℕ ×ₗ ℕ ×ₗ ℕ)) :=
  placedIn .implication Implication.line (fun i => [i.antecedent, i.consequent]) r.implications ++
    placedIn .derivation Derivation.line (·.condition.references) r.derivations ++
      placedIn .requirement Requirement.line (fun q => q.feature :: q.condition.references)
        r.requirements

theorem map_fst_placed (r : RuleSet) : r.placed.map Prod.fst = r.mentions := by
  rw [placed, List.map_append, List.map_append, map_fst_placedIn, map_fst_placedIn,
    map_fst_placedIn]
  rfl

theorem mem_placed {m : Mention} {place : ℕ ×ₗ ℕ ×ₗ ℕ} :
    (m, place) ∈ r.placed ↔ r.MentionedAt m place := by
  simp only [placed, List.mem_append, mem_placedIn]
  constructor
  · rintro ((⟨number, a, position, ha, hname, hm, rfl⟩ | ⟨number, a, position, ha, hname, hm, rfl⟩) |
      ⟨number, a, position, ha, hname, hm, rfl⟩)
    all_goals rw [hm]
    · exact ⟨number, position, _, .implication ha, hname, rfl⟩
    · exact ⟨number, position, _, .derivation ha, hname, rfl⟩
    · exact ⟨number, position, _, .requirement ha, hname, rfl⟩
  · obtain ⟨name, rule, line⟩ := m
    rintro ⟨number, position, names, hsays, hname, rfl⟩
    cases hsays with
    | implication h => exact .inl (.inl ⟨number, _, position, h, hname, rfl, rfl⟩)
    | derivation h => exact .inl (.inr ⟨number, _, position, h, hname, rfl, rfl⟩)
    | requirement h => exact .inr ⟨number, _, position, h, hname, rfl, rfl⟩

theorem pairwise_placed (r : RuleSet) : r.placed.Pairwise fun a b => a.2 < b.2 := by
  rw [placed, List.pairwise_append, List.pairwise_append]
  refine ⟨⟨pairwise_placedIn, pairwise_placedIn, lt_of_turn_lt (by decide)⟩, pairwise_placedIn, ?_⟩
  rw [List.forall_mem_append]
  exact ⟨lt_of_turn_lt (by decide), lt_of_turn_lt (by decide)⟩

/-! ### The mentions that are reported -/

/-- No mention of the same name on the same line has an earlier place. -/
def IsFirst (placed : List (Mention × (ℕ ×ₗ ℕ ×ₗ ℕ))) (a : Mention × (ℕ ×ₗ ℕ ×ₗ ℕ)) : Prop :=
  ∀ b ∈ placed, b.1.spot = a.1.spot → a.2 ≤ b.2

instance (placed : List (Mention × (ℕ ×ₗ ℕ ×ₗ ℕ))) : DecidablePred (IsFirst placed) :=
  fun a => inferInstanceAs (Decidable (∀ b ∈ placed, b.1.spot = a.1.spot → a.2 ≤ b.2))

theorem isFirst_iff {before behind : List (Mention × (ℕ ×ₗ ℕ ×ₗ ℕ))}
    {a : Mention × (ℕ ×ₗ ℕ ×ₗ ℕ)}
    (h : (before ++ a :: behind).Pairwise fun a b => a.2 < b.2) :
    IsFirst (before ++ a :: behind) a ↔ ∀ b ∈ before, b.1.spot ≠ a.1.spot := by
  obtain ⟨-, hbehind, hbefore⟩ := List.pairwise_append.1 h
  constructor
  · intro hfirst b hb heq
    exact (hbefore b hb a List.mem_cons_self).not_ge
      (hfirst b (List.mem_append_left _ hb) heq)
  · intro hnew b hb heq
    rcases List.mem_append.1 hb with hb | hb
    · exact absurd heq (hnew b hb)
    · rcases List.mem_cons.1 hb with rfl | hb
      · exact le_rfl
      · exact ((List.pairwise_cons.1 hbehind).1 b hb).le

theorem exists_strays (r : RuleSet) : ∃ strays, r.Strays strays ∧
    unresolved r.kind? r = strays.map fun a => .unresolved a.1.name a.1.rule a.1.line := by
  have : Std.TransCmp Mention.order := inferInstanceAs (Std.TransCmp (compareLex _ _))
  let undeclared := r.placed.filter fun a => (r.kind? a.1.name).isNone
  have hmem : ∀ m place, (m, place) ∈ undeclared ↔
      r.MentionedAt m place ∧ ¬r.Declared m.name := by
    intro m place
    rw [List.mem_filter, mem_placed, kind?_isNone_iff]
  have hincreasing : undeclared.Pairwise fun a b => a.2 < b.2 := r.pairwise_placed.filter _
  refine ⟨undeclared.filter (IsFirst undeclared ·), ⟨hincreasing.filter _, ?_⟩, ?_⟩
  · intro m place
    rw [List.mem_filter, hmem, decide_eq_true_eq, and_assoc]
    refine and_congr_right fun _ => and_congr_right fun hundeclared => ?_
    constructor
    · intro hfirst other earlier hother heq
      have hname : other.name = m.name := congrArg Prod.fst heq
      exact hfirst (other, earlier) ((hmem _ _).2 ⟨hother, hname ▸ hundeclared⟩) heq
    · intro hfirst b hb heq
      exact hfirst b.1 b.2 ((hmem _ _).1 hb).1 heq
  · have hnew : ∀ before a behind, undeclared = before ++ a :: behind →
        (IsFirst undeclared a ↔ ∀ b ∈ before, Mention.order b.1 a.1 ≠ .eq) := by
      intro before a behind hsplit
      rw [hsplit] at hincreasing ⊢
      simp only [isFirst_iff hincreasing, ne_eq, Mention.order_eq_iff]
    have hsifted : Sifted.ofList Mention.order (undeclared.map Prod.fst) = _ :=
      Sifted.ofList_map hnew
    have hmentions : (r.mentions.filter fun m => (r.kind? m.name).isNone) =
        undeclared.map Prod.fst := by
      rw [← map_fst_placed, List.filter_map]
      rfl
    rw [unresolved, hmentions, hsifted, List.map_map]
    rfl

end RuleSet

end FeatureGuard
