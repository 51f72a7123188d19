import FeatureGuard.Proofs.Dependency.Cycle
import FeatureGuard.Proofs.Feature.Mention
import FeatureGuard.Proofs.Feature.Schedule

/-!
The diagnosis of a rule set that is refused. All violations are reported at once, sort by sort: the
names that are declared again, the names that are used but not declared, the implications that go
against the kinds of their features, and the cycles among the declared names. What is reported of
one sort depends on the rule set alone and not on what is reported of another.
-/

namespace FeatureGuard.RuleSet

variable {r : RuleSet}

/-! ### Names that are declared again -/

/-- Each declaration of a name that is declared further up, behind the first declaration of the
name. -/
def redeclarations (r : RuleSet) : List (Declaration × Declaration) :=
  r.declarations.zipIdx.filterMap fun (again, place) =>
    ((r.declarations.take place).find? (·.name == again.name)).map (·, again)

/-- What is wrong with declaring a name again, after a first declaration. -/
inductive Clashes : Declaration × Declaration → Violation → Prop
  | nowDerived {first again : Declaration} : first.kind = .external → again.kind = .derived →
      Clashes (first, again) (.kindConflict again.name .externalDerived again.line)
  | nowExternal {first again : Declaration} : first.kind = .derived → again.kind = .external →
      Clashes (first, again) (.kindConflict again.name .externalDerived first.line)
  | duplicate {first again : Declaration} : ¬(first.kind = .external ∧ again.kind = .derived) →
      ¬(first.kind = .derived ∧ again.kind = .external) → Clashes (first, again)
        (.duplicate again.name again.kind again.line first.kind first.line)

theorem clashes_clash (first again : Declaration) : Clashes (first, again) (clash first again) := by
  rw [clash]
  split
  · rename_i hfirst hagain
    exact .nowDerived hfirst hagain
  · rename_i hfirst hagain
    exact .nowExternal hfirst hagain
  · rename_i hderived hexternal
    exact .duplicate (fun h => hderived h.1 h.2) fun h => hexternal h.1 h.2

/-- The known declarations are the first ones among those further up. -/
theorem clashes_eq_filterMap {known : Std.TreeMap Name Declaration} {past rest : List Declaration}
    (hknown : ∀ name : Name, known[name]? = past.find? (·.name == name)) :
    clashes known rest = (rest.zipIdx past.length).filterMap fun (again, place) =>
      (((past ++ rest).take place).find? (·.name == again.name)).map (clash · again) := by
  induction rest generalizing known past with
  | nil => rfl
  | cons d rest ih =>
      have hsplit : past ++ d :: rest = past ++ [d] ++ rest := by simp
      -- whether the name is new or not, its first declaration is known from here on
      have hstep : ∀ {known' : Std.TreeMap Name Declaration},
          known'[d.name]? = known[d.name]?.or (some d) →
          (∀ name, d.name ≠ name → known'[name]? = known[name]?) →
          clashes known' rest = (rest.zipIdx (past.length + 1)).filterMap fun (again, place) =>
            (((past ++ d :: rest).take place).find? (·.name == again.name)).map (clash · again) := by
        intro known' hself hother
        have hknown' : ∀ name : Name, known'[name]? = (past ++ [d]).find? (·.name == name) := by
          intro name
          rw [List.find?_append, ← hknown, List.find?_singleton]
          by_cases hname : d.name = name
          · subst hname
            simp [hself]
          · simp [hname, hother name hname]
        rw [ih hknown', hsplit, List.length_append, List.length_singleton]
      rw [clashes, List.zipIdx_cons, List.filterMap_cons]
      dsimp only
      rw [List.take_left, ← hknown]
      cases hfirst : known[d.name]? with
      | none =>
          refine hstep ?_ fun name hname => ?_
          · rw [hfirst, Std.TreeMap.getElem?_insert_self, Option.none_or]
          · simp [Std.TreeMap.getElem?_insert, hname]
      | some first =>
          refine congrArg (clash first d :: ·) (hstep ?_ fun _ _ => rfl)
          rw [hfirst, Option.some_or]

theorem clashes_declarations (r : RuleSet) : clashes ∅ r.declarations =
    r.redeclarations.map fun (first, again) => clash first again := by
  have hknown : ∀ name : Name,
      (∅ : Std.TreeMap Name Declaration)[name]? = [].find? (·.name == name) :=
    fun _ => Std.TreeMap.getElem?_emptyc
  rw [clashes_eq_filterMap hknown, redeclarations, List.map_filterMap]
  simp only [Option.map_map]
  rfl

/-! ### Implications against the kinds of their features -/

/-- The kind that a name is declared with first. -/
def firstKind? (r : RuleSet) (name : Name) : Option Kind :=
  (r.declarations.find? (·.name == name)).map Declaration.kind

theorem kind?_eq_firstKind? (r : RuleSet) : r.kind? = r.firstKind? := by
  funext name
  rw [kind?, getElem?_firstDeclarations, firstKind?]

/-- What is wrong with an implication because of the kind of its consequent. -/
inductive ConsequentConflict (r : RuleSet) (i : Implication) : List Violation → Prop
  | external : r.firstKind? i.consequent = some .external → ConsequentConflict r i
      [.kindConflict i.consequent (.impliedExternal i.antecedent) i.line]
  | derived : r.firstKind? i.consequent = some .derived → ConsequentConflict r i
      [.kindConflict i.consequent (.impliedDerived i.antecedent) i.line]
  | none : r.firstKind? i.consequent ≠ some .external →
      r.firstKind? i.consequent ≠ some .derived → ConsequentConflict r i []

/-- What is wrong with an implication because of the kind of its antecedent. -/
inductive AntecedentConflict (r : RuleSet) (i : Implication) : List Violation → Prop
  | derived : r.firstKind? i.antecedent = some .derived → AntecedentConflict r i
      [.kindConflict i.antecedent (.derivedAntecedent i.consequent) i.line]
  | none : r.firstKind? i.antecedent ≠ some .derived → AntecedentConflict r i []

/-- What is wrong with an implication, first because of its consequent. -/
def Conflicts (r : RuleSet) (i : Implication) (violations : List Violation) : Prop :=
  ∃ ofConsequent ofAntecedent, r.ConsequentConflict i ofConsequent ∧
    r.AntecedentConflict i ofAntecedent ∧ violations = ofConsequent ++ ofAntecedent

theorem conflicts_kindConflicts (r : RuleSet) (i : Implication) :
    r.Conflicts i (kindConflicts r.firstKind? i) := by
  refine ⟨_, _, ?_, ?_, rfl⟩
  · split
    · rename_i h
      exact .external h
    · rename_i h
      exact .derived h
    · rename_i hexternal hderived
      exact .none hexternal hderived
  · split
    · rename_i h
      exact .derived h
    · rename_i h
      exact .none h

/-! ### Cycles among the declared names -/

/-- The names of a strongly connected component that holds a cycle, in the order in which they are
declared. -/
structure IsCycle (r : RuleSet) (members : List Name) : Prop where
  increasing : members.Pairwise fun a b => r.place a < r.place b
  mem_iff : ∀ a ∈ members, ∀ b, b ∈ members ↔
    Relation.ReflTransGen r.Precedes a b ∧ Relation.ReflTransGen r.Precedes b a
  cyclic : ∃ a ∈ members, Relation.TransGen r.Precedes a a

theorem reaches_graph_iff {u v : Fin r.roster.size} : (r.graph r.roster).Reaches u v ↔
    Relation.ReflTransGen r.Precedes (r.roster.name u) (r.roster.name v) := by
  rw [Graph.Reaches, Relation.reflTransGen_iff_eq_or_transGen,
    Relation.reflTransGen_iff_eq_or_transGen, transGen_edge_graph, r.roster.name_injective.eq_iff]

theorem exists_name_of_reaches {u : Fin r.roster.size} {name : Name}
    (h : Relation.ReflTransGen r.Precedes (r.roster.name u) name) :
    ∃ v, r.roster.name v = name := by
  cases h with
  | refl => exact ⟨u, rfl⟩
  | tail _ hlast => exact declared_iff_exists_name.1 hlast.2.1

theorem IsCycle.declared {members : List Name} (h : r.IsCycle members) {name : Name}
    (hname : name ∈ members) : r.Declared name := by
  obtain ⟨a, ha, hcycle⟩ := h.cyclic
  obtain ⟨hto, hback⟩ := (h.mem_iff a ha name).1 hname
  have hround : Relation.TransGen r.Precedes name name :=
    (hcycle.trans_left hto).trans_right hback
  obtain ⟨next, hnext, -⟩ := Relation.TransGen.head'_iff.1 hround
  exact hnext.1

theorem isCycle_of_isComponent {nodes : List (Fin r.roster.size)}
    (h : (r.graph r.roster).IsComponent nodes)
    (hcyclic : 2 ≤ nodes.length ∨ ∃ v ∈ nodes, (r.graph r.roster).Edge v v) :
    r.IsCycle (nodes.map r.roster.name) where
  increasing := List.pairwise_map.2 (h.increasing.imp fun hlt => r.strictMono_place hlt)
  mem_iff := by
    rw [List.forall_mem_map]
    intro u hu name
    constructor
    · intro hname
      obtain ⟨v, hv, rfl⟩ := List.mem_map.1 hname
      rw [← reaches_graph_iff, ← reaches_graph_iff]
      exact (h.mem_iff u hu v).1 hv
    · rintro ⟨hto, hback⟩
      obtain ⟨v, rfl⟩ := exists_name_of_reaches hto
      rw [← reaches_graph_iff] at hto hback
      exact List.mem_map_of_mem ((h.mem_iff u hu v).2 ⟨hto, hback⟩)
  cyclic := by
    rcases hcyclic with hlength | ⟨v, hv, hedge⟩
    · match nodes, hlength with
      | u :: v :: rest, _ =>
          -- two nodes that reach each other
          have hne : v ≠ u := ((List.pairwise_cons.1 h.increasing).1 v List.mem_cons_self).ne'
          obtain ⟨hto, hback⟩ := (h.mem_iff u List.mem_cons_self v).1
            (List.mem_cons_of_mem _ List.mem_cons_self)
          have hstep := (Relation.reflTransGen_iff_eq_or_transGen.1 hto).resolve_left hne
          exact ⟨_, List.mem_cons_self, transGen_edge_graph.1 (hstep.trans_left hback)⟩
    · exact ⟨_, List.mem_map_of_mem hv, .single (edge_graph.1 hedge)⟩

theorem IsCycle.isComponent {nodes : List (Fin r.roster.size)}
    (h : r.IsCycle (nodes.map r.roster.name)) : (r.graph r.roster).IsComponent nodes where
  increasing := (List.pairwise_map.1 h.increasing).imp r.strictMono_place.lt_iff_lt.1
  ne_nil := by
    rintro rfl
    obtain ⟨a, ha, -⟩ := h.cyclic
    cases ha
  mem_iff u hu v := by
    rw [reaches_graph_iff, reaches_graph_iff, ← h.mem_iff _ (List.mem_map_of_mem hu),
      List.mem_map_of_injective r.roster.name_injective]

theorem IsCycle.edges {nodes : List (Fin r.roster.size)}
    (h : r.IsCycle (nodes.map r.roster.name)) :
    2 ≤ nodes.length ∨ ∃ v ∈ nodes, (r.graph r.roster).Edge v v := by
  obtain ⟨a, ha, hcycle⟩ := h.cyclic
  obtain ⟨v, hv, rfl⟩ := List.mem_map.1 ha
  obtain ⟨w, hvw, hwv⟩ := Relation.TransGen.head'_iff.1 (transGen_edge_graph.2 hcycle)
  have hw : w ∈ nodes := (h.isComponent.mem_iff v hv w).2 ⟨.single hvw, hwv⟩
  match nodes, hv, hw with
  | [node], hv, hw =>
      obtain rfl := List.mem_singleton.1 hv
      obtain rfl := List.mem_singleton.1 hw
      exact .inr ⟨w, hw, hvw⟩
  | _ :: _ :: _, _, _ => exact .inl (Nat.le_add_left 2 _)

/-- The names of the cycles that are reported. -/
def cycles (r : RuleSet) : List (List Name) :=
  (r.graph r.roster).cycles.map (·.map r.roster.name)

theorem mem_cycles_iff {members : List Name} : members ∈ r.cycles ↔ r.IsCycle members := by
  rw [cycles, List.mem_map]
  constructor
  · rintro ⟨nodes, hnodes, rfl⟩
    obtain ⟨hcomponent, hcyclic⟩ := Graph.mem_cycles_iff.1 hnodes
    exact isCycle_of_isComponent hcomponent hcyclic
  · intro h
    obtain ⟨nodes, rfl⟩ : members ∈ Set.range (List.map r.roster.name) := by
      rw [Set.range_list_map]
      exact fun name hname => declared_iff_exists_name.1 (h.declared hname)
    exact ⟨nodes, Graph.mem_cycles_iff.2 ⟨h.isComponent, h.edges⟩, rfl⟩

theorem pairwise_cycles (r : RuleSet) :
    r.cycles.Pairwise fun c d => ∃ a ∈ c, ∀ b ∈ d, r.place a < r.place b := by
  refine List.pairwise_map.2 ((Graph.pairwise_cycles _).imp ?_)
  rintro c d ⟨-, u, hu, hlt⟩
  exact ⟨_, List.mem_map_of_mem hu, List.forall_mem_map.2 fun v hv => r.strictMono_place (hlt v hv)⟩

theorem nodup_cycles (r : RuleSet) : r.cycles.Nodup := by
  refine r.pairwise_cycles.imp ?_
  rintro c _ ⟨a, ha, hlt⟩ rfl
  exact (hlt a ha).false

/-! ### All violations together -/

theorem order_eq_error {violations : List Violation} (h : r.order = .error violations) :
    violations = r.cycles.map .cycle := by
  simp only [order] at h
  split at h
  · cases h
  · rename_i found hfound
    cases h
    rw [Graph.eq_cycles_of_topologicalOrder_eq_error hfound, cycles, List.map_map]
    rfl

theorem cycles_eq_nil {order : List Name} (h : r.order = .ok order) : r.cycles = [] := by
  refine List.eq_nil_iff_forall_not_mem.2 fun members hmembers => ?_
  obtain ⟨a, -, hcycle⟩ := (mem_cycles_iff.1 hmembers).cyclic
  exact order_isOk_iff.1 ⟨order, h⟩ a hcycle

theorem settle_eq_error {violations : List Violation} (h : r.settle = .error violations) :
    violations = r.faults ++ r.cycles.map .cycle := by
  rw [settle] at h
  split at h
  · cases h
  · rename_i order horder _
    cases h
    rw [cycles_eq_nil horder]
    exact (List.append_nil _).symm
  · rename_i cycles horder
    cases h
    rw [order_eq_error horder]

/-- Violations, sort by sort. -/
structure Diagnosis where
  clashes : List Violation
  unresolved : List Violation
  /-- the conflicts of each implication -/
  conflicts : List (List Violation)
  cycles : List (List Name)

def Diagnosis.violations (d : Diagnosis) : List Violation :=
  d.clashes ++ d.unresolved ++ d.conflicts.flatten ++ d.cycles.map .cycle

/-- The violations are those of a rule set: one for each declaration of a name that was declared
before, one for each name that is not declared and each line that mentions it, those that the kinds
of their ends call for at each implication, and one for each cycle. -/
structure Diagnosis.Describes (d : Diagnosis) (r : RuleSet) : Prop where
  clashes : List.Forall₂ Clashes r.redeclarations d.clashes
  unresolved : ∃ strays, r.Strays strays ∧
    d.unresolved = strays.map fun (m, _) => .unresolved m.name m.rule m.line
  conflicts : List.Forall₂ r.Conflicts r.implications d.conflicts
  mem_cycles : ∀ members, members ∈ d.cycles ↔ r.IsCycle members
  nodup_cycles : d.cycles.Nodup
  pairwise_cycles : d.cycles.Pairwise fun c c' => ∃ a ∈ c, ∀ b ∈ c', r.place a < r.place b

/-- What is reported of a rule set that is refused are all its violations and no others. -/
theorem refusal_reports_all {violations : List Violation} (h : r.settle = .error violations) :
    ∃ d : Diagnosis, d.Describes r ∧ violations = d.violations := by
  refine ⟨⟨clashes ∅ r.declarations, unresolved r.kind? r,
    r.implications.map (kindConflicts r.kind?), r.cycles⟩, ⟨?_, r.exists_strays, ?_,
    fun _ => mem_cycles_iff, r.nodup_cycles, r.pairwise_cycles⟩, ?_⟩
  · rw [clashes_declarations, List.forall₂_map_right_iff, List.forall₂_same]
    exact fun p _ => clashes_clash p.1 p.2
  · rw [kind?_eq_firstKind?, List.forall₂_map_right_iff, List.forall₂_same]
    exact fun i _ => r.conflicts_kindConflicts i
  · rw [settle_eq_error h, faults_eq, List.flatMap_def]
    rfl

/-- Names that are declared again, names that are mentioned and not declared, implications of and by
features of the wrong kind, and three names that depend on each other. -/
def tangled : RuleSet :=
  let p : Name := ⟨"P", rfl⟩
  let q : Name := ⟨"Q", rfl⟩
  let u : Name := ⟨"U", rfl⟩
  let v : Name := ⟨"V", rfl⟩
  let w : Name := ⟨"W", rfl⟩
  let ghost : Name := ⟨"GHOST", rfl⟩
  let phantom : Name := ⟨"PHANTOM", rfl⟩
  let spectre : Name := ⟨"SPECTRE", rfl⟩
  let either : Condition := ⟨"P or SPECTRE", "defined(P) || defined(SPECTRE)", [p, spectre]⟩
  { declarations := [⟨p, .basic, 1⟩, ⟨p, .external, 2⟩, ⟨v, .external, 3⟩, ⟨v, .derived, 4⟩,
      ⟨q, .basic, 5⟩, ⟨u, .basic, 6⟩, ⟨w, .derived, 7⟩]
    implications := [⟨p, ghost, 8⟩, ⟨ghost, v, 8⟩, ⟨q, u, 9⟩, ⟨u, q, 10⟩, ⟨w, q, 11⟩]
    derivations := [⟨v, ⟨"PHANTOM", "defined(PHANTOM)", [phantom]⟩, 4⟩,
      ⟨w, ⟨"Q", "defined(Q)", [q]⟩, 7⟩]
    requirements := [⟨ghost, either, 12⟩] }

def tangles : List Violation :=
  let p : Name := ⟨"P", rfl⟩
  let q : Name := ⟨"Q", rfl⟩
  let u : Name := ⟨"U", rfl⟩
  let v : Name := ⟨"V", rfl⟩
  let w : Name := ⟨"W", rfl⟩
  let ghost : Name := ⟨"GHOST", rfl⟩
  [.duplicate p .external 2 .basic 1, .kindConflict v .externalDerived 4,
    .unresolved ghost .implication 8, .unresolved ⟨"PHANTOM", rfl⟩ .derivation 4,
    .unresolved ghost .requirement 12, .unresolved ⟨"SPECTRE", rfl⟩ .requirement 12,
    .kindConflict v (.impliedExternal ghost) 8, .kindConflict w (.derivedAntecedent q) 11,
    .cycle [q, u, w]]

theorem refusal_reports_tangles : tangled.settle = .error tangles ∧
    ∃ d : Diagnosis, d.Describes tangled ∧ tangles = d.violations := by
  have hrefused : tangled.settle = .error tangles := by cbv
  exact ⟨hrefused, refusal_reports_all hrefused⟩

/-! ### Names that are external and derived -/

theorem mem_redeclarations {first again : Declaration} : (first, again) ∈ r.redeclarations ↔
    ∃ before behind, r.declarations = before ++ again :: behind ∧
      before.find? (·.name == again.name) = some first := by
  rw [redeclarations, List.mem_filterMap]
  constructor
  · rintro ⟨⟨d, place⟩, hmem, hfound⟩
    obtain ⟨other, hother, heq⟩ := Option.map_eq_some_iff.1 hfound
    cases heq
    obtain ⟨before, behind, hsplit⟩ := List.append_of_mem hmem
    refine ⟨before.map Prod.fst, behind.map Prod.fst, ?_, ?_⟩
    · rw [← List.zipIdx_map_fst 0 r.declarations, hsplit, List.map_append, List.map_cons]
    · rw [← Sifted.take_of_zipIdx_eq hsplit]
      exact hother
  · rintro ⟨before, behind, hsplit, hfound⟩
    refine ⟨(again, before.length), ?_, ?_⟩
    · rw [List.mem_zipIdx_iff_getElem?, hsplit, List.getElem?_append_right le_rfl, Nat.sub_self]
      rfl
    · dsimp only
      rw [hsplit, List.take_left, hfound]
      rfl

theorem firstKind?_of_redeclared {first again : Declaration}
    (h : (first, again) ∈ r.redeclarations) : r.firstKind? again.name = some first.kind := by
  obtain ⟨before, behind, hsplit, hfound⟩ := mem_redeclarations.1 h
  rw [firstKind?, hsplit, List.find?_append, hfound]
  rfl

/-- Of a name that is declared with two kinds, the declaration with the kind that is not the first
one is a redeclaration. -/
theorem exists_redeclared {name : Name} {kind other : Kind} (h : r.firstKind? name = some kind)
    (hother : name ∈ r.declaredAs other) (hne : other ≠ kind) :
    ∃ first again, (first, again) ∈ r.redeclarations ∧ first.kind = kind ∧ again.kind = other ∧
      again.name = name := by
  obtain ⟨first, hfirst, rfl⟩ := Option.map_eq_some_iff.1 h
  obtain ⟨again, hmem, rfl, rfl⟩ := mem_declaredAs.1 hother
  obtain ⟨hname, before, behind, hsplit, hbefore⟩ := List.find?_eq_some_iff_append.1 hfirst
  refine ⟨first, again, mem_redeclarations.2 ?_, rfl, rfl, rfl⟩
  -- nothing in front of the first declaration has the name, and the first one another kind
  have hbehind : again ∈ behind := by
    rw [hsplit, List.mem_append, List.mem_cons] at hmem
    rcases hmem with hmem | rfl | hmem
    · simpa using hbefore again hmem
    · exact absurd rfl hne
    · exact hmem
  obtain ⟨between, rest, rfl⟩ := List.append_of_mem hbehind
  refine ⟨before ++ first :: between, rest, by simp [hsplit], ?_⟩
  exact List.find?_eq_some_iff_append.2 ⟨hname, before, between, rfl, hbefore⟩

theorem mem_violations_iff {name : Name} {line : ℕ} :
    .kindConflict name .externalDerived line ∈ r.faults ++ r.cycles.map .cycle ↔
      ∃ first again, (first, again) ∈ r.redeclarations ∧
        clash first again = .kindConflict name .externalDerived line := by
  have hconflicts : ∀ i, .kindConflict name .externalDerived line ∉ kindConflicts r.kind? i := by
    intro i hmem
    rw [kindConflicts, List.mem_append] at hmem
    rcases hmem with hmem | hmem <;> split at hmem <;> simp at hmem
  rw [faults_eq, clashes_declarations, unresolved]
  simp [hconflicts]

theorem clash_eq_externalDerived {first again : Declaration} {name : Name} {line : ℕ}
    (h : clash first again = .kindConflict name .externalDerived line) :
    again.name = name ∧ first.kind ≠ .basic := by
  have hclash := clashes_clash first again
  rw [h] at hclash
  cases hclash with
  | nowDerived hfirst _ => exact ⟨rfl, by simp [hfirst]⟩
  | nowExternal hfirst _ => exact ⟨rfl, by simp [hfirst]⟩

theorem exists_externalDerived {name : Name} {kind other : Kind}
    (hkinds : kind = .external ∧ other = .derived ∨ kind = .derived ∧ other = .external)
    (h : r.firstKind? name = some kind) (hother : name ∈ r.declaredAs other) :
    ∃ line, .kindConflict name .externalDerived line ∈ r.faults ++ r.cycles.map .cycle := by
  have hne : other ≠ kind := by
    rcases hkinds with ⟨rfl, rfl⟩ | ⟨rfl, rfl⟩ <;> decide
  obtain ⟨first, again, hmem, hfirst, hagain, rfl⟩ := exists_redeclared h hother hne
  simp only [mem_violations_iff]
  rcases hkinds with ⟨rfl, rfl⟩ | ⟨rfl, rfl⟩
  · exact ⟨again.line, first, again, hmem, by rw [clash, hfirst, hagain]⟩
  · exact ⟨first.line, first, again, hmem, by rw [clash, hfirst, hagain]⟩

theorem not_settled_of_two_kinds {name : Name} {kind other : Kind} (h : name ∈ r.declaredAs kind)
    (hother : name ∈ r.declaredAs other) (hne : kind ≠ other) :
    ∃ violations, r.settle = .error violations := by
  cases hsettle : r.settle with
  | error violations => exact ⟨violations, rfl⟩
  | ok s =>
      have hunique := (consistent_of_settle_eq_ok hsettle).unique
      rw [← kind?_eq_some_iff hunique] at h hother
      exact absurd (Option.some_injective _ (h.symm.trans hother)) hne

/-- A rule set in which a name is external and derived is refused, and the report has a conflict of
the two kinds unless the name is declared basic first. -/
theorem externalDerived_reported_iff {name : Name} (hexternal : name ∈ r.declaredAs .external)
    (hderived : name ∈ r.declaredAs .derived) :
    ∃ violations, r.settle = .error violations ∧
      ((∃ line, .kindConflict name .externalDerived line ∈ violations) ↔
        r.firstKind? name ≠ some .basic) := by
  obtain ⟨violations, hrefused⟩ := not_settled_of_two_kinds hexternal hderived (by decide)
  refine ⟨violations, hrefused, ?_⟩
  rw [settle_eq_error hrefused]
  constructor
  · rintro ⟨line, hmem⟩ hbasic
    obtain ⟨first, again, hagain, hclash⟩ := mem_violations_iff.1 hmem
    obtain ⟨rfl, hne⟩ := clash_eq_externalDerived hclash
    rw [firstKind?_of_redeclared hagain] at hbasic
    exact hne (Option.some_injective _ hbasic)
  · intro hbasic
    obtain ⟨d, hd, -, hname⟩ := mem_declaredAs.1 hexternal
    cases hfirst : r.firstKind? name with
    | none =>
        rw [firstKind?, Option.map_eq_none_iff, List.find?_eq_none] at hfirst
        exact absurd (beq_iff_eq.2 hname) (hfirst d hd)
    | some kind =>
        match kind with
        | .basic => exact absurd hfirst hbasic
        | .external => exact exists_externalDerived (.inl ⟨rfl, rfl⟩) hfirst hderived
        | .derived => exact exists_externalDerived (.inr ⟨rfl, rfl⟩) hfirst hexternal

/-- A name that is declared derived, then basic, and then external. -/
def disputed : RuleSet :=
  let p : Name := ⟨"P", rfl⟩
  let v : Name := ⟨"V", rfl⟩
  { declarations := [⟨p, .basic, 1⟩, ⟨v, .derived, 2⟩, ⟨v, .basic, 3⟩, ⟨v, .external, 4⟩]
    derivations := [⟨v, ⟨"P", "defined(P)", [p]⟩, 2⟩] }

theorem externalDerived_reported_disputed :
    let v : Name := ⟨"V", rfl⟩
    v ∈ disputed.declaredAs .external ∧ v ∈ disputed.declaredAs .derived ∧
      ∃ violations, disputed.settle = .error violations ∧
        ((∃ line, .kindConflict v .externalDerived line ∈ violations) ↔
          disputed.firstKind? v ≠ some .basic) := by
  intro v
  have hexternal : v ∈ disputed.declaredAs .external := by decide
  have hderived : v ∈ disputed.declaredAs .derived := by decide
  exact ⟨hexternal, hderived, externalDerived_reported_iff hexternal hderived⟩

/-- A name that is declared basic, then external, and then derived. -/
def masked : RuleSet :=
  let p : Name := ⟨"P", rfl⟩
  let v : Name := ⟨"V", rfl⟩
  { declarations := [⟨p, .basic, 1⟩, ⟨v, .basic, 2⟩, ⟨v, .external, 3⟩, ⟨v, .derived, 4⟩]
    derivations := [⟨v, ⟨"P", "defined(P)", [p]⟩, 4⟩] }

/-- Two duplicates are all that is reported of a name that is declared basic before it is external
and derived. -/
theorem externalDerived_masked :
    let v : Name := ⟨"V", rfl⟩
    let duplicates := [.duplicate v .external 3 .basic 2, .duplicate v .derived 4 .basic 2]
    v ∈ masked.declaredAs .external ∧ v ∈ masked.declaredAs .derived ∧
      masked.settle = .error duplicates ∧
        ∀ line, .kindConflict v .externalDerived line ∉ duplicates := by
  refine ⟨by decide, by decide, by cbv, fun line => ?_⟩
  simp

end FeatureGuard.RuleSet
