import Mathlib.Logic.Function.Iterate

/-!
Formulas and their spelling. A definitions document and the preprocessor spell formulas alike, in
symbols of which only the operands differ: a negation binds tighter than a conjunction, and a
conjunction tighter than a disjunction. Every row of symbols spells at most one formula, and reading
it from left to right finds that formula.
-/

namespace FeatureGuard

inductive Formula (α : Type)
  | atom (a : α)
  | not (f : Formula α)
  | and (f g : Formula α)
  | or (f g : Formula α)
  deriving DecidableEq

inductive Symbol (α : Type)
  | operand (a : α)
  | not
  | and
  | or
  | opening
  | closing
  deriving DecidableEq

namespace Formula

variable {α β : Type}

/-- Whether a formula is true where certain atoms are. -/
def Holds (p : α → Prop) : Formula α → Prop
  | atom a => p a
  | not f => ¬f.Holds p
  | and f g => f.Holds p ∧ g.Holds p
  | or f g => f.Holds p ∨ g.Holds p

def decideHolds (p : α → Prop) [DecidablePred p] : (f : Formula α) → Decidable (f.Holds p)
  | atom a => inferInstanceAs (Decidable (p a))
  | not f =>
    have := f.decideHolds p
    inferInstanceAs (Decidable (¬f.Holds p))
  | and f g =>
    have := f.decideHolds p
    have := g.decideHolds p
    inferInstanceAs (Decidable (f.Holds p ∧ g.Holds p))
  | or f g =>
    have := f.decideHolds p
    have := g.decideHolds p
    inferInstanceAs (Decidable (f.Holds p ∨ g.Holds p))

instance (p : α → Prop) [DecidablePred p] (f : Formula α) : Decidable (f.Holds p) :=
  f.decideHolds p

def map (h : α → β) : Formula α → Formula β
  | atom a => atom (h a)
  | not f => not (f.map h)
  | and f g => and (f.map h) (g.map h)
  | or f g => or (f.map h) (g.map h)

theorem holds_map {h : α → β} {p : β → Prop} {f : Formula α} :
    (f.map h).Holds p ↔ f.Holds fun a => p (h a) := by
  induction f with
  | atom a => exact Iff.rfl
  | not f ih => exact not_congr ih
  | and f g ihf ihg => exact and_congr ihf ihg
  | or f g ihf ihg => exact or_congr ihf ihg

end Formula

namespace Symbol

variable {α β : Type}

def map (h : α → β) : Symbol α → Symbol β
  | operand a => operand (h a)
  | not => not
  | and => and
  | or => or
  | opening => opening
  | closing => closing

end Symbol

/-! ### The grammar -/

/-- How much a row of symbols may hold outside of parentheses: negations at most, conjunctions too,
or everything. -/
inductive Level
  | unit
  | product
  | sum

/-- The symbols spell the formula. -/
inductive Spells {α : Type} : Level → List (Symbol α) → Formula α → Prop
  | operand {a : α} : Spells .unit [.operand a] (.atom a)
  | not {symbols f} : Spells .unit symbols f → Spells .unit (.not :: symbols) (.not f)
  | enclosed {symbols f} :
      Spells .sum symbols f → Spells .unit (.opening :: symbols ++ [.closing]) f
  | unit {symbols f} : Spells .unit symbols f → Spells .product symbols f
  | and {left right f g} : Spells .product left f → Spells .unit right g →
      Spells .product (left ++ .and :: right) (.and f g)
  | product {symbols f} : Spells .product symbols f → Spells .sum symbols f
  | or {left right f g} : Spells .sum left f → Spells .product right g →
      Spells .sum (left ++ .or :: right) (.or f g)

namespace Spells

variable {α β : Type} {level : Level} {symbols : List (Symbol α)} {f : Formula α}

theorem map (h : α → β) (hf : Spells level symbols f) :
    Spells level (symbols.map (Symbol.map h)) (f.map h) := by
  induction hf with
  | operand => exact operand
  | not _ ih => exact not ih
  | enclosed _ ih =>
      rw [List.map_append]
      exact enclosed ih
  | unit _ ih => exact unit ih
  | and _ _ ihf ihg =>
      rw [List.map_append]
      exact and ihf ihg
  | product _ ih => exact product ih
  | or _ _ ihf ihg =>
      rw [List.map_append]
      exact or ihf ihg

/-- Whether a formula holds is a matter of the operands in its spelling. -/
theorem holds_congr {p q : α → Prop} (hf : Spells level symbols f)
    (h : ∀ a, .operand a ∈ symbols → (p a ↔ q a)) : f.Holds p ↔ f.Holds q := by
  induction hf with
  | operand => exact h _ List.mem_cons_self
  | not _ ih => exact not_congr (ih fun a ha => h a (List.mem_cons_of_mem _ ha))
  | enclosed _ ih =>
      refine ih fun a ha => h a ?_
      exact List.mem_append_left _ (List.mem_cons_of_mem _ ha)
  | unit _ ih => exact ih h
  | and _ _ ihf ihg =>
      refine and_congr (ihf fun a ha => h a ?_) (ihg fun a ha => h a ?_)
      · exact List.mem_append_left _ ha
      · exact List.mem_append_right _ (List.mem_cons_of_mem _ ha)
  | product _ ih => exact ih h
  | or _ _ ihf ihg =>
      refine or_congr (ihf fun a ha => h a ?_) (ihg fun a ha => h a ?_)
      · exact List.mem_append_left _ ha
      · exact List.mem_append_right _ (List.mem_cons_of_mem _ ha)

theorem negations (hf : Spells .unit symbols f) (n : ℕ) :
    Spells .unit (List.replicate n .not ++ symbols) (Formula.not^[n] f) := by
  induction n with
  | zero => exact hf
  | succ n ih =>
      rw [List.replicate_succ, Function.iterate_succ_apply']
      exact not ih

end Spells

/-! ### Reading from left to right -/

/-- What stands in front of an operand, back to the innermost parenthesis that is open: a
disjunction that waits for another term, a conjunction that waits for another factor, and
negations. -/
structure Awaiting (α : Type) where
  sum : Option (Formula α) := none
  product : Option (Formula α) := none
  negations : ℕ := 0

/-- How far a row of symbols is read. The parentheses that are open are listed from the innermost
one outwards, each with what stands in front of it. -/
inductive Reading (α : Type)
  | due (before : Awaiting α) (outer : List (Awaiting α))
  | read (sum : Option (Formula α)) (product : Formula α) (outer : List (Awaiting α))

namespace Formula

variable {α : Type}

def conjoin : Option (Formula α) → Formula α → Formula α
  | none, f => f
  | some g, f => and g f

def disjoin : Option (Formula α) → Formula α → Formula α
  | none, f => f
  | some g, f => or g f

end Formula

/-- The conjunction up to a unit. -/
def Awaiting.complete {α : Type} (before : Awaiting α) (unit : Formula α) : Formula α :=
  Formula.conjoin before.product (Formula.not^[before.negations] unit)

namespace Reading

variable {α : Type}

/-- Reads one more symbol. -/
def step : Reading α → Symbol α → Option (Reading α)
  | due before outer, .operand a => some (read before.sum (before.complete (.atom a)) outer)
  | due before outer, .not => some (due { before with negations := before.negations + 1 } outer)
  | due before outer, .opening => some (due {} (before :: outer))
  | read sum product outer, .and => some (due { sum, product := some product } outer)
  | read sum product outer, .or => some (due { sum := some (Formula.disjoin sum product) } outer)
  | read sum product (before :: outer), .closing =>
    some (read before.sum (before.complete (Formula.disjoin sum product)) outer)
  | _, _ => none

def finish : Reading α → Option (Formula α)
  | read sum product [] => some (Formula.disjoin sum product)
  | _ => none

end Reading

/-- Reads the formula that symbols spell. -/
def Formula.ofSymbols {α : Type} (symbols : List (Symbol α)) : Option (Formula α) :=
  (symbols.foldlM Reading.step (.due {} [])).bind Reading.finish

namespace Reading

variable {α : Type} {symbols : List (Symbol α)} {f : Formula α}

/-! ### Every formula is read from its spelling -/

/-- What becomes of a reading when the spelling of a formula is read. -/
def Passes (symbols : List (Symbol α)) (f : Formula α) : Level → Prop
  | .unit => ∀ before outer,
      symbols.foldlM step (due before outer) = some (read before.sum (before.complete f) outer)
  | .product => ∀ sum outer, symbols.foldlM step (due { sum } outer) = some (read sum f outer)
  | .sum => ∀ outer, ∃ sum product, Formula.disjoin sum product = f ∧
      symbols.foldlM step (due {} outer) = some (read sum product outer)

theorem passes_of_spells {level : Level} (h : Spells level symbols f) :
    Passes symbols f level := by
  induction h with
  | operand => exact fun before outer => rfl
  | not _ ih =>
      intro before outer
      show List.foldlM step (due { before with negations := before.negations + 1 } outer) _ = _
      rw [ih]
      rfl
  | enclosed _ ih =>
      intro before outer
      obtain ⟨sum, product, rfl, hrun⟩ := ih (before :: outer)
      rw [List.foldlM_append]
      show (List.foldlM step (due {} (before :: outer)) _).bind _ = _
      rw [hrun]
      rfl
  | unit _ ih => exact fun sum outer => ih { sum } outer
  | and _ _ ihf ihg =>
      intro sum outer
      rw [List.foldlM_append, ihf]
      exact ihg { sum, product := some _ } outer
  | product _ ih => exact fun outer => ⟨none, _, rfl, ih none outer⟩
  | or _ _ ihf ihg =>
      intro outer
      obtain ⟨sum, product, rfl, hrun⟩ := ihf outer
      refine ⟨some (Formula.disjoin sum product), _, rfl, ?_⟩
      rw [List.foldlM_append, hrun]
      exact ihg (some (Formula.disjoin sum product)) outer

/-! ### Nothing else is read -/

/-- The symbols are those of a formula and an operator behind it, or none. -/
def Leads (level : Level) (operator : Symbol α) : Option (Formula α) → List (Symbol α) → Prop
  | none, symbols => symbols = []
  | some f, symbols => ∃ left, Spells level left f ∧ symbols = left ++ [operator]

theorem leads_none {level : Level} {operator : Symbol α} : Leads level operator none [] := rfl

theorem leads_some {level : Level} {operator : Symbol α} (h : Spells level symbols f) :
    Leads level operator (some f) (symbols ++ [operator]) := ⟨symbols, h, rfl⟩

theorem spells_conjoin {pending : Option (Formula α)} {left right : List (Symbol α)}
    (hleft : Leads .product .and pending left) (hright : Spells .unit right f) :
    Spells .product (left ++ right) (Formula.conjoin pending f) := by
  cases pending with
  | none =>
      cases hleft
      exact .unit hright
  | some g =>
      obtain ⟨symbols, hg, rfl⟩ := hleft
      rw [List.append_assoc]
      exact .and hg hright

theorem spells_disjoin {pending : Option (Formula α)} {left right : List (Symbol α)}
    (hleft : Leads .sum .or pending left) (hright : Spells .product right f) :
    Spells .sum (left ++ right) (Formula.disjoin pending f) := by
  cases pending with
  | none =>
      cases hleft
      exact .product hright
  | some g =>
      obtain ⟨symbols, hg, rfl⟩ := hleft
      rw [List.append_assoc]
      exact .or hg hright

/-- The symbols are those that stand in front of an operand. -/
inductive Leaves : Awaiting α → List (Symbol α) → Prop
  | intro {sum product negations terms factors} :
      Leads .sum .or sum terms → Leads .product .and product factors →
        Leaves ⟨sum, product, negations⟩
          (terms ++ (factors ++ List.replicate negations .not))

theorem leaves_of_leads {sum product : Option (Formula α)} {terms factors : List (Symbol α)}
    (hsum : Leads .sum .or sum terms) (hproduct : Leads .product .and product factors) :
    Leaves { sum, product } (terms ++ factors) := by
  have h : Leaves ⟨sum, product, 0⟩ (terms ++ (factors ++ List.replicate 0 .not)) :=
    .intro hsum hproduct
  simpa using h

/-- The symbols are those up to the innermost parenthesis that is open. -/
inductive Opens : List (Awaiting α) → List (Symbol α) → Prop
  | nil : Opens [] []
  | cons {before outer left symbols} : Opens outer left → Leaves before symbols →
      Opens (before :: outer) (left ++ symbols ++ [.opening])

/-- The symbols are those that a reading has read. -/
inductive After : Reading α → List (Symbol α) → Prop
  | due {before outer left symbols} : Opens outer left → Leaves before symbols →
      After (.due before outer) (left ++ symbols)
  | read {sum product outer left terms factors} : Opens outer left → Leads .sum .or sum terms →
      Spells .product factors product →
        After (.read sum product outer) (left ++ (terms ++ factors))

theorem after_start : After (.due {} [] : Reading α) [] :=
  .due .nil (leaves_of_leads leads_none leads_none)

/-- A unit completes what stands in front of it. -/
theorem Leaves.read {before : Awaiting α} {outer : List (Awaiting α)}
    {left symbols unit : List (Symbol α)} (hsymbols : Leaves before symbols)
    (houter : Opens outer left) (hunit : Spells .unit unit f) :
    After (.read before.sum (before.complete f) outer) (left ++ symbols ++ unit) := by
  obtain ⟨hsum, hproduct⟩ := hsymbols
  simp only [List.append_assoc]
  exact .read houter hsum (spells_conjoin hproduct (hunit.negations _))

theorem After.step {state next : Reading α} {symbol : Symbol α} (h : After state symbols)
    (hstep : step state symbol = some next) : After next (symbols ++ [symbol]) := by
  cases h with
  | due houter hsymbols =>
      cases symbol with
      | operand a =>
          cases hstep
          exact hsymbols.read houter .operand
      | not =>
          cases hstep
          obtain ⟨hsum, hproduct⟩ := hsymbols
          simp only [List.append_assoc, ← List.replicate_succ']
          exact .due houter (.intro hsum hproduct)
      | opening =>
          cases hstep
          simpa using After.due (.cons houter hsymbols) (leaves_of_leads leads_none leads_none)
      | _ => cases hstep
  | read houter hsum hproduct =>
      cases symbol with
      | and =>
          cases hstep
          simpa using After.due houter (leaves_of_leads hsum (leads_some hproduct))
      | or =>
          cases hstep
          have hterms : Leads .sum .or (some _) (_ ++ [.or]) :=
            leads_some (spells_disjoin hsum hproduct)
          simpa using After.due houter (leaves_of_leads hterms leads_none)
      | closing =>
          -- what is enclosed is a unit of what stands in front of the parenthesis
          cases houter with
          | nil => cases hstep
          | cons houter hsymbols =>
              cases hstep
              have henclosed := Spells.enclosed (spells_disjoin hsum hproduct)
              simpa using hsymbols.read houter henclosed
      | _ => cases hstep

theorem After.run {state final : Reading α} {left : List (Symbol α)} (h : After state left)
    (hrun : symbols.foldlM Reading.step state = some final) : After final (left ++ symbols) := by
  induction symbols generalizing state left with
  | nil =>
      cases hrun
      rwa [List.append_nil]
  | cons symbol symbols ih =>
      rw [List.foldlM_cons] at hrun
      obtain ⟨next, hnext, hrest⟩ := Option.bind_eq_some_iff.1 hrun
      simpa using ih (h.step hnext) hrest

end Reading

/-- Reading symbols finds the formula that they spell. -/
theorem Formula.ofSymbols_eq_some_iff {α : Type} {symbols : List (Symbol α)} {f : Formula α} :
    ofSymbols symbols = some f ↔ Spells .sum symbols f := by
  constructor
  · intro h
    obtain ⟨final, hrun, hfinish⟩ := Option.bind_eq_some_iff.1 h
    have hafter : Reading.After final symbols := Reading.after_start.run hrun
    cases hafter with
    | due _ _ => cases hfinish
    | read houter hsum hproduct =>
        cases houter with
        | nil =>
            cases hfinish
            rw [List.nil_append]
            exact Reading.spells_disjoin hsum hproduct
        | cons _ _ => cases hfinish
  · intro h
    obtain ⟨sum, product, rfl, hrun⟩ := Reading.passes_of_spells h []
    rw [ofSymbols, hrun]
    rfl

theorem Spells.unique {α : Type} {symbols : List (Symbol α)} {f g : Formula α}
    (hf : Spells .sum symbols f) (hg : Spells .sum symbols g) : f = g := by
  rw [← Formula.ofSymbols_eq_some_iff] at hf hg
  exact Option.some_inj.1 (hf.symm.trans hg)

end FeatureGuard
