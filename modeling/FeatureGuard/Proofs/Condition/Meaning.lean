import FeatureGuard.Condition.Reader
import FeatureGuard.Proofs.Condition.Formula
import FeatureGuard.Proofs.Repetition

/-!
The meaning of conditions. A condition is accepted exactly when its tokens spell a formula over
feature names, and the names that are kept with it are all that decide whether the formula holds.
-/

namespace FeatureGuard

namespace Token

def symbol : Token → Symbol Name
  | name n => .operand n
  | and => .and
  | or => .or
  | not => .not
  | opening => .opening
  | closing => .closing

theorem operand_mem_map_symbol {tokens : List Token} {n : Name} :
    .operand n ∈ tokens.map symbol ↔ n ∈ names tokens := by
  rw [names, Name.mem_distinct, List.mem_map, List.mem_filterMap]
  refine exists_congr fun token => and_congr_right fun _ => ?_
  cases token <;> simp [symbol, name?]

/-! ### The shape of a condition -/

theorem foldlM_cons_bind_finish {α : Type} {state : Reading α} {symbol : Symbol α}
    {symbols : List (Symbol α)} :
    ((symbol :: symbols).foldlM Reading.step state).bind Reading.finish =
      (state.step symbol).bind fun next =>
        (symbols.foldlM Reading.step next).bind Reading.finish := by
  rw [List.foldlM_cons]
  exact Option.bind_assoc _ _ _

/-- The shape is checked in step with the reading of the formula. -/
theorem checkShape_eq_ok_iff_isSome (tokens : List Token) :
    (∀ before outer, checkShape true outer.length tokens = .ok () ↔
      (((tokens.map symbol).foldlM Reading.step (.due before outer)).bind
        Reading.finish).isSome = true) ∧
    ∀ sum product outer, checkShape false outer.length tokens = .ok () ↔
      (((tokens.map symbol).foldlM Reading.step (.read sum product outer)).bind
        Reading.finish).isSome = true := by
  induction tokens with
  | nil =>
      constructor
      · intro before outer
        simp [checkShape, Reading.finish]
      · intro sum product outer
        cases outer <;> simp [checkShape, Reading.finish]
  | cons token rest ih =>
      obtain ⟨hdue, hread⟩ := ih
      constructor
      · intro before outer
        rw [List.map_cons, foldlM_cons_bind_finish]
        cases token with
        | name n => exact hread _ _ outer
        | not => exact hdue _ outer
        | opening => exact hdue {} (before :: outer)
        | _ => simp [checkShape, symbol, Reading.step]
      · intro sum product outer
        rw [List.map_cons, foldlM_cons_bind_finish]
        cases token with
        | and =>
            rw [checkShape]
            exact hdue _ outer
        | or =>
            rw [checkShape]
            exact hdue _ outer
        | closing =>
            cases outer with
            | nil => simp [checkShape, symbol, Reading.step]
            | cons before outer =>
                rw [List.length_cons, checkShape]
                exact hread _ _ outer
        | _ => simp [checkShape, symbol, Reading.step]

theorem checkShape_eq_ok_iff {tokens : List Token} :
    checkShape true 0 tokens = .ok () ↔ ∃ f, Spells .sum (tokens.map symbol) f := by
  have hstart := (checkShape_eq_ok_iff_isSome tokens).1 {} []
  rw [List.length_nil] at hstart
  rw [hstart, Option.isSome_iff_exists]
  exact exists_congr fun f => Formula.ofSymbols_eq_some_iff

end Token

namespace Condition

/-- The text states the formula. -/
def States (t : Text) (f : Formula Name) : Prop :=
  ∃ tokens, Token.scan t = .ok tokens ∧ Spells .sum (tokens.map Token.symbol) f

/-- Whether the formula that a text states is true where certain macros are defined. -/
def HoldsIn (t : Text) (macros : Set Text) : Prop :=
  ∃ f, States t f ∧ f.Holds fun n => n.text ∈ macros

theorem States.unique {t : Text} {f g : Formula Name} (hf : States t f) (hg : States t g) :
    f = g := by
  obtain ⟨tokens, htokens, hf⟩ := hf
  obtain ⟨others, hothers, hg⟩ := hg
  cases htokens.symm.trans hothers
  exact hf.unique hg

theorem States.holdsIn_iff {t : Text} {f : Formula Name} (hf : States t f) {macros : Set Text} :
    HoldsIn t macros ↔ f.Holds fun n => n.text ∈ macros := by
  constructor
  · rintro ⟨g, hg, hholds⟩
    rwa [hf.unique hg]
  · exact fun hholds => ⟨f, hf, hholds⟩

theorem ofText_eq_ok_iff {t : Text} {c : Condition} :
    ofText t = .ok c ↔ ∃ tokens, Token.scan t = .ok tokens ∧
      (∃ f, Spells .sum (tokens.map Token.symbol) f) ∧
        c = ⟨normalized t, Token.render tokens, Token.names tokens⟩ := by
  rw [ofText]
  cases hscan : Token.scan t with
  | error flaw => simp [bind, Except.bind]
  | ok tokens =>
      simp only [bind, Except.bind, Except.ok.injEq, exists_eq_left']
      rw [← Token.checkShape_eq_ok_iff]
      split
      · rename_i hnil
        subst hnil
        simp [Token.checkShape]
      · cases hshape : Token.checkShape true 0 tokens with
        | error flaw => simp
        | ok _ => simp [pure, Except.pure, eq_comm]

/-- A condition is accepted exactly when it states a formula. -/
theorem ofText_isOk_iff {t : Text} : (∃ c, ofText t = .ok c) ↔ ∃ f, States t f := by
  simp only [ofText_eq_ok_iff]
  constructor
  · rintro ⟨c, tokens, htokens, ⟨f, hf⟩, -⟩
    exact ⟨f, tokens, htokens, hf⟩
  · rintro ⟨f, tokens, htokens, hf⟩
    exact ⟨_, tokens, htokens, ⟨f, hf⟩, rfl⟩

/-- The formula that a text states, if it states one. -/
def formula? (t : Text) : Option (Formula Name) :=
  match Token.scan t with
  | .ok tokens => Formula.ofSymbols (tokens.map Token.symbol)
  | .error _ => none

theorem formula?_eq_some_iff {t : Text} {f : Formula Name} : formula? t = some f ↔ States t f := by
  rw [formula?, States]
  cases Token.scan t with
  | error flaw => simp
  | ok tokens => simp [Formula.ofSymbols_eq_some_iff]

instance (t : Text) (macros : Set Text) [DecidablePred (· ∈ macros)] :
    Decidable (HoldsIn t macros) :=
  decidable_of_iff (∃ f ∈ formula? t, f.Holds fun n => n.text ∈ macros) <| by
    simp only [Option.mem_def, formula?_eq_some_iff, HoldsIn]

/-- Whether a condition holds is a matter of the names that are kept with it. -/
theorem holdsIn_congr {t : Text} {c : Condition} (h : ofText t = .ok c) {S T : Set Text}
    (hnames : ∀ n ∈ c.references, n.text ∈ S ↔ n.text ∈ T) : HoldsIn t S ↔ HoldsIn t T := by
  obtain ⟨tokens, htokens, ⟨f, hf⟩, rfl⟩ := ofText_eq_ok_iff.1 h
  have hstates : States t f := ⟨tokens, htokens, hf⟩
  rw [hstates.holdsIn_iff, hstates.holdsIn_iff]
  exact hf.holds_congr fun n hn => hnames n (Token.operand_mem_map_symbol.1 hn)

end Condition

end FeatureGuard
