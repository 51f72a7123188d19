import FeatureGuard.Condition.Reader

/-!
Statements. A line of a definitions document, without its comments, says one of five things: that a
feature is external, that it exists, that it implies others, that it equals a condition, or that it
requires one.
-/

namespace FeatureGuard

inductive Statement
  | external (name : Name)
  | basic (name : Name)
  | implies (name : Name) (consequents : List Name)
  | equals (name : Name) (condition : Condition)
  | requires (name : Name) (condition : Condition)
  deriving DecidableEq

namespace Statement

def readName (t : Text) : Except Flaw Name :=
  match Name.ofText? t with
  | some name => .ok name
  | none => .error ⟨.invalidName, t⟩

/-- Reads a list of names. Commas and blanks separate them, as many as there are. -/
def readNames (t : Text) : Except Flaw (List Name) :=
  match Text.fields (fun c => c == ',' || Text.isBlank c) t with
  | [] => .error ⟨.expectedName, endOfLine⟩
  | names => names.mapM readName

/-- What follows the word `external`: one name. -/
def readExternal (t : Text) : Except Flaw Statement :=
  match Text.splitWord t with
  | ([], _) => .error ⟨.expectedName, endOfLine⟩
  | (word, []) => external <$> readName word
  | (_, rest) => .error ⟨.unexpectedToken, (Text.splitWord rest).1⟩

/-- What follows a name: nothing, or a keyword and what belongs to it. -/
def readRule (name : Name) (t : Text) : Except Flaw Statement :=
  let (keyword, tail) := Text.splitWord t
  if keyword = [] then .ok (basic name)
  else if keyword = "implies" then implies name <$> readNames tail
  else if keyword = "equals" then equals name <$> Condition.ofText tail
  else if keyword = "requires" then requires name <$> Condition.ofText tail
  else .error ⟨.unexpectedToken, keyword⟩

/-- Reads a statement from a text that is not blank. -/
def ofText (t : Text) : Except Flaw Statement :=
  let (head, rest) := Text.splitWord t
  if head = "external" then readExternal rest
  else do readRule (← readName head) rest

/-- The rules that a statement makes, on the line where it stands. -/
def rules (line : Nat) : Statement → RuleSet
  | external name => { declarations := [⟨name, .external, line⟩] }
  | basic name => { declarations := [⟨name, .basic, line⟩] }
  | implies name consequents => { implications := consequents.map fun c => ⟨name, c, line⟩ }
  | equals name condition =>
    { declarations := [⟨name, .derived, line⟩], derivations := [⟨name, condition, line⟩] }
  | requires name condition => { requirements := [⟨name, condition, line⟩] }

end Statement

end FeatureGuard
