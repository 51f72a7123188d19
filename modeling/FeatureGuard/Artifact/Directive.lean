import FeatureGuard.Artifact.Include
import FeatureGuard.Feature.Name

/-!
Directives, the building blocks of the generated files, and the text of each. A file is the text of
its directives one after the other.
-/

namespace FeatureGuard

inductive Directive
  /-- the comment that heads a file: what generated it, when, and from which definitions -/
  | banner (generator : Text) (stamp : Option Text) (definitions : Text)
  | guardBegin (guard : Text)
  | guardEnd (guard : Text)
  | heading (title : Text)
  | inclusion (path : IncludePath)
  /-- undefines an external feature -/
  | undefine (feature : Name)
  /-- defines the consequent where the antecedent is defined -/
  | implication (antecedent consequent : Name)
  /-- defines a feature where its condition holds, and warns where it is defined already -/
  | derivation (feature : Name) (human rendered : Text)
  /-- raises an error where a feature is defined and its condition does not hold -/
  | requirement (feature : Name) (human rendered : Text)
  | tableDeclaration (table count : Text)
  | tableBegin (table : Text)
  /-- an entry of the table of names, active where the feature is defined -/
  | tableEntry (feature : Name)
  | tableEnd (table count : Text)
  deriving DecidableEq

namespace Directive

/-- The lines of a directive. -/
def lines : Directive → List Text
  | banner generator stamp definitions =>
    ["/*",
      "WARNING: This file was autogenerated by",
      [],
      "   " ++ generator ++ (match stamp with
        | some stamp => " on " ++ stamp
        | none => []),
      [],
      "   Do not modify it or your changes will be overwritten!",
      "   Modify " ++ definitions ++ " instead.",
      "*/"]
  | guardBegin guard => ["#ifndef " ++ guard, "#define " ++ guard, []]
  | guardEnd guard => [[], "#endif /* " ++ guard ++ " */"]
  | heading title => [[], "/* " ++ title ++ " */"]
  | inclusion path => ["#include " ++ path.text]
  | undefine feature =>
    [[],
      "// " ++ feature.text ++ " is external",
      "#if defined(" ++ feature.text ++ ")",
      "#undef " ++ feature.text,
      "#endif"]
  | implication antecedent consequent =>
    [[],
      "// " ++ antecedent.text ++ " implies " ++ consequent.text,
      "#if defined(" ++ antecedent.text ++ ") && !defined(" ++ consequent.text ++ ")",
      "#define " ++ consequent.text,
      "#endif"]
  | derivation feature human rendered =>
    [[],
      "// " ++ feature.text ++ " equals " ++ human,
      "#ifdef " ++ feature.text,
      "#warning " ++ feature.text ++ " is a derived switch and should not be set manually!",
      "#elif " ++ rendered,
      "#define " ++ feature.text,
      "#endif"]
  | requirement feature human rendered =>
    [[],
      "// " ++ feature.text ++ " requires " ++ human,
      "#if defined(" ++ feature.text ++ ") && !(" ++ rendered ++ ")",
      "#error Feature " ++ feature.text ++ " requires " ++ human,
      "#endif"]
  | tableDeclaration table count =>
    [[], "extern const char* " ++ table ++ "[];", "extern const int " ++ count ++ ";"]
  | tableBegin table => ["const char* " ++ table ++ "[] = \x7b"]
  | tableEntry feature => ["#ifdef " ++ feature.text, "  \"" ++ feature.text ++ "\",", "#endif"]
  | tableEnd table count =>
    ["\x7d;", [], "const int " ++ count ++ " = sizeof(" ++ table ++ ")/sizeof(char*);"]

/-- The text of a directive, each line ended by a line feed. -/
def text (d : Directive) : Text := d.lines.flatMap (· ++ ['\n'])

/-- The text of a file. -/
def render (directives : List Directive) : Text := directives.flatMap text

end Directive

end FeatureGuard
