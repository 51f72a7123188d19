import FeatureGuard.Command.Arguments

/-!
What the program answers to a command line that does not lead to a run: the help, the version, or
what is wrong with it, together with how the program is used.
-/

namespace FeatureGuard.Command

def program : Text := "featurec"

def versionText : Text := program ++ " 0.1.0\n"

namespace Operand

/-- How an operand stands in the usage. -/
def label : Operand → Text
  | definitions => "<SPECFILE>"
  | header => "<HEADERFILE>"
  | source => "<SOURCEFILE>"

def description : Operand → Text
  | definitions => "Feature definitions file to read"
  | header => "Guard header to write"
  | source => "Validation/reflection source to write"

end Operand

namespace Flag

/-- How a flag stands in the usage. -/
def label (f : Flag) : Text :=
  "--" ++ f.name ++ match f with
    | config => " <FILE>"
    | verbose => "..."
    | _ => ""

def description : Flag → Text
  | config => "Generator config file (defaults to an optional `featurec.toml` in the working " ++
      "directory)"
  | verbose => "Increase log verbosity (-v info, -vv debug, -vvv trace)"
  | help => "Print help"
  | version => "Print version"

end Flag

/-! ### Usage and help -/

/-- The usage with certain flags. -/
def usageWith (flags : List Text) : Text :=
  "Usage: " ++ Text.join " " (program :: flags ++ Operand.all.map Operand.label)

/-- The usage with the flags that were used, or with any where there were none. -/
def usageAfter (used : List Flag) : Text :=
  usageWith (if used = [] then ["[OPTIONS]"] else used.map Flag.label)

/-- Lines of two columns, of which the first one is as wide as its widest entry. -/
def columns (rows : List (Text × Text)) : Text :=
  let width := (rows.map (·.1.length)).foldl max 0
  rows.flatMap fun (left, right) =>
    ("  " : Text) ++ left ++ List.replicate (width - left.length + 2) ' ' ++ right ++ ['\n']

/-- A flag in both of its forms. -/
def Flag.forms (f : Flag) : Text := ['-', f.letter] ++ ", " ++ f.label

def helpText : Text :=
  "Compile feature definitions into preprocessor guard code\n\n" ++ usageAfter [] ++
    "\n\nArguments:\n" ++ columns (Operand.all.map fun o => (o.label, o.description)) ++
    "\nOptions:\n" ++ columns (Flag.all.map fun f => (f.forms, f.description))

/-! ### Misuse -/

namespace Misuse

def quoted (t : Text) : Text := "'" ++ t ++ "'"

/-- What is said where a value is missing. -/
def missingText (label : Text) : Text :=
  "a value is required for " ++ quoted label ++ " but none was supplied"

/-- A line for each operand. -/
def listed (operands : List Operand) : Text := operands.flatMap fun o => "\n  " ++ o.label

/-- What is wrong. -/
def text : Misuse → Text
  | operandsMissing missing _ =>
    "the following required arguments were not provided:" ++ listed missing
  | operandEmpty operand => missingText operand.label
  | unknown argument _ _ => "unexpected argument " ++ quoted argument ++ " found"
  | valueMissing flag => missingText flag.label
  | valueUnwanted value flag _ =>
    "unexpected value " ++ quoted value ++ " for " ++ quoted flag.label ++
      " found; no more were expected"
  | repeated flag => "the argument " ++ quoted flag.label ++ " cannot be used multiple times"

/-- A hint about an argument. -/
def hintText (argument : Text) : Hint → Text
  | .value =>
    "  tip: to pass " ++ quoted argument ++ " as a value, use " ++ quoted ("-- " ++ argument)
  | .similar flag => "  tip: a similar argument exists: " ++ quoted ("--" ++ flag.name)

/-- The hint that is given. -/
def hint? : Misuse → Option Text
  | unknown argument hint _ => hint.map (hintText argument)
  | _ => none

/-- The usage that is shown. -/
def usage? : Misuse → Option Text
  | operandsMissing _ used => some (usageWith (used.map Flag.label))
  | unknown _ _ used => some (usageAfter used)
  | valueUnwanted _ _ used => some (usageAfter used)
  | repeated _ => some (usageAfter [])
  | operandEmpty _ => none
  | valueMissing _ => none

def referral : Text := "For more information, try '--help'.\n"

/-- The message, whose parts have blank lines between them. -/
def message (m : Misuse) : Text :=
  Text.join "\n\n" (("error: " ++ m.text) :: m.hint?.toList ++ m.usage?.toList ++ [referral])

end Misuse

end FeatureGuard.Command
