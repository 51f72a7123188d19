import FeatureGuard.Text.Resemblance
import FeatureGuard.Volume.Path

/-!
Command lines. Three operands name the files that are read and written; flags stand anywhere between
them. Two hyphens alone end the flags. A flag with a value takes the next argument, or what follows
its name after an equals sign, or after its letter.

A value is not taken before the next argument is known to be one that can follow it. So of two
mistakes on a line, an argument that means nothing is reported rather than the value before it.
-/

namespace FeatureGuard.Command

inductive Operand
  | definitions
  | header
  | source
  deriving DecidableEq, Repr

inductive Flag
  | config
  | verbose
  | help
  | version
  deriving DecidableEq, Repr

/-- What the program is asked to do. -/
structure Invocation where
  definitions : Path
  header : Path
  source : Path
  config : Option Path := none
  verbosity : Nat := 0
  deriving DecidableEq

/-- What may be meant by an unknown argument. -/
inductive Hint
  /-- it is a value -/
  | value
  | similar (flag : Flag)
  deriving DecidableEq

/-- What can be wrong with a command line. -/
inductive Misuse
  | operandsMissing (missing : List Operand) (used : List Flag)
  | operandEmpty (operand : Operand)
  | unknown (argument : Text) (hint : Option Hint) (used : List Flag)
  | valueMissing (flag : Flag)
  | valueUnwanted (value : Text) (flag : Flag) (used : List Flag)
  | repeated (flag : Flag)
  deriving DecidableEq

/-- Why a command line does not lead to a run. -/
inductive Reply
  | help
  | version
  | misuse (m : Misuse)
  deriving DecidableEq

namespace Operand

def all : List Operand := [definitions, header, source]

end Operand

namespace Flag

def all : List Flag := [config, verbose, help, version]

def name : Flag → Text
  | config => "config"
  | verbose => "verbose"
  | help => "help"
  | version => "version"

def letter : Flag → Char
  | config => 'c'
  | verbose => 'v'
  | help => 'h'
  | version => 'V'

/-- Adds a flag to others, unless it is among them. -/
def addTo (f : Flag) (flags : List Flag) : List Flag := if f ∈ flags then flags else flags ++ [f]

end Flag

/-- A value that was read but not taken yet. -/
inductive Waiting
  | operand (value : Text)
  /-- the value of the configuration flag, if it was read already -/
  | config (value : Option Text)
  deriving DecidableEq

/-- What was read of a command line. -/
structure Reading where
  operands : List Text := []
  config : Option Text := none
  verbosity : Nat := 0
  /-- the flags in the order in which they were last taken -/
  used : List Flag := []
  waiting : Option Waiting := none
  deriving DecidableEq

namespace Reading

/-! ### Values that wait -/

/-- What is wrong with the value that waits. -/
def fault? (r : Reading) : Option Misuse :=
  match r.waiting with
  | none => none
  | some (.operand value) =>
    if value = [] then (Operand.all[r.operands.length]?).map .operandEmpty else none
  | some (.config none) => some (.valueMissing .config)
  | some (.config (some value)) =>
    if .config ∈ r.used then some (.repeated .config)
    else if value = [] then some (.valueMissing .config)
    else none

/-- Takes the value that waits. A flag that may not be given again is as if it was never given. -/
def take (r : Reading) : Reading :=
  match r.waiting with
  | some (.operand value) => { r with operands := r.operands ++ [value], waiting := none }
  | some (.config (some value)) =>
    if .config ∈ r.used then { r with used := r.used.erase .config, waiting := none }
    else { r with config := some value, used := r.used ++ [.config], waiting := none }
  | _ => { r with waiting := none }

/-- Takes the value that waits, unless something is wrong with it. -/
def settle (r : Reading) : Except Reply Reading :=
  match r.fault? with
  | some m => .error (.misuse m)
  | none => .ok r.take

/-! ### Arguments -/

/-- Reads a flag with the value that is attached to it. -/
def flag (r : Reading) : Flag → Option Text → Except Reply Reading
  | .config, none => do return { ← r.settle with waiting := some (.config none) }
  | .config, some value => do settle { ← r.settle with waiting := some (.config (some value)) }
  | f, some value => .error (.misuse (.valueUnwanted value f (f.addTo r.used)))
  | .verbose, none => do
    let r ← r.settle
    return { r with verbosity := r.verbosity + 1, used := r.used.erase .verbose ++ [.verbose] }
  | .help, none => do
    let _ ← r.settle
    throw .help
  | .version, none => do
    let _ ← r.settle
    throw .version

/-- What is said of a name that no flag has. A flag that was meant counts as used. -/
def unknownName (r : Reading) (name : Text) : Misuse :=
  let used := r.take.used
  match Text.nearest? Flag.name name Flag.all with
  | none => .unknown ("--" ++ name) (some .value) used
  | some f => .unknown ("--" ++ name) (some (.similar f)) (f.addTo used)

/-- Reads a flag by its name, with the value behind an equals sign. -/
def named (r : Reading) (t : Text) : Except Reply Reading :=
  let name := t.takeWhile (· ≠ '=')
  let value := if name.length < t.length then some (t.drop (name.length + 1)) else none
  match Flag.all.find? (·.name = name) with
  | some f => r.flag f value
  | none => .error (.misuse (r.unknownName name))

/-- The value that the letters behind the letter of a flag are. -/
def attached? : Text → Option Text
  | [] => none
  | '=' :: value => some value
  | value => some value

/-- Reads flags by their letters. -/
def lettered (r : Reading) : Text → Except Reply Reading
  | [] => .ok r
  | c :: rest =>
    match Flag.all.find? (·.letter = c) with
    | none => .error (.misuse (.unknown ['-', c] (some .value) []))
    | some .config => r.flag .config (attached? rest)
    | some f => do lettered (← r.flag f none) rest

/-- How many operands there are, with the one that waits. -/
def operandCount (r : Reading) : Nat :=
  match r.waiting with
  | some (.operand _) => r.operands.length + 1
  | _ => r.operands.length

/-- Reads an operand. -/
def operand (r : Reading) (t : Text) : Except Reply Reading :=
  if Operand.all.length ≤ r.operandCount then .error (.misuse (.unknown t none []))
  else do return { ← r.settle with waiting := some (.operand t) }

/-- Reads the value that a flag waits for, or else an operand. -/
def value (r : Reading) (t : Text) : Except Reply Reading :=
  match r.waiting with
  | some (.config none) => .ok { r with waiting := some (.config (some t)) }
  | _ => r.operand t

/-- Reads an argument. -/
def argument (r : Reading) : Text → Except Reply Reading
  | '-' :: '-' :: name => r.named name
  | '-' :: letter :: letters => r.lettered (letter :: letters)
  | t => r.value t

/-- Reads the arguments of a command line. -/
def arguments (r : Reading) : List Text → Except Reply Reading
  | [] => .ok r
  | t :: rest =>
    if t = "--" then rest.foldlM operand r
    else do arguments (← r.argument t) rest

end Reading

namespace Invocation

/-- Reads a command line. -/
def ofArguments (arguments : List Text) : Except Reply Invocation := do
  let r ← (← Reading.arguments {} arguments).settle
  match r.operands with
  | [definitions, header, source] =>
    return { definitions, header, source, config := r.config, verbosity := r.verbosity }
  | operands => throw (.misuse (.operandsMissing (Operand.all.drop operands.length) r.used))

end Invocation

end FeatureGuard.Command
