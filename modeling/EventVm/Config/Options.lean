import EventVm.Config.Toml
import EventVm.Files
import EventVm.Program.Basic
import EventVm.SemVer.Requirement

/-!
# Options

What a host decides for all of its machines: the programs that may run, the size of operand stacks,
how deep runs may nest and whether events may go over the network. A configuration file gives any
of the options by name; a name that is not an option makes the whole file invalid.
-/

namespace EventVm

/-- What a host decides for all of its machines. -/
structure Options where
  /-- The instruction set that programs have to declare. -/
  instructionSet : String
  /-- The versions of it that may run. -/
  versions : VersionReq
  /-- How many addresses an operand stack holds. -/
  maxStackDepth : Nat
  /-- How many runs may be in progress at once. -/
  maxNestingDepth : Nat
  /-- Whether behaviours may ask for events to be relayed. -/
  allowNetworkEvents : Bool
  deriving DecidableEq, Repr

/-- Why a configuration was refused. -/
inductive OptionsError where
  | io (e : FileError)
  | parse
  deriving DecidableEq, Repr

/-- The text of an options error. -/
def OptionsError.message : OptionsError → String
  | io e => "Failed to read config: " ++ e.message
  | parse => "Invalid config"

namespace Options

/-- The options that hold where a configuration is silent. -/
def default : Options where
  instructionSet := instructionSetName
  versions := .caret 1
  maxStackDepth := 65536
  maxNestingDepth := 256
  allowNetworkEvents := true

/-- Whether a program for the given instruction set may run. -/
def supports (o : Options) (instructionSet : String) (version : Version) : Bool :=
  instructionSet == o.instructionSet && o.versions.accepts version

/-- Takes over one entry of a configuration. -/
def set (o : Options) (name : String) (item : Toml.Item) : Option Options :=
  match name, item with
  | "instruction_set_id", .string s => some { o with instructionSet := s }
  | "instruction_set_version", .string s =>
    (VersionReq.parse? s).map fun versions => { o with versions }
  | "max_stack_depth", .integer i =>
    if 0 ≤ i then some { o with maxStackDepth := i.toNat } else none
  | "max_nesting_depth", .integer i =>
    if 0 ≤ i then some { o with maxNestingDepth := i.toNat } else none
  | "allow_network_events", .boolean b => some { o with allowNetworkEvents := b }
  | _, _ => none

/-- Whether the names of a configuration are distinct. -/
def distinctNames : List (String × Toml.Item) → Bool
  | [] => true
  | (name, _) :: entries => !(entries.any fun e => e.1 == name) && distinctNames entries

/-- The options that a configuration text gives. -/
def ofText (text : String) : Except OptionsError Options :=
  match Toml.parse? text with
  | none => .error .parse
  | some entries =>
    if distinctNames entries then
      match entries.foldlM (fun o (name, item) => set o name item) default with
      | some o => .ok o
      | none => .error .parse
    else .error .parse

/-- The options in a configuration file. -/
def ofFile (files : FileStore) (path : String) : Except OptionsError Options :=
  match files.readText path with
  | .error e => .error (.io e)
  | .ok text => ofText text

end Options

end EventVm
