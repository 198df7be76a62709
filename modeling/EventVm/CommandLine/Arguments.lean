import EventVm.Text.Blank
import EventVm.Text.Lines

/-!
# Command line arguments

A command line is a command, one file and options. An option with a value takes it behind an equals
sign or as the next argument, which then must not look like an option itself; a short option may
also have its value right behind it. The configuration may be given before or after the command,
where the later one counts. Behind `--` everything is a file. Help is asked for by an option or by a
word in front of a topic, and nothing behind that is read. A value that is the next argument is
judged when the next option or file comes, so a wrong one right in front of the command does not
keep help away.
-/

namespace EventVm.CommandLine

/-- What is asked for. -/
inductive Command where
  /-- Writes the program file of a source. -/
  | assemble (input : String) (output : Option String)
  | verify (file : String)
  | disassemble (file : String)
  | inspect (file : String)
  /-- Activates a behaviour and raises events. -/
  | run (file : String) (events : List String) (assignments : List (String × String)) (json : Bool)
  deriving DecidableEq, Repr

/-- A command with the configuration file that it is to use. -/
structure Request where
  config : Option String
  command : Command
  deriving DecidableEq, Repr

/-- The paths that a command names. -/
def Command.paths : Command → List String
  | assemble input output => input :: output.toList
  | verify file | disassemble file | inspect file | run file .. => [file]

/-- The paths that a request names. -/
def Request.paths (r : Request) : List String :=
  r.config.toList ++ r.command.paths

/-- The names of the commands. -/
inductive CommandName where
  | assemble
  | verify
  | disassemble
  | inspect
  | run
  deriving DecidableEq, Repr

/-- The command with a name. -/
def CommandName.ofText? : String → Option CommandName
  | "assemble" => some assemble
  | "verify" => some verify
  | "disasm" => some disassemble
  | "inspect" => some inspect
  | "run" => some run
  | _ => none

/-- What help is about. -/
inductive Topic where
  | program
  | command (name : CommandName)
  | help
  deriving DecidableEq, Repr

/-- The topic with a name. -/
def Topic.ofText? (name : String) : Option Topic :=
  if name = "help" then some help else (CommandName.ofText? name).map command

/-- What a command line asks for. -/
inductive Parsed where
  | request (r : Request)
  | help (topic : Topic)
  | version
  /-- The command line is wrong. -/
  | misuse
  deriving DecidableEq, Repr

/-- The options of commands. -/
inductive Opt where
  | config
  | output
  | event
  | set
  | json
  | help
  deriving DecidableEq, Repr

/-- Whether an option has a value. -/
def Opt.hasValue : Opt → Bool
  | config | output | event | set => true
  | json | help => false

/-- The long options of a command. -/
def longOption? (c : CommandName) (name : String) : Option Opt :=
  match c, name with
  | _, "config" => some .config
  | _, "help" => some .help
  | .assemble, "output" => some .output
  | .run, "event" => some .event
  | .run, "set" => some .set
  | .run, "json" => some .json
  | _, _ => none

/-- The short options of a command. -/
def shortOption? (c : CommandName) (letter : Char) : Option Opt :=
  match c, letter with
  | _, 'h' => some .help
  | .assemble, 'o' => some .output
  | .run, 'e' => some .event
  | _, _ => none

/-- An argument by its form. -/
inductive Argument where
  | separator
  | long (name : String) (value : Option String)
  | short (letter : Char) (rest : List Char)
  | file (text : String)
  deriving DecidableEq, Repr

/-- The form of an argument. -/
def Argument.ofText (text : String) : Argument :=
  match text.toList with
  | ['-', '-'] => .separator
  | '-' :: '-' :: cs =>
    match Text.splitAt? '=' cs with
    | some (name, value) => .long (String.ofList name) (some (String.ofList value))
    | none => .long (String.ofList cs) none
  | '-' :: c :: cs => .short c cs
  | _ => .file text

/-- The value right behind a short option, an equals sign in front of it being dropped. -/
def attached? : List Char → Option String
  | [] => none
  | '=' :: cs => some (String.ofList cs)
  | cs => some (String.ofList cs)

/-- Splits `name=value` at the first equals sign; the name is trimmed and must not be empty. -/
def assignment? (text : String) : Option (String × String) := do
  let (name, value) ← Text.splitAt? '=' text.toList
  let name := Text.trim name
  if name.isEmpty then none else some (String.ofList name, String.ofList value)

/-- The arguments of a command read so far. -/
structure Collected where
  config : Option String
  file : Option String
  output : Option String
  events : List String
  assignments : List (String × String)
  json : Bool

namespace Collected

def empty : Collected :=
  ⟨none, none, none, [], [], false⟩

/-- Takes a path that may be given once. -/
def once (slot : Option String) (path : String) : Option (Option String) :=
  if slot.isSome || path.isEmpty then none else some (some path)

/-- Takes the value of an option. -/
def setOption (a : Collected) (o : Opt) (value : String) : Option Collected :=
  match o with
  | .config => (once a.config value).map fun config => { a with config }
  | .output => (once a.output value).map fun output => { a with output }
  | .event => some { a with events := a.events ++ [value] }
  | .set => (assignment? value).map fun x => { a with assignments := a.assignments ++ [x] }
  | .json | .help => none

/-- Takes a file. -/
def setFile (a : Collected) (path : String) : Option Collected :=
  (once a.file path).map fun file => { a with file }

/-- Takes the flag for JSON, which may be given once. -/
def setJson (a : Collected) : Option Collected :=
  if a.json then none else some { a with json := true }

/-- The request that the arguments make, the configuration of the front part counting unless there
is a later one. -/
def request? (a : Collected) (front : Option String) (c : CommandName) : Option Request := do
  let file ← a.file
  let command := match c with
    | .assemble => .assemble file a.output
    | .verify => .verify file
    | .disassemble => .disassemble file
    | .inspect => .inspect file
    | .run => .run file a.events a.assignments a.json
  return ⟨a.config.or front, command⟩

end Collected

/-- Takes files up to the end. -/
def readFiles (a : Collected) : List String → Option Collected
  | [] => some a
  | path :: paths => do readFiles (← a.setFile path) paths

/-- Whether an argument can be the value of the option in front of it. -/
def isValue (text : String) : Bool :=
  match Argument.ofText text with
  | .file _ => true
  | _ => false

/-- What reading arguments comes to. -/
inductive Reading where
  | collected (a : Collected)
  | help
  | misuse

/-- Goes on with what has been collected, if nothing was wrong. -/
def Reading.ofOption : Option Collected → Reading
  | some a => collected a
  | none => misuse

/-- Takes an option whose value, if it has one, stands in the same argument or opens the rest;
answers also how many arguments of the rest it took. -/
def takeOption (a : Collected) (o : Opt) (value : Option String) (rest : List String) :
    Option (Collected × Nat) :=
  match o, value, rest with
  | .json, none, _ => a.setJson.map (·, 0)
  | o, some value, _ => (a.setOption o value).map (·, 0)
  | o, none, value :: _ => if isValue value then (a.setOption o value).map (·, 1) else none
  | _, none, [] => none

/-- Reads the arguments of a command. -/
def readArguments (c : CommandName) (a : Collected) : List String → Reading
  | [] => .collected a
  | text :: rest =>
    let taking (o : Opt) (value : Option String) : Reading :=
      match takeOption a o value rest with
      | some (a, n) => readArguments c a (rest.drop n)
      | none => .misuse
    match Argument.ofText text with
    | .separator => .ofOption (readFiles a rest)
    | .file path =>
      match a.setFile path with
      | some a => readArguments c a rest
      | none => .misuse
    | .long name value =>
      match longOption? c name, value with
      | some .help, none => .help
      | some o, value => taking o value
      | none, _ => .misuse
    | .short letter cs =>
      match shortOption? c letter with
      | some .help => .help
      | some o => taking o (attached? cs)
      | none => .misuse
termination_by args => args.length
decreasing_by all_goals grind

/-- The configuration that stands in front of the command. -/
structure Front where
  config : Option String
  /-- One more that came as an argument of its own and has not been judged. -/
  waiting : Option String

/-- The configuration with the waiting one, if they are fine. -/
def Front.settle? (f : Front) : Option (Option String) :=
  match f.waiting with
  | none => some f.config
  | some path => Collected.once f.config path

/-- What the arguments behind a command's name ask for. Help comes before a judgement on what is
waiting in front of the command. -/
def parseCommand (front : Front) (c : CommandName) (args : List String) : Parsed :=
  match readArguments c .empty args with
  | .help => .help (.command c)
  | .misuse => .misuse
  | .collected a =>
    match front.settle?.bind fun config => a.request? config c with
    | some r => .request r
    | none => .misuse

/-- What is asked for behind the word for help, which takes one topic at most. -/
def parseHelp : List String → Parsed
  | [] => .help .program
  | [name] => ((Topic.ofText? name).map Parsed.help).getD .misuse
  | _ => .misuse

/-- What a command line asks for, with what has been read in front of the command. Every option
settles what was waiting. -/
def parseFrom (front : Front) : List String → Parsed
  | [] => .misuse
  | text :: rest =>
    match Argument.ofText text, front.settle? with
    | .file name, _ =>
      match CommandName.ofText? name with
      | some c => parseCommand front c rest
      | none => if name = "help" then parseHelp rest else .misuse
    | .long "help" none, some _ => .help .program
    | .long "version" none, some _ => .version
    | .long "config" (some path), some config =>
      match Collected.once config path with
      | some config => parseFrom ⟨config, none⟩ rest
      | none => .misuse
    | .long "config" none, some config =>
      match rest with
      | path :: rest => if isValue path then parseFrom ⟨config, some path⟩ rest else .misuse
      | [] => .misuse
    | .short 'h' _, some _ => .help .program
    | .short 'V' _, some _ => .version
    | _, _ => .misuse

/-- What a command line asks for. -/
def parse (args : List String) : Parsed :=
  parseFrom ⟨none, none⟩ args

/-- The paths that a command line names. -/
def paths (args : List String) : List String :=
  match parse args with
  | .request r => r.paths
  | .help _ | .version | .misuse => []

end EventVm.CommandLine
