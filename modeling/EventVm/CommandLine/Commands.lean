import EventVm.Assembly.Listing
import EventVm.CommandLine.Help
import EventVm.CommandLine.Report
import EventVm.Program.Summary
import EventVm.World.Execution

/-!
# Commands

What the commands do with a tree of files. A program comes from a source, which is assembled first,
or from a program file; the extension of the file tells which. The outcome of a command is an exit
code, its output and, if it failed, a report.
-/

namespace EventVm.CommandLine

/-- How a command ends. -/
structure Result where
  code : Nat
  output : String
  /-- The report of a failure; for a wrong command line there is no fixed one. -/
  report : Option String
  deriving DecidableEq, Repr

/-- Success with the given output. -/
def Result.success (output : String) : Result :=
  ⟨0, output, some ""⟩

/-- A failure with a chain of messages. -/
def Result.failure (messages : List String) : Result :=
  ⟨1, "", some (CommandLine.report messages)⟩

/-- A wrong command line. -/
def Result.misuse : Result :=
  ⟨2, "", none⟩

/-- A step that may fail with a chain of messages. -/
abbrev Attempt := Except (List String)

/-- Puts a message in front of the chain of a failure. -/
def explained (context : String) (chain : ε → List String) : Except ε α → Attempt α
  | .ok a => .ok a
  | .error e => .error (context :: chain e)

/-- The message of a file error as a chain. -/
def fileChain (e : FileError) : List String :=
  [e.message]

/-- The extension of sources. -/
def sourceExtension : String := "uasm"

/-- The extension of program files. -/
def programExtension : String := "udonb"

/-- The program in a file. -/
def loadProgram (files : FileStore) (path : String) : Attempt Program :=
  if Path.extension? path = some sourceExtension then do
    let source ← explained s!"Failed to read {path}" fileChain (files.readText path)
    let name := (Path.stem? path).getD "program"
    explained s!"Failed to assemble {path}" AsmError.chain (Assembly.assemble name source)
  else do
    let bytes ← explained s!"Failed to read {path}" fileChain (files.read path)
    explained s!"Failed to decode {path}" ContainerError.chain (Program.decode bytes)

/-- The options in the configuration file, or the default ones. -/
def loadOptions (files : FileStore) : Option String → Attempt Options
  | none => .ok .default
  | some path =>
    explained s!"Failed to load config {path}" OptionsError.chain (Options.ofFile files path)

/-- Assembles a file and writes the program file. -/
def assembleFile (files : FileStore) (input : String) (output : Option String) :
    Attempt (String × FileStore) := do
  let p ← loadProgram files input
  let output := output.getD (Path.withExtension input programExtension)
  let files ← explained s!"Failed to write {output}" fileChain (files.write output p.encode)
  return (s!"{input} -> {output}\n", files)

/-- Checks a program against the options and the rules of verification. -/
def verifyFile (files : FileStore) (o : Options) (path : String) : Attempt String := do
  let p ← loadProgram files path
  if !o.supports p.instructionSet p.version then
    throw [s!"{path}: instruction set {p.instructionSet} {p.version.display} is not supported " ++
      s!"(expected {o.instructionSet} {o.versions.display})"]
  p.verifyStructure.mapError fun e => [e.message]
  let is ← p.instructions.mapError fun e => [e.message]
  return s!"{p.name}: ok ({is.length} instructions, {p.heap.size} heap slots, " ++
    s!"{p.entryPoints.size} entry points)\n"

/-- Shows a program as assembly text. -/
def disassembleFile (files : FileStore) (path : String) : Attempt String := do
  let p ← loadProgram files path
  (Assembly.disassemble p).mapError fun e => [e.message]

/-- Shows the overview of a program. -/
def inspectFile (files : FileStore) (path : String) : Attempt String := do
  let p ← loadProgram files path
  return p.summary.pretty 0 ++ "\n"

/-! ### Running -/

/-- The value that a command line gives for a variable. A string needs no quotes. -/
def argumentValue? (t : TypeTag) (text : String) : Option Value :=
  if t = .string ∧ (Text.trimStart text.toList).head? ≠ some '"' then some (.string text)
  else Value.ofLiteral? t text.toList

/-- Supplies a variable for a program. -/
def assign (p : Program) (t : PublicVariables) (x : String × String) : Attempt PublicVariables :=
  let (name, text) := x
  match p.symbols.get? name with
  | none => .error [s!"{p.name} has no variable {name}"]
  | some s =>
    if !s.exported then .error [s!"variable {name} is not exported"]
    else match argumentValue? s.type text with
      | none => .error [s!"invalid {s.type.name} value for {name}: {text}"]
      | some v => .ok (t.insert name s.type v)

/-- A value in JSON. Floating-point numbers of 32 bits are widened first. -/
def valueJson : Value → Json
  | .null => .null
  | .boolean b => .bool b
  | .int32 i => .number (toString i.toInt)
  | .int64 i => .number (toString i.toInt)
  | .uint32 n => .nat n.toNat
  | .single bits => number (Float32.ofBits bits).toFloat.toBits
  | .double bits => number bits
  | .string s => .string s
  | .object o => .string o.display
where
  number (bits : UInt64) : Json :=
    match Decimal.jsonNumber? .double bits.toNat with
    | some text => .number text
    | none => .null

/-- The exported variables of a program with their values. -/
def exportedValues (p : Program) (id : BehaviourId) (w : World) : List (String × Value) :=
  p.symbols.exported.filterMap fun s => (w.getVariable id s.name).map (s.name, ·)

/-- Named values, one a line. -/
def valueLines (vs : List (String × Value)) : String :=
  String.join (vs.map fun (name, v) => s!"{name} = {v.display}\n")

/-- Named values as a JSON object, sorted by name. -/
def valueObject (vs : List (String × Value)) : String :=
  let sorted := vs.mergeSort fun a b => !(b.1 < a.1)
  (Json.object (sorted.map fun (name, v) => (name, valueJson v))).pretty 0 ++ "\n"

/-- The world of a program's only behaviour. -/
def worldOf (o : Options) (p : Program) (t : PublicVariables) : World :=
  ((World.new o).addBehaviour (.of 1 1) (some p)).mapBehaviour ⟨1⟩
    fun b => { b with supplied := t }

/-- Raises events up to the first fault. -/
def raiseAll (fuel : Nat) (p : Program) (id : BehaviourId) : List String → Run (Attempt Unit)
  | [] => return .ok ()
  | event :: events => do
    World.raise (World.reentry fuel) id event
    if ((← Run.behaviour? id).map (·.state)) = some BehaviourState.faulted then
      return .error [s!"{p.name} faulted while handling {event}"]
    else raiseAll fuel p id events

/-- Activates the behaviour of a program and raises events; answers its variables at the end. -/
def runBehaviour (fuel : Nat) (p : Program) (events : List String) :
    Run (Attempt (List (String × Value))) := do
  let id : BehaviourId := ⟨1⟩
  match explained s!"Failed to initialize {p.name}" LoadError.chain (← World.activate fuel id) with
  | .error messages => return .error messages
  | .ok () =>
    match ← raiseAll fuel p id (if events.isEmpty then [EventKind.start.entryName] else events) with
    | .error messages => return .error messages
    | .ok () => return .ok (exportedValues p id (← Run.world))

/-- Runs a program, with the given fuel. -/
def runFile (fuel : Nat) (files : FileStore) (o : Options) (path : String) (events : List String)
    (assignments : List (String × String)) (json : Bool) : Option (Attempt String) :=
  match loadProgram files path with
  | .error messages => some (.error messages)
  | .ok p =>
    match assignments.foldlM (assign p) .empty with
    | .error messages => some (.error messages)
    | .ok t =>
      match (runBehaviour fuel p events).run (worldOf o p t) with
      | .error _ _ => none
      | .ok r _ => some (r.map fun vs => if json then valueObject vs else valueLines vs)

/-- Carries out a request, with the given fuel. -/
def serve (fuel : Nat) (files : FileStore) (r : Request) : Option (Attempt (String × FileStore)) :=
  match loadOptions files r.config with
  | .error messages => some (.error messages)
  | .ok o =>
    let keep (result : Attempt String) := result.map fun output => (output, files)
    match r.command with
    | .assemble input output => some (assembleFile files input output)
    | .verify path => some (keep (verifyFile files o path))
    | .disassemble path => some (keep (disassembleFile files path))
    | .inspect path => some (keep (inspectFile files path))
    | .run path events assignments json =>
      (runFile fuel files o path events assignments json).map keep

/-- Carries out a command line, with the given fuel: how it ends, and the files afterwards. -/
def execute (fuel : Nat) (files : FileStore) (args : List String) : Option (Result × FileStore) :=
  match parse args with
  | .misuse => some (.misuse, files)
  | .help topic => some (.success topic.text, files)
  | .version => some (.success versionText, files)
  | .request r =>
    (serve fuel files r).map fun
      | .ok (output, files) => (.success output, files)
      | .error messages => (.failure messages, files)

end EventVm.CommandLine
