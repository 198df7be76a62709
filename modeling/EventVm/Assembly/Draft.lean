import EventVm.Assembly.Statement
import EventVm.Program.Builder

/-!
# Assembling

The statements of a source are collected into a draft: variables are declared at once, so that they
get their addresses in order, while exports, synced variables, labels and instructions are kept with
their lines. A label stands for the offset at which the next instruction will begin. When all lines
are read, exports and synced variables are settled, every label becomes an entry point and the
instructions are emitted, their names and strings being replaced by addresses.

The first fault in this order is reported, with its line.
-/

namespace EventVm

/-- Why a source text could not be assembled. Lines count from 1. -/
inductive AsmError where
  | malformed (line : Nat) (fault : Assembly.LineFault)
  /-- A name is used but nowhere declared. -/
  | undefined (line : Nat) (name : String)
  /-- A declaration was refused. -/
  | build (line : Nat) (e : BuildError)
  deriving DecidableEq, Repr

/-- The text of an assembly error. -/
def AsmError.message : AsmError → String
  | malformed line fault => s!"line {line}: {fault.message}"
  | undefined line name => s!"line {line}: undefined name {name}"
  | build line e => s!"line {line}: {e.message}"

namespace Assembly

/-- Something with the number of its line. -/
structure Located (α : Type) where
  line : Nat
  item : α
  deriving DecidableEq, Repr

/-- A label and the offset that it stands for. -/
structure Label where
  name : String
  offset : UInt32
  deriving DecidableEq, Repr

/-- An instruction as written. -/
structure SourceInstruction where
  opcode : Opcode
  operand : Option Operand
  deriving DecidableEq, Repr

/-- What the lines read so far have said. -/
structure Draft where
  builder : Builder
  region : Region
  dataExports : List (Located String)
  syncs : List (Located (String × Interpolation))
  codeExports : List (Located String)
  labels : List (Located Label)
  instructions : List (Located SourceInstruction)
  /-- The offset of the next instruction. -/
  offset : UInt32

/-- Runs a building step; `wrap` says what its failure means. -/
def runBuild (b : Builder) (step : Build α) (wrap : BuildError → AsmError) :
    Except AsmError (α × Builder) :=
  match step.run b with
  | .ok a b => .ok (a, b)
  | .error e _ => .error (wrap e)

namespace Draft

/-- The draft of an empty source. -/
def new (name : String) : Draft :=
  ⟨.new name, .outside, [], [], [], [], [], 0⟩

/-- The label of a name. -/
def label? (d : Draft) (name : String) : Option Label :=
  (d.labels.map Located.item).find? fun l => l.name == name

/-- Declares a variable. -/
def declare (name : String) (type : TypeTag) : Initial → Build UInt32
  | .this => Build.thisReference name type
  | .value v => Build.variableWith name type v
  | .default => Build.defaultVariable name type

/-- Adds a statement. -/
def add (d : Draft) (line : Nat) : Statement → Except AsmError Draft
  | .enter region => .ok { d with region }
  | .exportName name =>
    match d.region with
    | .data => .ok { d with dataExports := d.dataExports ++ [⟨line, name⟩] }
    | .code => .ok { d with codeExports := d.codeExports ++ [⟨line, name⟩] }
    | .outside => .error (.malformed line .exportOutside)
  | .sync name i => .ok { d with syncs := d.syncs ++ [⟨line, (name, i)⟩] }
  | .declare name type initial => do
    let (_, builder) ← runBuild d.builder (declare name type initial) (.build line)
    return { d with builder }
  | .label name =>
    if (d.label? name).isSome then .error (.malformed line (.duplicateLabel name))
    else .ok { d with labels := d.labels ++ [⟨line, ⟨name, d.offset⟩⟩] }
  | .instruction op operand =>
    .ok { d with
      instructions := d.instructions ++ [⟨line, ⟨op, operand⟩⟩], offset := d.offset + op.size }

/-- Adds a line as it stands in the source. -/
def addLine (d : Draft) (raw : List Char) (line : Nat) : Except AsmError Draft :=
  let text := Text.trim (stripComment false raw)
  if text.isEmpty then .ok d
  else match parseStatement d.region text with
    | .error fault => .error (.malformed line fault)
    | .ok s => d.add line s

/-- The draft of a source. -/
def read (name : String) (source : List Char) : Except AsmError Draft :=
  (Text.lines source).zipIdx.foldlM (fun d (raw, i) => d.addLine raw (i + 1)) (new name)

/-- Makes the variables exported in data regions visible. -/
def settleExports (d : Draft) (b : Builder) : Except AsmError Builder :=
  d.dataExports.foldlM
    (fun b x => return (← runBuild b (Build.exportVariable x.item) fun _ => .undefined x.line x.item).2)
    b

/-- Enters the synced variables. -/
def settleSyncs (d : Draft) (b : Builder) : Except AsmError Builder :=
  d.syncs.foldlM
    (fun b x => return (← runBuild b (Build.syncVariable x.item.1 x.item.2)
      fun _ => .undefined x.line x.item.1).2)
    b

/-- Checks that every name exported in a code region is a label. -/
def checkCodeExports (d : Draft) : List (Located String) → Except AsmError Unit
  | [] => .ok ()
  | x :: xs =>
    if (d.label? x.item).isSome then d.checkCodeExports xs
    else .error (.undefined x.line x.item)

/-- Whether a label is exported in a code region. -/
def isExported (d : Draft) (name : String) : Bool :=
  d.codeExports.any fun x => x.item == name

/-- Makes every label an entry point. -/
def settleLabels (d : Draft) (b : Builder) : Except AsmError Builder :=
  d.labels.foldlM
    (fun b x => return (← runBuild b
      (Build.entryPointAt x.item.name x.item.offset (d.isExported x.item.name))
      (.build x.line)).2)
    b

/-- The word that an operand stands for. Signatures are declared as they are met. -/
def resolve (d : Draft) (b : Builder) (line : Nat) (op : Opcode) :
    Operand → Except AsmError (UInt32 × Builder)
  | .number n => .ok (n, b)
  | .name name =>
    let address := if op.takesCodeOffset then (d.label? name).map Label.offset
      else b.addressOf? name
    match address with
    | some a => .ok (a, b)
    | none => .error (.undefined line name)
  | .string s =>
    if op.takesCodeOffset then .error (.malformed line .stringAsTarget)
    else if op = .call ∨ op = .remark then runBuild b (Build.signature s) (.build line)
    else .error (.malformed line (.stringAsOperand op))

/-- Emits an instruction. -/
def emit (d : Draft) (b : Builder) (x : Located SourceInstruction) : Except AsmError Builder :=
  match x.item.operand with
  | none => .ok (b.emitInstruction x.item.opcode none)
  | some operand => do
    let (word, b) ← d.resolve b x.line x.item.opcode operand
    return b.emitInstruction x.item.opcode (some word)

/-- The program that a draft describes. -/
def finish (d : Draft) : Except AsmError Program := do
  let b ← d.settleExports d.builder
  let b ← d.settleSyncs b
  d.checkCodeExports d.codeExports
  let b ← d.settleLabels b
  let b ← d.instructions.foldlM d.emit b
  return b.build

end Draft

/-- Assembles a source text into a program with the given name. -/
def assemble (name source : String) : Except AsmError Program := do
  let d ← Draft.read name source.toList
  d.finish

end Assembly

end EventVm
