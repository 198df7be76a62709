import EventVm.Instruction
import EventVm.Program.Basic

/-!
# Building programs

A builder declares variables, entry points and synced variables and collects byte code. Every
variable is a symbol together with the heap slot appended for it, so that the symbols number the
slots. Constants and signatures get names of their own; a signature is declared once.

Building steps are run on a builder and may fail; a step that fails declares nothing.
-/

namespace EventVm

/-- Why a declaration was refused. -/
inductive BuildError where
  | symbol (e : SymbolError)
  | heap (e : HeapError)
  /-- A variable that is not declared cannot be exported or synced. -/
  | unknownSymbol (name : String)
  deriving DecidableEq, Repr

/-- The text of a build error. -/
def BuildError.message : BuildError → String
  | symbol e => e.message
  | heap e => e.message
  | unknownSymbol name => s!"Unknown symbol: {name}"

/-- A program under construction. -/
structure Builder where
  /-- The program so far, without its code. -/
  program : Program
  code : Bytes
  /-- The addresses of the signatures declared so far. -/
  signatures : List (String × UInt32)
  /-- How many constants were asked for. -/
  constants : Nat
  deriving DecidableEq

namespace Builder

/-- The builder of an empty program. -/
def new (name : String) : Builder :=
  ⟨.empty name, [], [], 0⟩

/-- The code offset of the next instruction. -/
def offset (b : Builder) : UInt32 :=
  UInt32.ofNat b.code.length

/-- Appends code. -/
def emit (b : Builder) (bytes : Bytes) : Builder :=
  { b with code := b.code ++ bytes }

/-- Appends an instruction. -/
def emitInstruction (b : Builder) (op : Opcode) (operand : Option UInt32) : Builder :=
  b.emit (Instruction.encodeWords op operand)

/-- The heap address of a variable. -/
def addressOf? (b : Builder) (name : String) : Option UInt32 :=
  b.program.symbols.addressOf? name

/-- The finished program. -/
def build (b : Builder) : Program :=
  { b.program with code := b.code }

/-- The name of the constant asked for after `n` others. -/
def constantName (n : Nat) : String :=
  s!"__const_{n}"

/-- The name of the signature declared after `n` others. -/
def signatureName (n : Nat) : String :=
  s!"__extern_{n}"

end Builder

/-- A building step. -/
abbrev Build := EStateM BuildError Builder

namespace Build

/-- Puts the slot that `extend` appends on the heap. -/
def extendHeap (extend : Heap → Except HeapError Heap) : Build Unit := do
  let b ← get
  match extend b.program.heap with
  | .error e => throw (.heap e)
  | .ok heap => set { b with program := { b.program with heap } }

/-- Enters a variable into the table of symbols. -/
def enterSymbol (s : Symbol) : Build Unit := do
  let b ← get
  match b.program.symbols.insert s with
  | .error e => throw (.symbol e)
  | .ok symbols => set { b with program := { b.program with symbols } }

/-- Declares a variable for the slot that `extend` appends to the heap, and answers its address. The
name is looked up first: when the slot is there, the symbol must not be refused any more. -/
def declare (name : String) (type : TypeTag) (extend : Heap → Except HeapError Heap) :
    Build UInt32 := do
  let b ← get
  if b.program.symbols.contains name then throw (.symbol (.duplicate name))
  let address := b.program.heap.nextAddress
  extendHeap extend
  enterSymbol ⟨name, address, type, false⟩
  return address

/-- Declares a variable with an initial value. -/
def variableWith (name : String) (type : TypeTag) (v : Value) : Build UInt32 :=
  declare name type fun h => h.push type v

/-- Declares a variable with the default value of its type. -/
def defaultVariable (name : String) (type : TypeTag) : Build UInt32 :=
  variableWith name type type.default

/-- Declares a variable that the host resolves to the instance. -/
def thisReference (name : String) (type : TypeTag) : Build UInt32 :=
  declare name type fun h => .ok (h.pushPending type type)

/-- Declares a constant under a name of its own; the name is used up even if this fails. -/
def constant (type : TypeTag) (v : Value) : Build UInt32 := do
  let n := (← get).constants
  modify fun b => { b with constants := n + 1 }
  variableWith (Builder.constantName n) type v

/-- The address of a signature, declared when first asked for. -/
def signature (text : String) : Build UInt32 := do
  let known := (← get).signatures
  match known.lookup text with
  | some address => return address
  | none =>
    let address ← variableWith (Builder.signatureName known.length) .string (.string text)
    modify fun b => { b with signatures := known ++ [(text, address)] }
    return address

/-- Makes a variable visible from outside. -/
def exportVariable (name : String) : Build Unit := do
  let b ← get
  if b.program.symbols.contains name then
    set { b with program := { b.program with symbols := b.program.symbols.markExported name } }
  else throw (.unknownSymbol name)

/-- Makes a variable a synced one. -/
def syncVariable (name : String) (i : Interpolation) : Build Unit := do
  let b ← get
  if b.program.symbols.contains name then
    set { b with program := { b.program with sync := b.program.sync.add name i } }
  else throw (.unknownSymbol name)

/-- Declares an entry point at a code offset. -/
def entryPointAt (name : String) (address : UInt32) (exported : Bool) : Build Unit := do
  let b ← get
  match b.program.entryPoints.insert ⟨name, address, .object, exported⟩ with
  | .error e => throw (.symbol e)
  | .ok entryPoints => set { b with program := { b.program with entryPoints } }

/-- Declares an entry point at the current end of the code. -/
def entryPoint (name : String) (exported : Bool) : Build UInt32 := do
  let address := (← get).offset
  entryPointAt name address exported
  return address

/-- Appends the call of a host function, its signature declared if need be. -/
def emitCall (text : String) : Build Unit := do
  let address ← signature text
  modify (·.emitInstruction .call (some address))

end Build

end EventVm
