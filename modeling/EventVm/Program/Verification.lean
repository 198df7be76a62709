import EventVm.Instruction
import EventVm.Program.Basic
import EventVm.Text.Hex

/-!
# Verification

Before a machine runs a program it is checked that

* the values of the heap template fit their slots;
* every symbol names a slot of its type;
* the byte code is a stream of instructions, heap operands lie inside the heap, direct jumps lead to
  the halt address or the beginning of an instruction, and host calls name a string;
* every entry point is the beginning of an instruction;
* every synced variable is declared.

The first violation in this order is reported.
-/

namespace EventVm

/-- Why a program was refused. -/
inductive VerifyError where
  | unsupportedInstructionSet (name version : String)
  | stream (e : StreamError)
  | invalidHeapAddress (address offset : UInt32)
  | invalidJumpTarget (target offset : UInt32)
  /-- The operand of a host call holds no signature. -/
  | invalidCallOperand (address offset : UInt32)
  | invalidEntryPoint (name : String) (address : UInt32)
  | invalidSymbolAddress (name : String) (address : UInt32)
  | symbolTypeMismatch (name : String) (symbol slot : TypeTag)
  | invalidHeapValue (address : UInt32)
  | invalidSyncVariable (name : String)
  deriving DecidableEq, Repr

/-- The text of a stream error. -/
def StreamError.message : StreamError → String
  | invalidOpcode word offset => s!"Invalid opcode {word} at offset {offset}"
  | truncated offset => s!"Truncated instruction at offset {offset}"

/-- The text of a verification error. -/
def VerifyError.message : VerifyError → String
  | unsupportedInstructionSet name version => s!"Unsupported instruction set {name} {version}"
  | stream e => e.message
  | invalidHeapAddress address offset =>
    s!"Invalid heap address {Text.addressHex address} at offset {offset}"
  | invalidJumpTarget target offset =>
    s!"Invalid jump target {Text.addressHex target} at offset {offset}"
  | invalidCallOperand address offset =>
    s!"EXTERN operand {Text.addressHex address} at offset {offset} is not a signature string"
  | invalidEntryPoint name address =>
    s!"Entry point {name} at {Text.addressHex address} is not an instruction boundary"
  | invalidSymbolAddress name address =>
    s!"Symbol {name} points at missing heap address {Text.addressHex address}"
  | symbolTypeMismatch name symbol slot =>
    s!"Symbol {name} is declared {symbol.name} but its heap slot is {slot.name}"
  | invalidHeapValue address =>
    s!"Heap slot {Text.addressHex address} holds a value that does not fit its declared type"
  | invalidSyncVariable name => s!"Synced variable {name} is not declared"

/-- Runs a check over a list up to the first failure. -/
def checkAll (check : α → Except ε Unit) : List α → Except ε Unit
  | [] => .ok ()
  | a :: as => do
    check a
    checkAll check as

namespace Program

/-- The instructions of the byte code. -/
def instructions (p : Program) : Except VerifyError (List Instruction) :=
  (Instruction.decodeAll p.code).mapError .stream

/-- Checks that a slot of the template holds nothing that does not fit. -/
def verifySlot (s : Slot) (address : Nat) : Except VerifyError Unit :=
  if s.isWellTyped then .ok () else .error (.invalidHeapValue (UInt32.ofNat address))

/-- Checks that a symbol names a slot of its type. -/
def verifySymbol (p : Program) (s : Symbol) : Except VerifyError Unit :=
  match p.heap.slot? s.address with
  | none => .error (.invalidSymbolAddress s.name s.address)
  | some slot =>
    if slot.declared = s.type then .ok ()
    else .error (.symbolTypeMismatch s.name s.type slot.declared)

/-- Whether an address holds a string. -/
def holdsString (h : Heap) (address : UInt32) : Bool :=
  match h.get address with
  | .ok (.string _) => true
  | _ => false

/-- Checks the operand of an instruction; `starts` are the beginnings of the instructions. -/
def verifyInstruction (p : Program) (starts : List UInt32) (i : Instruction) :
    Except VerifyError Unit :=
  match i.operand with
  | none => .ok ()
  | some operand =>
    if i.opcode.takesHeapAddress && !p.heap.contains operand then
      .error (.invalidHeapAddress operand i.offset)
    else if i.opcode.takesCodeOffset && operand != haltAddress && !starts.contains operand then
      .error (.invalidJumpTarget operand i.offset)
    else if i.opcode == .call && !holdsString p.heap operand then
      .error (.invalidCallOperand operand i.offset)
    else .ok ()

/-- Checks that an entry point is the beginning of an instruction. -/
def verifyEntryPoint (starts : List UInt32) (s : Symbol) : Except VerifyError Unit :=
  if starts.contains s.address then .ok () else .error (.invalidEntryPoint s.name s.address)

/-- Checks that a synced variable is declared. -/
def verifySync (p : Program) (e : SyncEntry) : Except VerifyError Unit :=
  if p.symbols.contains e.name then .ok () else .error (.invalidSyncVariable e.name)

/-- Checks everything but the declared instruction set. -/
def verifyStructure (p : Program) : Except VerifyError Unit := do
  checkAll (fun (s, address) => verifySlot s address) p.heap.slots.zipIdx
  checkAll p.verifySymbol p.symbols.symbols
  let is ← p.instructions
  let starts := is.map Instruction.offset
  checkAll (p.verifyInstruction starts) is
  checkAll (verifyEntryPoint starts) p.entryPoints.symbols
  checkAll p.verifySync p.sync.entries

/-- Checks a program for the instruction set described here, at any version with its major
number. -/
def verify (p : Program) : Except VerifyError Unit :=
  if p.instructionSet = instructionSetName ∧ p.version.major = instructionSetVersion.major then
    p.verifyStructure
  else .error (.unsupportedInstructionSet p.instructionSet p.version.display)

end Program

end EventVm
