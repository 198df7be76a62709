import EventVm.Config.Options
import EventVm.Machine.Stack

/-!
# Machines

A machine runs one program on a heap of its own. A program is loaded only when it passes all checks,
and then replaces everything at once. Instructions move the program counter behind themselves before
they take effect, so that a fault leaves it there.
-/

namespace EventVm

/-- The state of a machine. -/
structure Machine where
  program : Option Program
  heap : Heap
  stack : OperandStack
  /-- The offset of the next instruction. -/
  pc : UInt32
  /-- Whether the last run ended at the halt address. -/
  halted : Bool
  /-- Whether a run has faulted since the program was loaded. -/
  faulted : Bool
  /-- Whether the run is to stop at the next instruction. -/
  abortRequested : Bool

namespace Machine

/-- A machine without program. -/
def new (o : Options) : Machine where
  program := none
  heap := .empty
  stack := .new o.maxStackDepth
  pc := 0
  halted := false
  faulted := false
  abortRequested := false

/-- Checks that a machine with the given options may run a program on a heap. -/
def checkLoad (o : Options) (p : Program) (heap : Heap) : Except VmError Unit := do
  if !o.supports p.instructionSet p.version then
    throw (.unsupportedInstructionSet p.instructionSet p.version.display)
  p.verifyStructure.mapError .invalidProgram
  if heap.size ≠ p.heap.size then throw (.heapLayoutMismatch p.heap.size heap.size)
  match heap.pending with
  | [] => return ()
  | (address, _) :: _ => throw (.unresolvedReference address)

/-- Loads a program with a heap prepared for it. -/
def load (m : Machine) (o : Options) (p : Program) (heap : Heap) : Except VmError Machine := do
  checkLoad o p heap
  return {
    program := some p
    heap
    stack := m.stack.clear
    pc := 0
    halted := false
    faulted := false
    abortRequested := false }

/-- The value at a heap address. -/
def read (m : Machine) (address : UInt32) : Except HeapError Value :=
  m.heap.get address

/-- The part of the value at a heap address that a type has. -/
def readAs (m : Machine) (expected : TypeTag) (part? : Value → Option α) (address : UInt32) :
    Except VmError α :=
  match m.read address with
  | .error e => .error (.heap e)
  | .ok v =>
    match part? v with
    | some a => .ok a
    | none => .error (.typeMismatch address expected v.display)

/-- Puts a value at a heap address. -/
def write (m : Machine) (address : UInt32) (v : Value) : Except HeapError Machine :=
  return { m with heap := ← m.heap.set address v }

/-! ### Fetching -/

/-- The word of the code at an offset. -/
def fetchWord (code : Bytes) (offset : UInt32) : Except VmError UInt32 :=
  let bytes := (code.drop offset.toNat).take 4
  if bytes.length = 4 then .ok (UInt32.ofNat (ofLittleEndian bytes))
  else .error (.programCounterOutOfRange offset)

/-- The opcode and operand of the code at an offset; without an operand word the operand is 0. -/
def fetch (code : Bytes) (pc : UInt32) : Except VmError (Opcode × UInt32) := do
  let word ← fetchWord code pc
  match Opcode.ofWord? word with
  | none => throw (.invalidOpcode word pc)
  | some op => return (op, ← if op.hasOperand then fetchWord code (pc + 4) else .ok 0)

/-! ### Instructions -/

/-- A computation on a machine, whose effects stay when it fails. -/
abbrev Action := EStateM VmError Machine

namespace Action

/-- Pushes an address. -/
def push (address : UInt32) : Action Unit := do
  let m ← get
  match m.stack.push address with
  | .ok stack => set { m with stack }
  | .error e => throw e

/-- Pops an address. -/
def pop : Action UInt32 := do
  let m ← get
  match m.stack.pop with
  | .ok (address, stack) =>
    set { m with stack }
    return address
  | .error e => throw e

/-- The part of the value at a heap address that a type has. -/
def readAs (expected : TypeTag) (part? : Value → Option α) (address : UInt32) : Action α := do
  match (← get).readAs expected part? address with
  | .ok a => return a
  | .error e => throw e

/-- Moves the program counter. -/
def jump (target : UInt32) : Action Unit :=
  modify fun m => { m with pc := target }

/-- Puts the value at `source` at `destination` too. -/
def copy (source destination : UInt32) : Action Unit := do
  let m ← get
  match m.heap.copy source destination with
  | .ok heap => set { m with heap }
  | .error e => throw (.heap e)

/-- The effect of an instruction behind which the program counter already stands. The effect of a
host call is not the machine's. -/
def execute (op : Opcode) (operand : UInt32) : Action Unit :=
  match op with
  | .nop | .remark | .call => return ()
  | .push => push operand
  | .pop => do
    let _ ← pop
  | .jumpIfFalse => do
    let address ← pop
    let condition ← readAs .boolean Value.boolean? address
    if condition then return () else jump operand
  | .jump => jump operand
  | .jumpIndirect => do
    jump (← readAs .uint32 Value.uint32? operand)
  | .copy => do
    let destination ← pop
    let source ← pop
    copy source destination

end Action

end Machine

end EventVm
