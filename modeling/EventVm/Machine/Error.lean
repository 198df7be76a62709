import EventVm.Program.Verification

/-!
# Machine errors

What stops a run, and what a host function reports. Every machine error has a result code; codes 0
and 1 stand for runs that ended without an error.
-/

namespace EventVm

/-- Why a host function failed. -/
inductive HostError where
  | missingArgument (index : Nat)
  /-- The argument holds a value, given as it is shown, of another type. -/
  | argumentType (index : Nat) (expected actual : String)
  | nullReference (index : Nat)
  | unknownBehaviour (id : UInt64)
  | heap (e : HeapError)
  /-- A failure on the host's side. -/
  | host (text : String)
  deriving DecidableEq, Repr

/-- The text of a host function's failure. -/
def HostError.message : HostError → String
  | missingArgument index => s!"Missing argument {index}"
  | argumentType index expected actual => s!"Argument {index} holds {actual}, expected {expected}"
  | nullReference index => s!"Argument {index} is null"
  | unknownBehaviour id => s!"Unknown behaviour {id}"
  | heap e => e.message
  | host text => text

/-- Why a machine refused a program or stopped running. -/
inductive VmError where
  | noProgram
  | unsupportedInstructionSet (name version : String)
  | invalidProgram (e : VerifyError)
  /-- The heap waits for the host at an address. -/
  | unresolvedReference (address : UInt32)
  /-- The heap has another number of slots than the program's template. -/
  | heapLayoutMismatch (expected actual : Nat)
  | invalidOpcode (word pc : UInt32)
  | programCounterOutOfRange (pc : UInt32)
  | stackOverflow
  | stackUnderflow
  | heap (e : HeapError)
  /-- The instruction needs a value of another type than the one found. -/
  | typeMismatch (address : UInt32) (expected : TypeTag) (actual : String)
  | unknownFunction (signature : String)
  | function (signature : String) (e : HostError)
  | recursionLimit (limit : Nat)
  /-- The machine has faulted before. -/
  | halted
  deriving DecidableEq, Repr

namespace VmError

/-- The text of a machine error. -/
def message : VmError → String
  | noProgram => "No program loaded"
  | unsupportedInstructionSet name version => s!"Unsupported instruction set {name} {version}"
  | invalidProgram e => s!"Invalid program: {e.message}"
  | unresolvedReference address =>
    s!"Unresolved reference at heap address {Text.addressHex address}"
  | heapLayoutMismatch expected actual =>
    s!"Heap layout mismatch: program has {expected} slots, heap has {actual}"
  | invalidOpcode word pc => s!"Invalid opcode {word} at {Text.addressHex pc}"
  | programCounterOutOfRange pc =>
    s!"Program counter {Text.addressHex pc} is outside the byte code"
  | stackOverflow => "Stack overflow"
  | stackUnderflow => "Stack underflow"
  | heap e => s!"Heap error: {e.message}"
  | typeMismatch address expected actual =>
    s!"Heap address {Text.addressHex address} holds {actual}, expected {expected.name}"
  | unknownFunction signature => s!"Unknown extern {signature}"
  | function signature e => s!"Extern {signature} failed: {e.message}"
  | recursionLimit limit => s!"Nested execution exceeded {limit} levels"
  | halted => "VM halted by an earlier fault"

/-- The result code of an error. -/
def code : VmError → Nat
  | noProgram => 2
  | unsupportedInstructionSet .. => 3
  | invalidProgram _ => 4
  | unresolvedReference _ => 5
  | heapLayoutMismatch .. => 6
  | invalidOpcode .. => 7
  | programCounterOutOfRange _ => 8
  | stackOverflow => 9
  | stackUnderflow => 10
  | heap _ => 11
  | typeMismatch .. => 12
  | unknownFunction _ => 13
  | function .. => 14
  | halted => 15
  | recursionLimit _ => 16

end VmError

end EventVm
