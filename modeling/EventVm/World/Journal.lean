import EventVm.World.Function

/-!
# Journals

A world writes down what happens in it, the newest entry first: messages for the log, the runs and
instructions that are begun, the moments when an instruction is due, the calls of scripted host
functions, the operations of hooks and the requests handed to the network. Nothing that happens
depends on the journal.
-/

namespace EventVm

/-- How important a message is. -/
inductive LogLevel where
  | error
  | warn
  | info
  | debug
  /-- Output of a program. -/
  | program
  deriving DecidableEq, Repr

/-- The name of a level. -/
def LogLevel.name : LogLevel → String
  | error => "ERROR"
  | warn => "WARN"
  | info => "INFO"
  | debug => "DEBUG"
  | program => "LOG"

/-- The value of a message's field. -/
inductive LogValue where
  | text (s : String)
  | number (n : Nat)
  deriving DecidableEq, Repr

/-- A message for the log. -/
inductive LogEvent where
  | loadFailed (id : BehaviourId) (e : LoadError)
  | hookFailed (id : BehaviourId) (e : LoadError)
  | ready (id : BehaviourId) (program : String)
  | variableTypeMismatch (id : BehaviourId) (name : String) (supplied declared : TypeTag)
  | variableRejected (id : BehaviourId) (name : String) (e : HeapError)
  | executionAborted (id : BehaviourId) (address : UInt32)
  | executionFault (id : BehaviourId) (address : UInt32) (e : VmError)
  | eventNotFound (id : BehaviourId) (event : String)
  | relayRefused (id : BehaviourId) (event : String)
  | networkDisabled (id : BehaviourId) (event : String)
  | relaying (id : BehaviourId) (event : String) (target : NetworkTarget)
  | writeIgnored (id : BehaviourId) (name : String) (e : HeapError)
  | unsyncedIgnored (id : BehaviourId) (name : String)
  | shutDown (behaviours : Nat)
  /-- Output of the program that the given behaviour is running. -/
  | output (id : Option BehaviourId) (text : String)
  deriving DecidableEq, Repr

namespace LogEvent

/-- The level of a message. -/
def level : LogEvent → LogLevel
  | loadFailed .. | hookFailed .. | executionAborted .. | executionFault .. => .error
  | relayRefused .. => .warn
  | ready .. | shutDown _ => .info
  | variableTypeMismatch .. | variableRejected .. | eventNotFound .. | networkDisabled ..
  | relaying .. | writeIgnored .. | unsyncedIgnored .. => .debug
  | output .. => .program

/-- The wording of a message. -/
def message : LogEvent → String
  | loadFailed .. => "failed to load program"
  | hookFailed .. => "initialization hook failed"
  | ready .. => "behaviour ready"
  | variableTypeMismatch .. => "public variable type mismatch"
  | variableRejected .. => "public variable rejected"
  | executionAborted .. => "execution aborted"
  | executionFault .. => "execution fault"
  | eventNotFound .. => "custom event not found"
  | relayRefused .. => "refusing to relay an underscore event"
  | networkDisabled .. => "network events disabled"
  | relaying .. => "relaying network event"
  | writeIgnored .. => "variable write ignored"
  | unsyncedIgnored .. => "ignoring unsynced variable"
  | shutDown _ => "udon runtime shut down"
  | output _ text => text

/-- The field that names a behaviour. -/
def behaviourField (id : BehaviourId) : String × LogValue :=
  ("behaviour", .text id.display)

/-- The fields of a message. -/
def fields : LogEvent → List (String × LogValue)
  | loadFailed id e | hookFailed id e => [behaviourField id, ("error", .text e.message)]
  | ready id program => [behaviourField id, ("program", .text program)]
  | variableTypeMismatch id name supplied declared =>
    [behaviourField id, ("variable", .text name), ("supplied", .text supplied.name),
      ("declared", .text declared.name)]
  | variableRejected id name e | writeIgnored id name e =>
    [behaviourField id, ("variable", .text name), ("error", .text e.message)]
  | executionAborted id address =>
    [behaviourField id, ("address", .number address.toNat), ("code", .number Finish.aborted.code)]
  | executionFault id address e =>
    [behaviourField id, ("address", .number address.toNat), ("code", .number e.code),
      ("error", .text e.message)]
  | eventNotFound id event | relayRefused id event | networkDisabled id event =>
    [behaviourField id, ("event", .text event)]
  | relaying id event target =>
    [behaviourField id, ("event", .text event), ("target", .text target.name)]
  | unsyncedIgnored id name => [behaviourField id, ("variable", .text name)]
  | shutDown behaviours => [("behaviours", .number behaviours)]
  | output none _ => []
  | output (some id) _ => [("behaviour", .number id.number)]

end LogEvent

/-- Which machine of a world is meant: the one of a behaviour, or the one on the bench, which
belongs to no behaviour. -/
inductive MachineRef where
  | bench
  | behaviour (id : BehaviourId)
  deriving DecidableEq, Repr

/-- A request to run an event on the remote instances of a program. -/
structure RelayRequest where
  program : String
  /-- The content hash of the program. -/
  hash : String
  sender : BehaviourId
  target : NetworkTarget
  event : String
  deriving DecidableEq, Repr

/-- What is known of a behaviour. -/
structure Description where
  id : BehaviourId
  host : HostObjects
  program : Option String
  runnable : Bool
  deriving DecidableEq, Repr

/-- What an operation answers. -/
inductive Outcome where
  | nothing
  | activated (r : Except LoadError Unit)
  | supplied (t : PublicVariables)
  | ran (halted : Bool)
  | value (v : Option Value)
  | values (vs : List (String × Value))
  | events (t : EventTable)
  | heap (h : Option Heap)
  | described (d : Description)
  | finished (r : Option (Except VmError Finish))

/-- What a step of a script answers. -/
inductive Reply where
  | nothing
  | value (v : Value)
  | boolean (b : Bool)
  | int32 (i : Int32)
  | single (bits : UInt32)
  | string (s : String)
  | behaviour (id : BehaviourId)
  | ran (halted : Option Bool)
  | state (s : Option BehaviourState)
  | activated (r : Option (Except LoadError Unit))
  | position (p : Option (UInt32 × Nat))

/-- The call of a scripted host function, as it stands at its end. -/
structure CallRecord where
  signature : String
  args : List UInt32
  replies : List Reply
  current : Option BehaviourId
  nesting : Nat
  error : Option HostError

/-- The moment in a run when the next instruction is due, whether or not the run goes on then. -/
structure Boundary where
  machine : MachineRef
  /-- The code that the run fetches from. -/
  code : Bytes
  pc : UInt32
  /-- The operand stack, the top first. -/
  stack : List UInt32
  current : Option BehaviourId
  nesting : Nat

/-- An instruction that has been fetched and is about to take effect. -/
structure Begun where
  machine : MachineRef
  pc : UInt32
  opcode : Opcode
  /-- The operand word, 0 if the opcode has none. -/
  operand : UInt32
  current : Option BehaviourId

/-- Something that happened. -/
inductive Entry where
  | log (e : LogEvent)
  /-- A run at an entry point began; it is counted in the number of runs in progress. -/
  | entered (id : BehaviourId) (address : UInt32) (nesting : Nat)
  | boundary (b : Boundary)
  | begun (i : Begun)
  | call (c : CallRecord)
  | hooked (answer : Outcome) (state : BehaviourState)
  | relayed (r : RelayRequest)

end EventVm
