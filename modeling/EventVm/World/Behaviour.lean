import EventVm.Event.Table
import EventVm.Machine.Basic
import EventVm.Program.Container
import EventVm.PublicVariables

/-!
# Behaviours

A behaviour is one instance of a program: it has a machine of its own, the table of its event
handlers and a state. It is activated once; a failed activation disables it, a fault ends it.

```text
unloaded → loading → ready ⇄ executing
              ↓                  ↓
           disabled           faulted
```

What hosts may do to behaviours, and what host functions do when programs call them, is given as
data: operations and actions.
-/

namespace EventVm

/-- The number of a behaviour within its world, from 1. -/
structure BehaviourId where
  number : Nat
  deriving DecidableEq, Repr

namespace BehaviourId

/-- A behaviour's number as shown to people. -/
def display (id : BehaviourId) : String :=
  s!"#{id.number}"

/-- The handle by which programs refer to a behaviour. -/
def toRef (id : BehaviourId) : ObjectRef :=
  ⟨.behaviour, UInt64.ofNat id.number⟩

end BehaviourId

/-- Where a behaviour is in its life. -/
inductive BehaviourState where
  | unloaded
  | loading
  /-- Idle, accepting events. -/
  | ready
  /-- Running an entry point. -/
  | executing
  /-- An entry point faulted; nothing runs any more. -/
  | faulted
  /-- The activation failed; nothing ever runs. -/
  | disabled
  deriving DecidableEq, Repr

namespace BehaviourState

/-- The name of a state. -/
def name : BehaviourState → String
  | unloaded => "Unloaded"
  | loading => "Loading"
  | ready => "Ready"
  | executing => "Executing"
  | faulted => "Faulted"
  | disabled => "Disabled"

/-- Whether entry points may run. -/
def isRunnable : BehaviourState → Bool
  | ready | executing => true
  | unloaded | loading | faulted | disabled => false

end BehaviourState

/-- The objects that a behaviour lives on. -/
structure HostObjects where
  gameObject : ObjectRef
  transform : ObjectRef
  deriving DecidableEq, Repr

/-- The handles of an object and its transform. -/
def HostObjects.of (gameObject transform : UInt64) : HostObjects :=
  ⟨⟨.gameObject, gameObject⟩, ⟨.transform, transform⟩⟩

/-- Why an activation failed. -/
inductive LoadError where
  | missingProgram
  | alreadyInitialized
  /-- The machine refused the program. -/
  | program (e : VmError)
  /-- The host has nothing of the type that a slot waits for. -/
  | unsupportedReference (address : UInt32) (target : TypeTag)
  | heap (e : HeapError)
  | hook (text : String)
  deriving DecidableEq, Repr

/-- The text of a load error. -/
def LoadError.message : LoadError → String
  | missingProgram => "Behaviour has no program"
  | alreadyInitialized => "Behaviour is already initialized"
  | program e => s!"Program rejected: {e.message}"
  | unsupportedReference address target =>
    s!"Cannot resolve this reference at {Text.addressHex address} as {target.name}"
  | heap e => s!"Heap error: {e.message}"
  | hook text => s!"Initialization hook failed: {text}"

/-- Who receives a network event. -/
inductive NetworkTarget where
  /-- Every instance, the local one too. -/
  | all
  /-- The instance of the object's owner only. -/
  | owner
  deriving DecidableEq, Repr

namespace NetworkTarget

/-- The target that programs pass as a number. -/
def ofInt? (i : Int32) : Option NetworkTarget :=
  if i = 0 then some all else if i = 1 then some owner else none

/-- The name of a target. -/
def name : NetworkTarget → String
  | all => "All"
  | owner => "Owner"

end NetworkTarget

/-- How a run ends that does not fault. -/
inductive Finish where
  | reachedHalt
  | aborted
  deriving DecidableEq, Repr

/-- The result code of a run that did not fault. -/
def Finish.code : Finish → Nat
  | reachedHalt => 0
  | aborted => 1

/-- What a host may do to a behaviour. -/
inductive Operation where
  | activate
  /-- Supplies the public variables, replacing those supplied before. -/
  | supply (table : PublicVariables)
  | supplied
  /-- Runs the handlers of an event. -/
  | dispatch (event : String)
  | dispatchKind (event : EventKind)
  /-- Runs an exported entry point. -/
  | send (event : String)
  /-- Runs an event on the instances of a network. -/
  | network (target : NetworkTarget) (event : String)
  | runAt (address : UInt32)
  | abort
  | get (name : String)
  | set (name : String) (v : Value)
  /-- Collects the synced variables. -/
  | collectSynced
  /-- Takes over received values of synced variables. -/
  | applySynced (values : List (String × Value))
  | events
  | heap
  | describe
  | setCounter (pc : UInt32)
  | markFaulted
  /-- Runs the machine from where it stands. -/
  | runMachine
  /-- Installs what is to be done when the program has been loaded; a text makes that fail at its
  end. -/
  | hook (operations : List Operation) (failure : Option String)

/-- What is to be done when a program has been loaded. -/
structure Hook where
  operations : List Operation
  failure : Option String

/-- One instance of a program. -/
structure Behaviour where
  id : BehaviourId
  host : HostObjects
  program : Option Program
  /-- The content hash of the program, once it has been computed. -/
  hash : Option { h : String // ∃ p ∈ program, h = p.contentHash }
  /-- The supplied variables, without those that the program refused. -/
  supplied : PublicVariables
  machine : Option Machine
  events : EventTable
  state : BehaviourState
  hook : Option Hook
  /-- Whether the world finds the behaviour by its number. -/
  registered : Bool

namespace Behaviour

/-- A behaviour that has not been activated. -/
def new (id : BehaviourId) (host : HostObjects) (program : Option Program) : Behaviour where
  id := id
  host := host
  program := program
  hash := none
  supplied := .empty
  machine := none
  events := .empty
  state := .unloaded
  hook := none
  registered := true

/-- Computes the content hash of the program, unless that has been done. -/
def computeHash (b : Behaviour) : Behaviour :=
  { b with hash := b.hash <|> b.program.attach.map fun p => ⟨p.1.contentHash, p.1, p.2, rfl⟩ }

/-- The exported entry point with a name. -/
def entryPoint? (b : Behaviour) (event : String) : Option UInt32 := do
  let p ← b.program
  let s ← p.entryPoints.get? event
  if s.exported then some s.address else none

/-- The heap address of a variable. -/
def addressOf? (b : Behaviour) (name : String) : Option UInt32 := do
  let p ← b.program
  p.symbols.addressOf? name

/-- The value of a variable. -/
def get? (b : Behaviour) (name : String) : Option Value := do
  let address ← b.addressOf? name
  let m ← b.machine
  (m.read address).toOption

/-- Changes the machine, if there is one. -/
def mapMachine (b : Behaviour) (f : Machine → Machine) : Behaviour :=
  { b with machine := b.machine.map f }

/-- The object that a slot waits for. -/
def resolve? (b : Behaviour) : TypeTag → Option ObjectRef
  | .gameObject => some b.host.gameObject
  | .transform => some b.host.transform
  | .behaviour => some b.id.toRef
  | _ => none

/-- Puts the host's objects into the slots that wait for them. -/
def resolveReferences (b : Behaviour) (h : Heap) : Except LoadError Heap :=
  h.pending.foldlM
    (fun h (address, target) =>
      match b.resolve? target with
      | none => .error (.unsupportedReference address target)
      | some o => (h.set address (.object o)).mapError .heap)
    h

end Behaviour

end EventVm
