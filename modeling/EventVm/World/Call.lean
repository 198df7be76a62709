import EventVm.World.Operation

/-!
# Calls of host functions

A call knows the machine that makes it and the heap addresses it was given. Arguments are read and
results written through these addresses; a null string reads as the empty one. A call that fails
keeps the effects that it had before.
-/

namespace EventVm

/-- A call of a host function. -/
structure Invocation where
  machine : MachineRef
  signature : String
  /-- The heap addresses taken off the stack, in the order in which they were pushed. -/
  args : List UInt32

/-- A computation inside a call, which may fail. -/
abbrev HostCall := ExceptT HostError Run

namespace Invocation

/-- The heap address of an argument. -/
def address? (call : Invocation) (index : Nat) : Except HostError UInt32 :=
  match call.args[index]? with
  | some address => .ok address
  | none => .error (.missingArgument index)

/-- The value of an argument. -/
def value? (call : Invocation) (w : World) (index : Nat) : Except HostError Value := do
  ((w.machine call.machine).read (← call.address? index)).mapError .heap

/-- The part of the value of an argument that a type has. -/
def valueAs? (call : Invocation) (w : World) (expected : TypeTag) (part? : Value → Option α)
    (index : Nat) : Except HostError α := do
  let v ← call.value? w index
  match part? v with
  | some a => return a
  | none => throw (.argumentType index expected.name v.display)

/-- The text of a string, the empty one for null. -/
def text? : Value → Option String
  | .string s => some s
  | .null => some ""
  | _ => none

/-- The behaviour that an argument names. -/
def behaviour? (call : Invocation) (w : World) (index : Nat) : Except HostError BehaviourId := do
  match ← call.value? w index with
  | .null => throw (.nullReference index)
  | .object ⟨.behaviour, id⟩ =>
    match w.live? ⟨id.toNat⟩ with
    | some b => return b.id
    | none => throw (.unknownBehaviour id)
  | v => throw (.argumentType index TypeTag.behaviour.name v.display)

/-- Writes the value of an argument. -/
def write? (call : Invocation) (w : World) (index : Nat) (v : Value) : Except HostError World := do
  let m ← ((w.machine call.machine).write (← call.address? index) v).mapError .heap
  return w.mapMachine (fun _ => m) call.machine

/-- Asks the world something that may fail. -/
def ask (question : World → Except HostError α) : HostCall α := do
  match question (← Run.world) with
  | .ok a => return a
  | .error e => throw e

/-- The value of an argument. -/
def get (call : Invocation) (index : Nat) : HostCall Value :=
  ask (call.value? · index)

def getBoolean (call : Invocation) (index : Nat) : HostCall Bool :=
  ask (call.valueAs? · .boolean Value.boolean? index)

def getInt32 (call : Invocation) (index : Nat) : HostCall Int32 :=
  ask (call.valueAs? · .int32 Value.int32? index)

def getSingle (call : Invocation) (index : Nat) : HostCall UInt32 :=
  ask (call.valueAs? · .single Value.single? index)

def getString (call : Invocation) (index : Nat) : HostCall String :=
  ask (call.valueAs? · .string text? index)

def getBehaviour (call : Invocation) (index : Nat) : HostCall BehaviourId :=
  ask (call.behaviour? · index)

/-- Writes the value of an argument. -/
def set (call : Invocation) (index : Nat) (v : Value) : HostCall Unit := do
  Run.put (← ask (call.write? · index v))

end Invocation

/-- The bits of the sum of two floating-point numbers. -/
def addSingles (a b : UInt32) : UInt32 :=
  (Float32.ofBits a + Float32.ofBits b).toBits

/-- Writes a value for people into the log: strings as they are. -/
def logOutput (v : Value) (w : World) : World :=
  w.log (.output w.current (match v with
    | .string s => s
    | v => v.display))

/-- The receivers of a network event, as an argument gives them. -/
def networkTarget? (index : Nat) (v : Value) : Except HostError NetworkTarget :=
  match v.int32?.bind NetworkTarget.ofInt? with
  | some target => .ok target
  | none =>
    .error (.argumentType index "VRCUdonCommonInterfacesNetworkEventTarget" v.display)

/-- Runs a built-in function. -/
def BuiltIn.run (self : Reentry) (call : Invocation) : BuiltIn → HostCall Unit
  | .int32Addition => do
    let a ← call.getInt32 0
    let b ← call.getInt32 1
    call.set 2 (.int32 (a + b))
  | .int32Subtraction => do
    let a ← call.getInt32 0
    let b ← call.getInt32 1
    call.set 2 (.int32 (a - b))
  | .int32LessThan => do
    let a ← call.getInt32 0
    let b ← call.getInt32 1
    call.set 2 (.boolean (a < b))
  | .int32Equality => do
    let a ← call.getInt32 0
    let b ← call.getInt32 1
    call.set 2 (.boolean (a == b))
  | .booleanNegation => do
    let b ← call.getBoolean 0
    call.set 1 (.boolean !b)
  | .singleAddition => do
    let a ← call.getSingle 0
    let b ← call.getSingle 1
    call.set 2 (.single (addSingles a b))
  | .stringConcat => do
    let a ← call.getString 0
    let b ← call.getString 1
    call.set 2 (.string (a ++ b))
  | .debugLog => do
    let v ← call.get 0
    Run.change (logOutput v)
  | .sendCustomEvent => do
    let target ← call.getBehaviour 0
    let event ← call.getString 1
    World.sendEvent self target event
  | .setProgramVariable => do
    let target ← call.getBehaviour 0
    let name ← call.getString 1
    let v ← call.get 2
    Run.change (·.setVariable target name v)
  | .getProgramVariable => do
    let target ← call.getBehaviour 0
    let name ← call.getString 1
    let v := ((← Run.world).getVariable target name).getD .null
    call.set 2 v
  | .sendCustomNetworkEvent => do
    let target ← call.getBehaviour 0
    let raw ← call.get 1
    let scope ← Invocation.ask fun _ => networkTarget? 1 raw
    let event ← call.getString 2
    World.sendNetworkEvent self target scope event

/-- Loads a program into the calling machine. -/
def Invocation.load (call : Invocation) (p : Program) (heap : Option Heap) : HostCall Unit := do
  match (← Run.world).loadMachine call.machine p (heap.getD p.heap) with
  | .ok w => Run.put w
  | .error e => throw (.host e.message)

namespace HostAction

/-- Runs a computation for the running behaviour, if the world still finds it. -/
def onCurrent (f : BehaviourId → Run α) : Run (Option α) := do
  match (← Run.world).liveCurrent? with
  | none => return none
  | some b => return some (← f b.id)

/-- Where the machine of a behaviour stands: program counter and stack depth. -/
def positionOf (id : BehaviourId) (w : World) : Option (UInt32 × Nat) :=
  ((w.behaviour? id).bind (·.machine)).map fun m => (m.pc, m.stack.depth)

/-- Takes a step of a script. -/
def run (self : Reentry) (call : Invocation) : HostAction → HostCall Reply
  | .get index => return .value (← call.get index)
  | .getBoolean index => return .boolean (← call.getBoolean index)
  | .getInt32 index => return .int32 (← call.getInt32 index)
  | .getSingle index => return .single (← call.getSingle index)
  | .getString index => return .string (← call.getString index)
  | .getBehaviour index => return .behaviour (← call.getBehaviour index)
  | .set index v => do
    call.set index v
    return .nothing
  | .fail text => throw (.host text)
  | .load p heap => do
    call.load p heap
    return .nothing
  | .abort => do
    let _ ← onCurrent fun id => Run.change (·.requestAbort id)
    return .nothing
  | .send event => do
    let _ ← onCurrent fun id => World.sendEvent self id event
    return .nothing
  | .dispatch event => do
    let _ ← onCurrent fun id => World.raise self id event
    return .nothing
  | .markFaulted => do
    let _ ← onCurrent fun id => Run.change (·.refuseRuns id)
    return .nothing
  | .runAt address => return .ran (← onCurrent fun id => self.runAt id address)
  | .state => return .state ((← Run.world).liveCurrent?.map (·.state))
  | .activate => return .activated (← onCurrent self.activate)
  | .position => do
    let w ← Run.world
    return .position (w.liveCurrent?.bind fun b => positionOf b.id w)
  | .register signature arity actions => do
    Run.change fun w =>
      { w with functions := w.functions.register signature (.script arity actions) }
    return .nothing
  | .shutdown => do
    Run.change World.shutDown
    return .nothing

/-- Runs a script up to its end or its first failure: the replies, in order, and the failure. -/
def runAll (self : Reentry) (call : Invocation) :
    List HostAction → Run (List Reply × Option HostError)
  | [] => return ([], none)
  | a :: as => do
    match ← (run self call a).run with
    | .error e => return ([], some e)
    | .ok r => do
      let (rs, e) ← runAll self call as
      return (r :: rs, e)

end HostAction

/-- Runs a script and enters it into the journal. -/
def Invocation.runScript (self : Reentry) (call : Invocation) (actions : List HostAction) :
    HostCall Unit := do
  let (replies, error) ← HostAction.runAll self call actions
  Run.change fun w => w.note (.call {
    signature := call.signature
    args := call.args
    replies
    current := w.current
    nesting := w.nesting
    error })
  match error with
  | none => return ()
  | some e => throw e

/-- Runs a host function. -/
def HostFunction.run (self : Reentry) (call : Invocation) : HostFunction → HostCall Unit
  | .builtIn f => f.run self call
  | .script _ actions => call.runScript self actions

end EventVm
