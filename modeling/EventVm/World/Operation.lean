import EventVm.World.Basic

/-!
# Operations on behaviours

What a host does to a behaviour, given a way to run its code: raising events, sending them over the
network, reading and writing variables and exchanging synced ones. A behaviour that is not ready or
running takes no events.
-/

namespace EventVm

namespace World

/-- Runs entry points one after the other, up to the first that does not end at the halt
address. -/
def runAll (self : Reentry) (id : BehaviourId) : List UInt32 → Run Unit
  | [] => return ()
  | address :: addresses => do
    if ← self.runAt id address then runAll self id addresses

/-- Runs the handlers that `select` finds in the table of a behaviour. -/
def dispatchBy (self : Reentry) (id : BehaviourId) (select : EventTable → List UInt32) :
    Run Unit := do
  match ← Run.behaviour? id with
  | none => return ()
  | some b => if b.state.isRunnable then runAll self id (select b.events)

/-- Runs the handlers of an event. -/
def raise (self : Reentry) (id : BehaviourId) (event : String) : Run Unit :=
  dispatchBy self id (·.addresses event)

/-- Runs the handlers of a vocabulary event. -/
def raiseKind (self : Reentry) (id : BehaviourId) (k : EventKind) : Run Unit :=
  dispatchBy self id (·.addressesFor k)

/-- Runs the exported entry point of a name, whatever the name is. -/
def sendEvent (self : Reentry) (id : BehaviourId) (event : String) : Run Unit := do
  match ← Run.behaviour? id with
  | none => return ()
  | some b =>
    if b.state.isRunnable then
      match b.entryPoint? event with
      | some address => do
        let _ ← self.runAt id address
      | none => Run.log (.eventNotFound id event)

/-- The request that asks the network to run an event of a behaviour. The hash that the behaviour
knows is not computed again. -/
def relayRequest (b : Behaviour) (p : Program) (target : NetworkTarget) (event : String) :
    RelayRequest where
  program := p.name
  hash := b.hash.elim p.contentHash Subtype.val
  sender := b.id
  target := target
  event := event

/-- Hands a request to the network, if there is one. -/
def relayFrom (w : World) (b : Behaviour) (p : Program) (target : NetworkTarget)
    (event : String) : World :=
  if w.relay then
    let w := w.mapBehaviour b.id Behaviour.computeHash
    (w.log (.relaying b.id event target)).note (.relayed (relayRequest b p target event))
  else w

/-- Asks the network to run an event. The event is also run here if it goes to all instances or
there is no network. Names that begin with an underscore never go over the network. -/
def sendNetworkEvent (self : Reentry) (id : BehaviourId) (target : NetworkTarget)
    (event : String) : Run Unit := do
  let w ← Run.world
  match w.behaviour? id with
  | none => return ()
  | some b =>
    if b.state.isRunnable then
      if EventTable.isReserved event then Run.log (.relayRefused id event)
      else if !w.options.allowNetworkEvents then Run.log (.networkDisabled id event)
      else match b.program with
        | none => return ()
        | some p =>
          Run.change (·.relayFrom b p target event)
          if target = .all ∨ w.relay = false then sendEvent self id event

/-- Stops the run of a behaviour's machine at its next instruction. -/
def requestAbort (w : World) (id : BehaviourId) : World :=
  w.mapMachine (fun m => { m with abortRequested := true }) (.behaviour id)

/-- Refuses all further runs of a behaviour's machine. -/
def refuseRuns (w : World) (id : BehaviourId) : World :=
  w.mapMachine (fun m => { m with faulted := true }) (.behaviour id)

/-- The value of a variable, if the behaviour has a machine and the variable. -/
def getVariable (w : World) (id : BehaviourId) (name : String) : Option Value :=
  (w.behaviour? id).bind (·.get? name)

/-- Writes a variable. Names that are no variables are ignored, values that do not fit too, with a
message. -/
def setVariable (w : World) (id : BehaviourId) (name : String) (v : Value) : World :=
  match w.behaviour? id with
  | none => w
  | some b =>
    match b.addressOf? name, b.machine with
    | some address, some m =>
      match m.write address v with
      | .ok m => w.mapMachine (fun _ => m) (.behaviour id)
      | .error e => w.log (.writeIgnored id name e)
    | _, _ => w

/-- The synced variables of a behaviour with their values. -/
def syncedValues (b : Behaviour) : List (String × Value) :=
  match b.program with
  | none => []
  | some p => p.sync.entries.filterMap fun e => (b.get? e.name).map (e.name, ·)

/-- Runs the handler for collecting synced variables and collects them, if the behaviour still takes
events then. -/
def collectSyncedValues (self : Reentry) (id : BehaviourId) : Run (List (String × Value)) := do
  raiseKind self id .preSerialization
  match ← Run.behaviour? id with
  | none => return []
  | some b => return if b.state.isRunnable then syncedValues b else []

/-- Takes over a received value, if its variable is synced. -/
def applyValue (id : BehaviourId) (p : Program) (w : World) (x : String × Value) : World :=
  if p.sync.contains x.1 then w.setVariable id x.1 x.2 else w.log (.unsyncedIgnored id x.1)

/-- Takes over received values, then runs the handler for that. -/
def applySyncedValues (self : Reentry) (id : BehaviourId) (values : List (String × Value)) :
    Run Unit := do
  match ← Run.behaviour? id with
  | none => return ()
  | some b =>
    if b.state.isRunnable then
      match b.program with
      | none => return ()
      | some p =>
        Run.change fun w => values.foldl (applyValue id p) w
        raiseKind self id .deserialization

/-- What is known of a behaviour. -/
def description (b : Behaviour) : Description where
  id := b.id
  host := b.host
  program := b.program.map Program.name
  runnable := b.state.isRunnable

/-- Carries out an operation on a behaviour. -/
def perform (self : Reentry) (id : BehaviourId) : Operation → Run Outcome
  | .activate => return .activated (← self.activate id)
  | .supply t => do
    Run.change (·.mapBehaviour id fun b => { b with supplied := t })
    return .nothing
  | .supplied => return .supplied (((← Run.behaviour? id).map (·.supplied)).getD .empty)
  | .dispatch event => do
    raise self id event
    return .nothing
  | .dispatchKind k => do
    raiseKind self id k
    return .nothing
  | .send event => do
    sendEvent self id event
    return .nothing
  | .network target event => do
    sendNetworkEvent self id target event
    return .nothing
  | .runAt address => return .ran (← self.runAt id address)
  | .abort => do
    Run.change (·.requestAbort id)
    return .nothing
  | .get name => return .value ((← Run.world).getVariable id name)
  | .set name v => do
    Run.change (·.setVariable id name v)
    return .nothing
  | .collectSynced => return .values (← collectSyncedValues self id)
  | .applySynced values => do
    applySyncedValues self id values
    return .nothing
  | .events => return .events (((← Run.behaviour? id).map (·.events)).getD .empty)
  | .heap => return .heap (((← Run.behaviour? id).bind (·.machine)).map (·.heap))
  | .describe => do
    match ← Run.behaviour? id with
    | none => return .nothing
    | some b => return .described (description b)
  | .setCounter pc => do
    Run.change (·.mapMachine (fun m => { m with pc }) (.behaviour id))
    return .nothing
  | .markFaulted => do
    Run.change (·.refuseRuns id)
    return .nothing
  | .runMachine => do
    match (← Run.behaviour? id).bind (·.machine) with
    | none => return .finished none
    | some _ => return .finished (some (← self.interpret (.behaviour id)))
  | .hook operations failure => do
    Run.change (·.mapBehaviour id fun b => { b with hook := some ⟨operations, failure⟩ })
    return .nothing

end World

end EventVm
