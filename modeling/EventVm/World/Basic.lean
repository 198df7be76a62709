import EventVm.World.Journal

/-!
# Worlds

A world holds the behaviours of a host and what they share: options, host functions, the number of
the behaviour that is running, the number of runs in progress and the journal. A computation on a
world answers with the changed world. It may run out of fuel, which is no answer of the world; what
it has done to the world until then is kept.
-/

namespace EventVm

/-- The behaviours of a host and what they share. -/
structure World where
  options : Options
  functions : Registry
  behaviours : List Behaviour
  /-- The number of the next behaviour. -/
  nextId : Nat
  /-- The behaviour whose code is running. -/
  current : Option BehaviourId
  /-- The number of runs in progress. -/
  nesting : Nat
  /-- Whether there is a network to relay events to. -/
  relay : Bool
  /-- A machine that belongs to no behaviour. -/
  bench : Machine
  /-- What happened, the newest entry first. -/
  journal : List Entry

/-- The fuel of a computation is used up. -/
inductive Exhausted where
  | exhausted
  deriving DecidableEq, Repr

/-- A computation on a world, whose effects stay when it runs out of fuel. -/
abbrev Run := EStateM Exhausted World

namespace World

/-- A world without behaviours. -/
def new (o : Options) : World where
  options := o
  functions := .builtIns
  behaviours := []
  nextId := 1
  current := none
  nesting := 0
  relay := false
  bench := .new o
  journal := []

/-! ### Behaviours -/

/-- The behaviour with a number. -/
def behaviour? (w : World) (id : BehaviourId) : Option Behaviour :=
  w.behaviours.find? fun b => b.id == id

/-- The behaviour with a number, if the world still finds it. -/
def live? (w : World) (id : BehaviourId) : Option Behaviour :=
  (w.behaviour? id).filter Behaviour.registered

/-- How many behaviours the world finds. -/
def liveCount (w : World) : Nat :=
  w.behaviours.countP Behaviour.registered

/-- The running behaviour, if the world still finds it. -/
def liveCurrent? (w : World) : Option Behaviour :=
  w.current.bind w.live?

/-- Changes the behaviour with a number. -/
def mapBehaviour (w : World) (id : BehaviourId) (f : Behaviour → Behaviour) : World :=
  { w with behaviours := w.behaviours.map fun b => if b.id = id then f b else b }

/-- Adds a behaviour for a program. -/
def addBehaviour (w : World) (host : HostObjects) (p : Option Program) : World :=
  { w with behaviours := w.behaviours ++ [.new ⟨w.nextId⟩ host p], nextId := w.nextId + 1 }

/-- Removes the behaviour with a number. -/
def dropBehaviour (w : World) (id : BehaviourId) : World :=
  { w with behaviours := w.behaviours.filter fun b => b.id != id }

/-- Puts a behaviour into a state. -/
def setState (w : World) (id : BehaviourId) (s : BehaviourState) : World :=
  w.mapBehaviour id fun b => { b with state := s }

/-! ### Machines -/

/-- The machine meant by a reference; one that is not there has no program. -/
def machine (w : World) : MachineRef → Machine
  | .bench => w.bench
  | .behaviour id => ((w.behaviour? id).bind Behaviour.machine).getD (.new w.options)

/-- Changes the machine meant by a reference. -/
def mapMachine (w : World) (f : Machine → Machine) : MachineRef → World
  | .bench => { w with bench := f w.bench }
  | .behaviour id => w.mapBehaviour id (·.mapMachine f)

/-- Runs an action on a machine. -/
def act (w : World) (r : MachineRef) (a : Machine.Action α) : Except VmError α × World :=
  match a.run (w.machine r) with
  | .ok x m => (.ok x, w.mapMachine (fun _ => m) r)
  | .error e m => (.error e, w.mapMachine (fun _ => m) r)

/-- Loads a program into a machine. -/
def loadMachine (w : World) (r : MachineRef) (p : Program) (heap : Heap) :
    Except VmError World := do
  let m ← (w.machine r).load w.options p heap
  return w.mapMachine (fun _ => m) r

/-! ### Journal -/

/-- Writes an entry. -/
def note (w : World) (e : Entry) : World :=
  { w with journal := e :: w.journal }

/-- Writes a message for the log. -/
def log (w : World) (e : LogEvent) : World :=
  w.note (.log e)

/-- Lets the world forget its behaviours and the network. The behaviours themselves live on. -/
def shutDown (w : World) : World :=
  let forgotten := w.behaviours.map fun b => { b with registered := false }
  let w' := { w with behaviours := forgotten, relay := false, current := none }
  w'.log (.shutDown w.liveCount)

end World

namespace Run

/-- The computation that has no fuel. -/
def exhausted : Run α :=
  throw .exhausted

/-- The world. -/
def world : Run World :=
  get

/-- Puts another world in the place of the world. -/
def put (w : World) : Run Unit :=
  set w

/-- Changes the world. -/
def change (f : World → World) : Run Unit :=
  modify f

/-- Writes a message for the log. -/
def log (e : LogEvent) : Run Unit :=
  modify (·.log e)

/-- The behaviour with a number. -/
def behaviour? (id : BehaviourId) : Run (Option Behaviour) :=
  return (← get).behaviour? id

end Run

/-- How running code begins runs inside its own run. -/
structure Reentry where
  /-- Runs an entry point of a behaviour; answers whether it ended at the halt address. -/
  runAt : BehaviourId → UInt32 → Run Bool
  /-- Runs a machine from where it stands. -/
  interpret : MachineRef → Run (Except VmError Finish)
  /-- Activates a behaviour. -/
  activate : BehaviourId → Run (Except LoadError Unit)

/-- Runs that have no fuel. -/
def Reentry.exhausted : Reentry where
  runAt _ _ := Run.exhausted
  interpret _ := Run.exhausted
  activate _ := Run.exhausted

end EventVm
