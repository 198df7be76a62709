import EventVm.World.Call

/-!
# Execution

A run takes instructions until it reaches the halt address, is aborted or faults. Host functions may
begin further runs, also on the machine that is calling them: such a run shares the heap, the stack
and the flags of the outer one. An entry point is therefore run inside a frame that restores the
program counter, cuts the stack and puts back the behaviour that was running before.

Nothing bounds a run, so everything here takes fuel. Fuel is used up by every instruction and every
run inside a run; without fuel there is no answer, and more fuel never changes an answer. The
journal of a run that has no answer is the beginning of what the run would write with more fuel.
-/

namespace EventVm

namespace World

/-! ### Instructions -/

/-- Carries out a host call whose operand is `operand`. -/
def callFunction (self : Reentry) (r : MachineRef) (operand : UInt32) :
    Run (Except VmError Unit) := fun w =>
  match (w.machine r).readAs .string Value.string? operand with
  | .error e => .ok (.error e) w
  | .ok signature =>
    match w.functions.get? signature with
    | none => .ok (.error (.unknownFunction signature)) w
    | some f =>
      match (w.machine r).stack.popMany f.arity with
      | .error e => .ok (.error e) w
      | .ok (args, stack) =>
        let w := w.mapMachine (fun m => { m with stack }) r
        match (f.run self ⟨r, signature, args⟩).run w with
        | .error x w => .error x w
        | .ok (.error e) w => .ok (.error (.function signature e)) w
        | .ok (.ok ()) w => .ok (.ok ()) w

/-- Fetches the instruction at `pc`, moves the program counter behind it and carries it out. -/
def step (self : Reentry) (r : MachineRef) (code : Bytes) (pc : UInt32) :
    Run (Except VmError Unit) := fun w =>
  match Machine.fetch code pc with
  | .error e => .ok (.error e) w
  | .ok (op, operand) =>
    let w := w.note (.begun ⟨r, pc, op, operand, w.current⟩)
    let w := w.mapMachine (fun m => { m with pc := pc + op.size }) r
    if op = .call then callFunction self r operand w
    else
      let (result, w) := w.act r (Machine.Action.execute op operand)
      .ok result w

/-! ### Runs -/

/-- The moment when the next instruction is due. -/
def boundary (w : World) (r : MachineRef) (code : Bytes) : Boundary where
  machine := r
  code := code
  pc := (w.machine r).pc
  stack := (w.machine r).stack.entries
  current := w.current
  nesting := w.nesting

/-- Takes instructions of `code` until the run ends. The end is looked for before every instruction:
a fault of the machine first, then a request to abort, then the halt address. -/
def runLoop (self : Reentry) (r : MachineRef) (code : Bytes) :
    (fuel : Nat) → Run (Except VmError Finish)
  | 0, w => Run.exhausted w
  | fuel + 1, w =>
    let w := w.note (.boundary (w.boundary r code))
    let m := w.machine r
    if m.faulted then .ok (.error .halted) w
    else if m.abortRequested then
      .ok (.ok .aborted) (w.mapMachine (fun m => { m with abortRequested := false }) r)
    else if m.pc = haltAddress then
      .ok (.ok .reachedHalt) (w.mapMachine (fun m => { m with halted := true }) r)
    else
      match step self r code m.pc w with
      | .error x w => .error x w
      | .ok (.error e) w =>
        .ok (.error e) (w.mapMachine (fun m => { m with faulted := true }) r)
      | .ok (.ok ()) w => runLoop self r code fuel w

/-- Runs a machine from where it stands. The program that is loaded at the beginning is the one that
runs to the end. -/
def interpretWith (self : Reentry) (fuel : Nat) (r : MachineRef) : Run (Except VmError Finish) :=
  fun w =>
    match (w.machine r).program with
    | none => .ok (.error .noProgram) w
    | some p =>
      if (w.machine r).faulted then .ok (.error .halted) w
      else runLoop self r p.code fuel (w.mapMachine (fun m => { m with halted := false }) r)

/-! ### Entry points -/

/-- What a run has to restore at its end. -/
structure Frame where
  pc : UInt32
  depth : Nat
  state : BehaviourState
  current : Option BehaviourId

/-- Opens the frame of a run at an entry point. -/
def enter (w : World) (id : BehaviourId) (address : UInt32) : World :=
  let w := { w with nesting := w.nesting + 1, current := some id }
  let w := w.note (.entered id address w.nesting)
  (w.mapMachine (fun m => { m with pc := address }) (.behaviour id)).setState id .executing

/-- Closes the frame of a run. A state that the run did not end with stays. -/
def leave (w : World) (id : BehaviourId) (frame : Frame) : World :=
  let w := w.mapMachine
    (fun m => { m with pc := frame.pc, stack := m.stack.truncate frame.depth }) (.behaviour id)
  let w := { w with current := frame.current, nesting := w.nesting - 1 }
  w.mapBehaviour id fun b => if b.state = .executing then { b with state := frame.state } else b

/-- Ends a behaviour for good. -/
def fault (w : World) (id : BehaviourId) : World :=
  (w.refuseRuns id).setState id .faulted

/-- What a run that has ended means for its behaviour: whether it reached the halt address, and a
fault if not. A fault of the machine that came before has been reported already. -/
def conclude (w : World) (id : BehaviourId) (address : UInt32) :
    Except VmError Finish → Bool × World
  | .ok .reachedHalt => (true, w)
  | .ok .aborted => (false, (w.log (.executionAborted id address)).fault id)
  | .error .halted => (false, w.fault id)
  | .error e => (false, (w.log (.executionFault id address e)).fault id)

/-- Runs an entry point of a behaviour with the given interpreter; answers whether the run ended at
the halt address. A run that would be nested too deeply is a fault. -/
def runAtWith (interpret : MachineRef → Run (Except VmError Finish)) (id : BehaviourId)
    (address : UInt32) : Run Bool := fun w =>
  match w.behaviour? id with
  | none => .ok false w
  | some b =>
    match b.machine with
    | none => .ok false w
    | some m =>
      if !b.state.isRunnable then .ok false w
      else if w.options.maxNestingDepth ≤ w.nesting then
        let (halted, w) :=
          w.conclude id address (.error (.recursionLimit w.options.maxNestingDepth))
        .ok halted w
      else
        let frame : Frame := ⟨m.pc, m.stack.depth, b.state, w.current⟩
        match interpret (.behaviour id) (w.enter id address) with
        | .error x w => .error x w
        | .ok r w =>
          let (halted, w) := (w.leave id frame).conclude id address r
          .ok halted w

/-! ### Activation -/

/-- What becomes of a supplied variable: a place on the heap, or a refusal with its reason. Names
that are not exported variables are passed over. -/
def supplyOne (b : Behaviour) (p : Program) (s : Heap × PublicVariables × List LogEvent)
    (v : PublicVariable) : Heap × PublicVariables × List LogEvent :=
  let (heap, kept, events) := s
  match p.symbols.get? v.name with
  | none => s
  | some symbol =>
    if !symbol.exported then s
    else if v.type ≠ symbol.type then
      (heap, kept.erase v.name,
        .variableTypeMismatch b.id v.name v.type symbol.type :: events)
    else match heap.set symbol.address v.value with
      | .ok heap => (heap, kept, events)
      | .error e => (heap, kept.erase v.name, .variableRejected b.id v.name e :: events)

/-- The heap with the supplied variables in it, the variables that were not refused and the reasons
for the refusals, the last one first. -/
def supplyAll (b : Behaviour) (p : Program) : Heap × PublicVariables × List LogEvent :=
  b.supplied.entries.foldl (supplyOne b p) (p.heap, b.supplied, [])

/-- The machine of a behaviour, loaded with its program on the given heap. -/
def buildMachine (o : Options) (b : Behaviour) (p : Program) (heap : Heap) :
    Except LoadError Machine := do
  let heap ← b.resolveReferences heap
  ((Machine.new o).load o p heap).mapError .program

/-- Loads the program of a behaviour: supplied variables and references to the host go onto the
heap, then the machine is built and the event table. -/
def loadBehaviour (w : World) (b : Behaviour) : Except LoadError Unit × World :=
  match b.program with
  | none => (.error .missingProgram, w)
  | some p =>
    let (heap, kept, events) := supplyAll b p
    let w := events.reverse.foldl log w
    let w := w.mapBehaviour b.id fun b => { b with supplied := kept }
    match buildMachine w.options b p heap with
    | .error e => (.error e, w)
    | .ok m => (.ok (), w.mapBehaviour b.id fun b =>
        { b with machine := some m, events := .ofEntryPoints p.entryPoints })

/-- Ends the activation of a behaviour without success. -/
def disable (w : World) (id : BehaviourId) : World :=
  w.mapBehaviour id fun b => { b with state := .disabled, machine := none }

/-- Carries out the operations of a hook. -/
def runHook (self : Reentry) (id : BehaviourId) : List Operation → Run Unit
  | [] => return ()
  | op :: ops => do
    let answer ← perform self id op
    Run.change fun w => match w.behaviour? id with
      | some b => w.note (.hooked answer b.state)
      | none => w
    runHook self id ops

/-- Takes the hook of a behaviour and carries it out; answers the text of its failure. -/
def takeHook (self : Reentry) (id : BehaviourId) : Run (Option String) := do
  match (← Run.behaviour? id).bind (·.hook) with
  | none => return none
  | some hook => do
    Run.change (·.mapBehaviour id fun b => { b with hook := none })
    runHook self id hook.operations
    return hook.failure

/-- Activates a behaviour, once: loads its program and carries out its hook. Any failure disables
it. -/
def activateWith (self : Reentry) (id : BehaviourId) : Run (Except LoadError Unit) := do
  match ← Run.behaviour? id with
  | none => return .error .alreadyInitialized
  | some b =>
    if b.state ≠ .unloaded then return .error .alreadyInitialized
    else
      Run.change (·.setState id .loading)
      let (loaded, w) := (← Run.world).loadBehaviour b
      Run.put w
      match loaded with
      | .error e => do
        Run.change fun w => (w.setState id .disabled).log (.loadFailed id e)
        return .error e
      | .ok () => do
        Run.change (·.setState id .ready)
        match ← takeHook self id with
        | some text => do
          let e := LoadError.hook text
          Run.change fun w => (w.disable id).log (.hookFailed id e)
          return .error e
        | none => do
          Run.log (.ready id ((b.program.map Program.name).getD ""))
          return .ok ()

/-! ### Fuel -/

/-- Runs with the given fuel. -/
def reentry : (fuel : Nat) → Reentry
  | 0 => .exhausted
  | fuel + 1 => {
    runAt := fun id address w =>
      runAtWith (interpretWith (reentry fuel) fuel) id address w
    interpret := fun r w => interpretWith (reentry fuel) fuel r w
    activate := fun id w => activateWith (reentry fuel) id w }

/-- Runs a machine from where it stands. -/
def interpret (fuel : Nat) (r : MachineRef) : Run (Except VmError Finish) :=
  (reentry fuel).interpret r

/-- Runs an entry point of a behaviour. -/
def runAt (fuel : Nat) (id : BehaviourId) (address : UInt32) : Run Bool :=
  (reentry fuel).runAt id address

/-- Activates a behaviour. -/
def activate (fuel : Nat) (id : BehaviourId) : Run (Except LoadError Unit) :=
  (reentry fuel).activate id

/-- Carries out an operation on a behaviour. -/
def operate (fuel : Nat) (id : BehaviourId) (op : Operation) : Run Outcome :=
  perform (reentry fuel) id op

end World

end EventVm
