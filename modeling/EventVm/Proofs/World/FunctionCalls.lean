import EventVm.Proofs.World.Isolation

/-!
# The functions that a run calls

An instruction that calls a function enters it in a world in which the arguments have been taken off
the stack (`FunctionEntry`), unless the call fails before. The calls of a run are those of the
instructions on its course (`World.calls`); the runs that a function begins make calls of their
own.
-/

namespace EventVm

variable {self : Reentry} {r : MachineRef} {code : Bytes} {operand : UInt32} {w : World}

/-- A host function that is entered: its call and the world at that moment. -/
structure FunctionEntry where
  function : HostFunction
  call : Invocation
  world : World

/-- What comes of the function. -/
def FunctionEntry.run (inner : Reentry) (e : FunctionEntry) : Run (Except VmError Unit) :=
  Except.mapError (.function e.call.signature) <$> (e.function.run inner e.call).run

namespace World

/-- The function that a host call of the machine `r` enters. -/
def functionEntry (w : World) (r : MachineRef) (operand : UInt32) :
    Except VmError FunctionEntry := do
  let signature ← (w.machine r).readAs .string Value.string? operand
  match w.functions.get? signature with
  | none => throw (.unknownFunction signature)
  | some function =>
    let (args, stack) ← (w.machine r).stack.popMany function.arity
    return ⟨function, ⟨r, signature, args⟩, w.mapMachine (fun m => { m with stack }) r⟩

/-- A host call fails before it enters a function, or ends as the function does. -/
theorem callFunction_eq (self : Reentry) (w : World) (r : MachineRef) (operand : UInt32) :
    callFunction self r operand w = match w.functionEntry r operand with
      | .error x => .ok (.error x) w
      | .ok e => e.run self e.world := by
  unfold callFunction functionEntry
  cases (w.machine r).readAs .string Value.string? operand with
  | error x => rfl
  | ok signature =>
    simp only [bind, Except.bind]
    cases w.functions.get? signature with
    | none => rfl
    | some f =>
      simp only
      cases (w.machine r).stack.popMany f.arity with
      | error x => rfl
      | ok popped =>
        simp only [pure, Except.pure, FunctionEntry.run, Functor.map, EStateM.map]
        cases (f.run self ⟨r, signature, popped.1⟩).run
          (w.mapMachine (fun m => { m with stack := popped.2 }) r) with
        | error x w' => rfl
        | ok x w' => cases x <;> rfl

/-- The functions of the machine `r` are called by the machine `r`. -/
theorem machine_of_functionEntry {e : FunctionEntry} (h : w.functionEntry r operand = .ok e) :
    e.call.machine = r := by
  obtain ⟨signature, -, h⟩ := bind_eq_ok.1 h
  split at h
  · cases h
  · obtain ⟨⟨args, stack⟩, -, h⟩ := bind_eq_ok.1 h
    cases h
    rfl

/-- The function that is entered by the instruction of the machine `r` that is due. -/
def entering? (r : MachineRef) (code : Bytes) (w : World) : Option FunctionEntry :=
  match Machine.fetch code (w.machine r).pc with
  | .ok (.call, operand) => ((w.begun r code operand).functionEntry r operand).toOption
  | _ => none

theorem machine_of_entering? {e : FunctionEntry} (h : entering? r code w = some e) :
    e.call.machine = r := by
  unfold entering? at h
  split at h
  · exact machine_of_functionEntry (toOption_eq_some.1 h)
  · cases h

/-- The functions that the instructions of a loop enter, in order. -/
def loopCalls (self : Reentry) (r : MachineRef) (code : Bytes) (fuel : Nat) (w : World) :
    List FunctionEntry :=
  (course self r code fuel w).filterMap (entering? r code)

/-- A loop that has ended calls nothing. -/
theorem loopCalls_of_not_due (h : ¬ w.Due r) (fuel : Nat) :
    loopCalls self r code fuel w = [] := by
  rw [loopCalls, course_of_not_due h, List.filterMap_nil]

/-- A loop calls what its first instruction calls, then what the others do. -/
theorem loopCalls_of_due (h : w.Due r) (fuel : Nat) : loopCalls self r code (fuel + 1) w =
    (entering? r code w).toList ++
      match step self r code (w.machine r).pc (w.note (.boundary (w.boundary r code))) with
      | .ok (.ok ()) w' => loopCalls self r code fuel w'
      | _ => [] := by
  simp only [loopCalls, course_of_due h]
  rw [List.filterMap_cons]
  cases entering? r code w <;>
    cases step self r code (w.machine r).pc (w.note (.boundary (w.boundary r code))) with
    | error x w' => rfl
    | ok x w' => cases x <;> rfl

/-- The functions that a machine enters from where it stands, in order. -/
def interpretCalls (self : Reentry) (fuel : Nat) (r : MachineRef) (w : World) :
    List FunctionEntry :=
  match (w.machine r).program with
  | none => []
  | some p => loopCalls self r p.code fuel (w.mapMachine (fun m => { m with halted := false }) r)

/-- A run of the behaviour at an entry point begins: it is neither passed over nor refused. -/
def begins (w : World) (id : BehaviourId) : Bool :=
  (w.behaviour? id).any (fun b => b.machine.isSome && b.state.isRunnable) &&
    w.nesting < w.options.maxNestingDepth

/-- The functions that a run at an entry point enters, in order. -/
def calls (w : World) : (fuel : Nat) → (id : BehaviourId) → (address : UInt32) → List FunctionEntry
  | 0, _, _ => []
  | fuel + 1, id, address =>
    if w.begins id then
      interpretCalls (reentry fuel) fuel (.behaviour id) (w.enter id address)
    else []

theorem machine_of_calls {fuel : Nat} {id : BehaviourId} {address : UInt32} {e : FunctionEntry}
    (h : e ∈ w.calls fuel id address) : e.call.machine = .behaviour id := by
  cases fuel with
  | zero => cases h
  | succ fuel =>
    rw [calls] at h
    split at h
    · unfold interpretCalls at h
      split at h
      · cases h
      · obtain ⟨u, -, he⟩ := List.mem_filterMap.1 h
        exact machine_of_entering? he
    · cases h

end World

end EventVm
