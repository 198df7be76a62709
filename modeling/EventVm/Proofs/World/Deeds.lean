import EventVm.Proofs.World.Calls

/-!
# What code does to a world

Everything that happens in a world is made of deeds: a message is written, a variable is assigned,
an instruction is carried out, a run begins or ends. `Change` lists those deeds that code does by
itself, with what each does to the world; runs and activations are made of them and are dealt with
elsewhere.

How much code may do depends on what the host has opened to it (`Access`): it may reach machines
past their behaviours or not, and there may be host functions besides the built-in ones or not.
-/

namespace EventVm

/-! ### What a host has opened -/

/-- What a host has opened to itself and to programs. -/
structure Access where
  /-- Machines may be reached past their behaviours. -/
  direct : Bool
  /-- There may be host functions besides the built-in ones. -/
  functions : Bool

/-- Everything is open. -/
def Access.full : Access := ⟨true, true⟩

mutual

/-- Whether an operation reaches a machine past its behaviour, or installs a hook that does. -/
def Operation.isDirect : Operation → Bool
  | .setCounter _ | .markFaulted | .runMachine => true
  | .hook operations _ => Operation.anyDirect operations
  | _ => false

/-- Whether one of some operations reaches a machine past its behaviour. -/
def Operation.anyDirect : List Operation → Bool
  | [] => false
  | op :: ops => op.isDirect || Operation.anyDirect ops

end

mutual

/-- Whether a step of a script reaches a machine past its behaviour, or registers a script that
does. -/
def HostAction.isDirect : HostAction → Bool
  | .load .. | .markFaulted => true
  | .register _ _ actions => HostAction.anyDirect actions
  | _ => false

/-- Whether one of some steps reaches a machine past its behaviour. -/
def HostAction.anyDirect : List HostAction → Bool
  | [] => false
  | a :: as => a.isDirect || HostAction.anyDirect as

end

/-- The access allows an operation. -/
def Operation.Permitted (k : Access) (op : Operation) : Prop :=
  k.direct = true ∨ op.isDirect = false

/-- The access allows some operations. -/
def Operation.AllPermitted (k : Access) (ops : List Operation) : Prop :=
  k.direct = true ∨ Operation.anyDirect ops = false

/-- The access allows some steps of scripts. -/
def HostAction.AllPermitted (k : Access) (as : List HostAction) : Prop :=
  k.functions = true ∧ (k.direct = true ∨ HostAction.anyDirect as = false)

/-- The access allows a host function. -/
def HostFunction.Permitted (k : Access) : HostFunction → Prop
  | .builtIn _ => True
  | .script _ as => HostAction.AllPermitted k as

/-- The access allows what has been registered and installed in a world. -/
structure World.Permits (k : Access) (w : World) : Prop where
  functions : ∀ signature f, w.functions.get? signature = some f → f.Permitted k
  hooks : ∀ id b hook, w.behaviour? id = some b → b.hook = some hook →
    Operation.AllPermitted k hook.operations

section Permissions

variable {k : Access}

theorem Operation.AllPermitted.cons {op : Operation} {ops : List Operation}
    (h : AllPermitted k (op :: ops)) : op.Permitted k ∧ AllPermitted k ops := by
  obtain h | h := h
  · exact ⟨.inl h, .inl h⟩
  · rw [anyDirect, Bool.or_eq_false_iff] at h
    exact ⟨.inr h.1, .inr h.2⟩

theorem HostAction.AllPermitted.cons {a : HostAction} {as : List HostAction}
    (h : AllPermitted k (a :: as)) : AllPermitted k [a] ∧ AllPermitted k as := by
  obtain ⟨hf, h | h⟩ := h
  · exact ⟨⟨hf, .inl h⟩, hf, .inl h⟩
  · rw [anyDirect, Bool.or_eq_false_iff] at h
    refine ⟨⟨hf, .inr ?_⟩, hf, .inr h.2⟩
    rw [anyDirect, h.1]
    rfl

theorem HostAction.AllPermitted.direct {a : HostAction} (h : AllPermitted k [a])
    (ha : a.isDirect = true) : k.direct = true := by
  obtain ⟨-, h | h⟩ := h
  · exact h
  · rw [anyDirect, ha] at h
    cases h

theorem HostAction.AllPermitted.of_register {signature : String} {arity : Nat}
    {as : List HostAction} (h : AllPermitted k [.register signature arity as]) :
    AllPermitted k as := by
  obtain ⟨hf, h | h⟩ := h
  · exact ⟨hf, .inl h⟩
  · rw [anyDirect, isDirect, Bool.or_eq_false_iff] at h
    exact ⟨hf, .inr h.1⟩

theorem HostFunction.permitted_full (f : HostFunction) : f.Permitted .full := by
  cases f with
  | builtIn f => trivial
  | script arity as => exact ⟨rfl, .inl rfl⟩

theorem World.permits_full (w : World) : w.Permits .full :=
  ⟨fun _ f _ => f.permitted_full, fun _ _ _ _ _ => .inl rfl⟩

theorem World.permits_new (k : Access) (o : Options) : (World.new o).Permits k := by
  refine ⟨fun signature f hf => ?_, fun _ _ _ hb => nomatch hb⟩
  obtain ⟨b, rfl⟩ := World.builtInsOnly_new o signature f hf
  trivial

end Permissions

/-! ### Deeds -/

/-- What can happen in a world. -/
inductive Deed where
  /-- Something that is no report of a run is written into the journal. -/
  | noted (e : Entry)
  /-- Something changes that no run depends on at once: supplied variables, hooks, computed hashes,
  host functions, the network. -/
  | arranged
  | created (id : BehaviourId)
  | dropped (id : BehaviourId)
  /-- An activation loads the program of a behaviour, or fails to. -/
  | activated (id : BehaviourId) (x : Except LoadError Unit)
  /-- An activation ends with a failed hook. -/
  | disabled (id : BehaviourId)
  /-- An abort is requested. -/
  | aborted (id : BehaviourId)
  /-- A machine is changed past its behaviour, but for its heap and its program. -/
  | poked (r : MachineRef)
  /-- A variable of a behaviour is written. -/
  | assigned (id : BehaviourId) (address : UInt32) (v : Value)
  /-- A host function writes an argument, or a host writes past a behaviour. -/
  | put (r : MachineRef) (address : UInt32) (v : Value)
  /-- A program is loaded into a machine past its behaviour. -/
  | loaded (r : MachineRef) (p : Program) (heap : Heap)
  /-- A run at an entry point begins. -/
  | entered (id : BehaviourId) (address : UInt32)
  /-- A run at an entry point is refused, runs being nested too deeply. -/
  | refused (id : BehaviourId) (address : UInt32)
  /-- A run at an entry point ends. -/
  | left (id : BehaviourId) (address : UInt32) (frame : World.Frame) (x : Except VmError Finish)
  /-- A machine is run past its behaviour. -/
  | opened (r : MachineRef)
  /-- A machine that was run past its behaviour stops. -/
  | stopped (r : MachineRef) (x : Except VmError Finish)
  /-- A machine takes its first look at what is due. -/
  | started (r : MachineRef)
  /-- A machine begins an instruction and carries it out, but for what a called function does. -/
  | begun (i : Begun)

/-- Whether an entry can be written at any time: it tells neither of the beginnings of runs and
instructions nor of how runs ended. -/
def Entry.isRemark : Entry → Bool
  | log e => !e.reportsRun
  | boundary _ | call _ | hooked .. | relayed _ => true
  | entered .. | begun _ => false

/-- The request that an entry tells of. -/
def Entry.request? : Entry → Option RelayRequest
  | relayed q => some q
  | _ => none

/-- The request that a deed hands to the network. -/
def Deed.request? : Deed → Option RelayRequest
  | noted e => e.request?
  | _ => none

/-- The deed is no request to the network, and if it changes a machine past its behaviour, no
machine forgets or imagines that its last run halted. -/
structure Deed.Plain (d : Deed) (w w' : World) : Prop where
  unrelayed : d.request? = none
  halted : ∀ r, d = .poked r → ∀ r', (w'.machine r').halted = (w.machine r').halted

/-! ### Errors of instructions -/

/-- The error is one of an instruction, not one with which a run cannot even begin. -/
def VmError.OfInstruction (e : VmError) : Prop :=
  e ≠ .halted ∧ e ≠ .noProgram

namespace Machine

variable {m m' : Machine} {e : VmError}

theorem ofInstruction_of_fetchWord {code : Bytes} {offset : UInt32}
    (h : fetchWord code offset = .error e) : e.OfInstruction := by
  unfold fetchWord at h
  dsimp only at h
  split at h
  · cases h
  · cases h
    exact ⟨nofun, nofun⟩

theorem ofInstruction_of_fetch {code : Bytes} {pc : UInt32} (h : fetch code pc = .error e) :
    e.OfInstruction := by
  unfold fetch at h
  obtain h | ⟨word, -, h⟩ := bind_eq_error.1 h
  · exact ofInstruction_of_fetchWord h
  · split at h
    · cases h
      exact ⟨nofun, nofun⟩
    · dsimp only at h
      split at h
      · obtain h | ⟨operand, -, h⟩ := bind_eq_error.1 h
        · exact ofInstruction_of_fetchWord h
        · cases h
      · cases h

theorem ofInstruction_of_readAs {expected : TypeTag} {part? : Value → Option α} {address : UInt32}
    (h : m.readAs expected part? address = .error e) : e.OfInstruction := by
  unfold readAs at h
  split at h
  · cases h
    exact ⟨nofun, nofun⟩
  · split at h
    · cases h
    · cases h
      exact ⟨nofun, nofun⟩

theorem Effect.ofInstruction {operand : UInt32} {op : Opcode}
    (h : Effect operand m op (.error e) m') : e.OfInstruction := by
  cases h with
  | noPush h => exact OperandStack.push_error h ▸ ⟨nofun, nofun⟩
  | noPop h | noConditionAddress h | noDestination h | noSource _ h =>
    exact OperandStack.pop_error h ▸ ⟨nofun, nofun⟩
  | noCondition _ h | noTarget h => exact ofInstruction_of_readAs h
  | noCopy => exact ⟨nofun, nofun⟩

end Machine

/-! ### Machines that run -/

namespace Machine

/-- What the end of a run does to its machine. -/
def finish : Except VmError Finish → Machine → Machine
  | .ok .reachedHalt, m => { m with halted := true }
  | .ok .aborted, m => { m with abortRequested := false }
  | .error .halted, m | .error .noProgram, m => m
  | .error _, m => { m with faulted := true }

/-- How a run of a machine can end. A fault is one of the last instruction; that a host function
fails may be known only after a run inside it has made the machine fault. -/
inductive MayFinish (k : Access) (m : Machine) : Except VmError Finish → Prop where
  | reachedHalt (runs : m.Runs) (halt : m.pc = haltAddress) : MayFinish k m (.ok .reachedHalt)
  | aborted (sound : m.faulted = false) (requested : m.abortRequested = true) :
    MayFinish k m (.ok .aborted)
  | halted (faulted : m.faulted = true) : MayFinish k m (.error .halted)
  | noProgram (empty : m.program = none) : MayFinish k m (.error .noProgram)
  | failed {e : VmError} (fault : e.OfInstruction) (runs : k.functions = false → m.Runs) :
    MayFinish k m (.error e)

theorem finish_failed {e : VmError} (h : e.OfInstruction) (m : Machine) :
    finish (.error e) m = { m with faulted := true } := by
  cases e with
  | halted => exact absurd rfl h.1
  | noProgram => exact absurd rfl h.2
  | _ => rfl

end Machine

namespace World

/-- A change that leaves the flags alone does not stop a machine. -/
theorem runs_mapMachine {w : World} {r r' : MachineRef} {f : Machine → Machine}
    (h : (w.machine r').Runs) (hf : (f (w.machine r)).faulted = (w.machine r).faulted)
    (ha : (f (w.machine r)).abortRequested = (w.machine r).abortRequested) :
    ((w.mapMachine f r).machine r').Runs :=
  h.congr (apply_machine_mapMachine_of_eq Machine.faulted hf r')
    (apply_machine_mapMachine_of_eq Machine.abortRequested ha r')

theorem runs_begin {w : World} {r : MachineRef} (h : (w.machine r).Runs) (i : Begun) :
    ((w.begin i).machine r).Runs := by
  refine runs_mapMachine ?_ rfl rfl
  rwa [machine_note]

/-- What an instruction does whose beginning has been written down, but for what a called function
does. -/
inductive Carried (w : World) (i : Begun) : World → Prop where
  | alone {x : Except VmError Unit} {m : Machine} (plain : i.opcode ≠ .call)
    (effect : Machine.Effect i.operand (w.machine i.machine) i.opcode x m) :
    Carried w i (w.mapMachine (fun _ => m) i.machine)
  /-- The function is not reached. -/
  | lost (call : i.opcode = .call) : Carried w i w
  | called {n : Nat} {args : List UInt32} {stack : OperandStack} (call : i.opcode = .call)
    (popped : (w.machine i.machine).stack.popMany n = .ok (args, stack)) :
    Carried w i (w.mapMachine (fun m => { m with stack }) i.machine)

/-- What code can do to a world by itself, if it is the code of the machine `r` or called by it. -/
inductive Change (k : Access) (r : Option MachineRef) (w : World) : Deed → World → Prop where
  | noted {e : Entry} (remark : e.isRemark = true) : Change k r w (.noted e) (w.note e)
  | supplied (id : BehaviourId) (t : PublicVariables) :
    Change k r w .arranged (w.mapBehaviour id fun b => { b with supplied := t })
  | hooked (id : BehaviourId) (hook : Option Hook)
    (permitted : ∀ h ∈ hook, Operation.AllPermitted k h.operations) :
    Change k r w .arranged (w.mapBehaviour id fun b => { b with hook := hook })
  | hashed (id : BehaviourId) :
    Change k r w .arranged (w.mapBehaviour id Behaviour.computeHash)
  | registered (signature : String) (f : HostFunction) (permitted : f.Permitted k) :
    Change k r w .arranged { w with functions := w.functions.register signature f }
  | shutDown : Change k r w .arranged w.shutDown
  | aborted (id : BehaviourId) : Change k r w (.aborted id) (w.requestAbort id)
  | poked {f : Machine → Machine} (r' : MachineRef) (direct : k.direct = true)
    (heap : ∀ m, (f m).heap = m.heap) (program : ∀ m, (f m).program = m.program) :
    Change k r w (.poked r') (w.mapMachine f r')
  | assigned {id : BehaviourId} {b : Behaviour} {name : String} {address : UInt32} {v : Value}
    {m m' : Machine} (found : w.behaviour? id = some b)
    (declared : b.addressOf? name = some address) (machine : b.machine = some m)
    (written : m.write address v = .ok m') :
    Change k r w (.assigned id address v) (w.mapMachine (fun _ => m') (.behaviour id))
  | put {r' : MachineRef} {address : UInt32} {v : Value} {m : Machine}
    (own : r = some r') (written : (w.machine r').write address v = .ok m) :
    Change k r w (.put r' address v) (w.mapMachine (fun _ => m) r')
  | loaded {r' : MachineRef} {p : Program} {heap : Heap} {w' : World} (direct : k.direct = true)
    (own : r = some r') (loaded : w.loadMachine r' p heap = .ok w') :
    Change k r w (.loaded r' p heap) w'
  | started {r' : MachineRef} (own : r = some r') (sound : (w.machine r').faulted = false) :
    Change k r w (.started r') (w.mapMachine (fun m => { m with halted := false }) r')
  | begun {i : Begun} {w' : World} (own : r = some i.machine) (runs : (w.machine i.machine).Runs)
    (due : i.pc = (w.machine i.machine).pc) (carried : Carried (w.begin i) i w') :
    Change k r w (.begun i) w'

end World

end EventVm
