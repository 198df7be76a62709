import EventVm.World.Execution

/-!
# Looking things up in a changed world

What a change of a world does to the behaviours and machines that the world finds. A machine that is
not there cannot be changed, so most facts are about `machine?`, which says whether it is there.
-/

namespace EventVm

/-- A registered function replaces the one that its signature had; the others stay. -/
theorem Registry.get?_register (r : Registry) (signature signature' : String) (f : HostFunction) :
    (r.register signature f).get? signature' =
      if signature' = signature then some f else r.get? signature' := by
  unfold register get?
  rw [List.lookup_cons]
  by_cases h : signature' = signature
  · simp [h]
  · rw [if_neg h, beq_false_of_ne h]
    show List.lookup signature' (r.functions.filter fun e => e.1 != signature) = _
    induction r.functions with
    | nil => rfl
    | cons e es ih =>
      rw [List.filter_cons]
      by_cases he : e.1 = signature
      · rw [if_neg (by simp [he]), ih, List.lookup_cons, he, beq_false_of_ne h]
      · rw [if_pos (by simp [he]), List.lookup_cons, List.lookup_cons, ih]

namespace World

/-- The machine meant by a reference, if it is there. -/
def machine? (w : World) : MachineRef → Option Machine
  | .bench => some w.bench
  | .behaviour id => (w.behaviour? id).bind Behaviour.machine

/-- The state of a behaviour. -/
def state? (w : World) (id : BehaviourId) : Option BehaviourState :=
  (w.behaviour? id).map Behaviour.state

/-- The program of a behaviour. -/
def program? (w : World) (id : BehaviourId) : Option Program :=
  (w.behaviour? id).bind Behaviour.program

theorem machine_eq (w : World) (r : MachineRef) :
    w.machine r = (w.machine? r).getD (.new w.options) := by
  cases r <;> rfl

theorem machine_of_machine? {w : World} {r : MachineRef} {m : Machine}
    (h : w.machine? r = some m) : w.machine r = m := by
  rw [machine_eq, h]
  rfl

theorem machine_of_map {w w' : World} {r : MachineRef} {m : Machine} {f : Machine → Machine}
    (h : w'.machine? r = (w.machine? r).map f) (hm : w.machine? r = some m) :
    w'.machine r = f m := by
  apply machine_of_machine?
  rw [h, hm, Option.map_some]

theorem machine?_of_behaviour? {w : World} {id : BehaviourId} {b : Behaviour} {m : Machine}
    (hb : w.behaviour? id = some b) (hm : b.machine = some m) :
    w.machine? (.behaviour id) = some m := by
  simp only [machine?, hb, Option.bind_some, hm]

theorem state?_of_behaviour? {w : World} {id : BehaviourId} {b : Behaviour}
    (hb : w.behaviour? id = some b) : w.state? id = some b.state := by
  simp only [state?, hb, Option.map_some]

theorem program?_of_behaviour? {w : World} {id : BehaviourId} {b : Behaviour}
    (hb : w.behaviour? id = some b) : w.program? id = b.program := by
  simp only [program?, hb, Option.bind_some]

theorem id_of_behaviour? {w : World} {id : BehaviourId} {b : Behaviour}
    (h : w.behaviour? id = some b) : b.id = id := by
  simpa using List.find?_some h

/-! ### Changed behaviours -/

theorem behaviour?_mapBehaviour (f : Behaviour → Behaviour) (hf : ∀ b, (f b).id = b.id) (w : World)
    (id id' : BehaviourId) :
    (w.mapBehaviour id f).behaviour? id' =
      if id' = id then (w.behaviour? id').map f else w.behaviour? id' := by
  simp only [mapBehaviour, behaviour?, List.find?_map]
  have hp : ((fun b : Behaviour => b.id == id') ∘ fun b => if b.id = id then f b else b) =
      fun b => b.id == id' := by
    funext b
    simp only [Function.comp]
    split
    · rw [hf]
    · rfl
  rw [hp]
  cases h : w.behaviours.find? fun b => b.id == id' with
  | none => simp
  | some b =>
    have hb : b.id = id' := by simpa using List.find?_some h
    simp only [Option.map_some, hb]
    split <;> rfl

theorem behaviour?_mapMachine (w : World) (f : Machine → Machine) (r : MachineRef)
    (id : BehaviourId) :
    (w.mapMachine f r).behaviour? id =
      if r = .behaviour id then (w.behaviour? id).map (·.mapMachine f) else w.behaviour? id := by
  cases r with
  | bench => rfl
  | behaviour id' =>
    rw [mapMachine, behaviour?_mapBehaviour (·.mapMachine f) fun _ => rfl]
    simp only [MachineRef.behaviour.injEq, eq_comm (a := id)]

theorem machine?_mapMachine (w : World) (f : Machine → Machine) (r r' : MachineRef) :
    (w.mapMachine f r).machine? r' = if r' = r then (w.machine? r').map f else w.machine? r' := by
  cases r' with
  | bench => cases r <;> rfl
  | behaviour id =>
    simp only [machine?, behaviour?_mapMachine, eq_comm (a := MachineRef.behaviour id)]
    split
    · cases w.behaviour? id <;> rfl
    · rfl

theorem machine?_mapMachine_self (w : World) (f : Machine → Machine) (r : MachineRef) :
    (w.mapMachine f r).machine? r = (w.machine? r).map f := by
  rw [machine?_mapMachine, if_pos rfl]

theorem machine?_mapMachine_of_ne (w : World) (f : Machine → Machine) {r r' : MachineRef}
    (h : r' ≠ r) : (w.mapMachine f r).machine? r' = w.machine? r' := by
  rw [machine?_mapMachine, if_neg h]

theorem mapMachine_id (w : World) (r : MachineRef) : w.mapMachine (fun m => m) r = w := by
  cases r with
  | bench => rfl
  | behaviour id =>
    have h : (fun b : Behaviour => if b.id = id then b.mapMachine fun m => m else b) =
        fun b => b := by
      funext b
      simp [Behaviour.mapMachine]
    simp only [mapMachine, mapBehaviour, h, List.map_id']

theorem mapMachine_mapMachine (w : World) (f g : Machine → Machine) (r : MachineRef) :
    (w.mapMachine f r).mapMachine g r = w.mapMachine (fun m => g (f m)) r := by
  cases r with
  | bench => rfl
  | behaviour id =>
    simp only [mapMachine, mapBehaviour, List.map_map]
    congr 2
    funext b
    by_cases h : b.id = id
    · have hmapped : (b.mapMachine f).id = id := h
      rw [Function.comp_apply, if_pos h, if_pos hmapped, if_pos h]
      simp only [Behaviour.mapMachine, Option.map_map, Function.comp_def]
    · simp [h]

/-- What the change of a machine leaves alone is the same afterwards. -/
theorem apply_machine_mapMachine_of_eq (g : Machine → α) {f : Machine → Machine} {w : World}
    {r : MachineRef} (h : g (f (w.machine r)) = g (w.machine r)) (r' : MachineRef) :
    g ((w.mapMachine f r).machine r') = g (w.machine r') := by
  have hopt : (w.mapMachine f r).options = w.options := by cases r <;> rfl
  rw [machine_eq, machine_eq, machine?_mapMachine, hopt]
  split
  · next hr =>
    subst hr
    cases hm : w.machine? r' with
    | none => rfl
    | some m => rwa [machine_of_machine? hm] at h
  · rfl

/-- What a change leaves alone in all machines is the same afterwards. -/
theorem apply_machine_mapMachine (g : Machine → α) (f : Machine → Machine)
    (h : ∀ m, g (f m) = g m) (w : World) (r r' : MachineRef) :
    g ((w.mapMachine f r).machine r') = g (w.machine r') :=
  apply_machine_mapMachine_of_eq g (h _) r'

@[simp]
theorem state?_mapMachine (w : World) (f : Machine → Machine) (r : MachineRef) (id : BehaviourId) :
    (w.mapMachine f r).state? id = w.state? id := by
  simp only [state?, behaviour?_mapMachine]
  split
  · cases w.behaviour? id <;> rfl
  · rfl

@[simp]
theorem program?_mapMachine (w : World) (f : Machine → Machine) (r : MachineRef)
    (id : BehaviourId) : (w.mapMachine f r).program? id = w.program? id := by
  simp only [program?, behaviour?_mapMachine]
  split
  · cases w.behaviour? id <;> rfl
  · rfl

/-- A change of behaviours that leaves their machines alone. -/
theorem machine?_mapBehaviour (f : Behaviour → Behaviour) (hf : ∀ b, (f b).id = b.id)
    (hm : ∀ b, (f b).machine = b.machine) (w : World) (id : BehaviourId) (r : MachineRef) :
    (w.mapBehaviour id f).machine? r = w.machine? r := by
  cases r with
  | bench => rfl
  | behaviour id' =>
    simp only [machine?, behaviour?_mapBehaviour f hf]
    split
    · cases w.behaviour? id' with
      | none => rfl
      | some b => simp only [Option.map_some, Option.bind_some, hm]
    · rfl

theorem program?_mapBehaviour (f : Behaviour → Behaviour) (hf : ∀ b, (f b).id = b.id)
    (hp : ∀ b, (f b).program = b.program) (w : World) (id id' : BehaviourId) :
    (w.mapBehaviour id f).program? id' = w.program? id' := by
  simp only [program?, behaviour?_mapBehaviour f hf]
  split
  · cases w.behaviour? id' with
    | none => rfl
    | some b => simp only [Option.map_some, Option.bind_some, hp]
  · rfl

/-- A change of behaviours that leaves their states alone. -/
theorem state?_mapBehaviour (f : Behaviour → Behaviour) (hf : ∀ b, (f b).id = b.id)
    (hs : ∀ b, (f b).state = b.state) (w : World) (id id' : BehaviourId) :
    (w.mapBehaviour id f).state? id' = w.state? id' := by
  unfold state?
  rw [behaviour?_mapBehaviour f hf]
  split
  · rw [Option.map_map]
    exact congrArg (Option.map · _) (funext hs)
  · rfl

@[simp]
theorem machine?_computeHash (w : World) (id : BehaviourId) (r : MachineRef) :
    (w.mapBehaviour id Behaviour.computeHash).machine? r = w.machine? r :=
  machine?_mapBehaviour Behaviour.computeHash (fun _ => rfl) (fun _ => rfl) w id r

@[simp]
theorem program?_computeHash (w : World) (id id' : BehaviourId) :
    (w.mapBehaviour id Behaviour.computeHash).program? id' = w.program? id' :=
  program?_mapBehaviour Behaviour.computeHash (fun _ => rfl) (fun _ => rfl) w id id'

@[simp]
theorem state?_computeHash (w : World) (id id' : BehaviourId) :
    (w.mapBehaviour id Behaviour.computeHash).state? id' = w.state? id' :=
  state?_mapBehaviour Behaviour.computeHash (fun _ => rfl) (fun _ => rfl) w id id'

@[simp]
theorem machine?_setState (w : World) (id : BehaviourId) (s : BehaviourState) (r : MachineRef) :
    (w.setState id s).machine? r = w.machine? r :=
  machine?_mapBehaviour (fun b => { b with state := s }) (fun _ => rfl) (fun _ => rfl) w id r

@[simp]
theorem machine_setState (w : World) (id : BehaviourId) (s : BehaviourState) (r : MachineRef) :
    (w.setState id s).machine r = w.machine r := by
  rw [machine_eq, machine_eq, machine?_setState]
  rfl

@[simp]
theorem program?_setState (w : World) (id id' : BehaviourId) (s : BehaviourState) :
    (w.setState id s).program? id' = w.program? id' :=
  program?_mapBehaviour (fun b => { b with state := s }) (fun _ => rfl) (fun _ => rfl) w id id'

theorem state?_setState (w : World) (id id' : BehaviourId) (s : BehaviourState) :
    (w.setState id s).state? id' =
      if id' = id then (w.state? id').map fun _ => s else w.state? id' := by
  unfold state? setState
  rw [behaviour?_mapBehaviour (fun b => { b with state := s }) fun _ => rfl]
  split
  · cases w.behaviour? id' <;> rfl
  · rfl

/-! ### What a change leaves alone -/

section Frame

variable (w : World) (f : Machine → Machine) (r r' : MachineRef) (e : Entry) (id : BehaviourId)

@[simp] theorem options_mapMachine : (w.mapMachine f r).options = w.options := by cases r <;> rfl

@[simp] theorem functions_mapMachine : (w.mapMachine f r).functions = w.functions := by
  cases r <;> rfl

@[simp] theorem current_mapMachine : (w.mapMachine f r).current = w.current := by cases r <;> rfl

@[simp] theorem nesting_mapMachine : (w.mapMachine f r).nesting = w.nesting := by cases r <;> rfl

@[simp] theorem journal_mapMachine : (w.mapMachine f r).journal = w.journal := by cases r <;> rfl

@[simp] theorem machine?_note : (w.note e).machine? r = w.machine? r := by cases r <;> rfl

@[simp] theorem machine_note : (w.note e).machine r = w.machine r := by cases r <;> rfl

@[simp] theorem state?_note : (w.note e).state? id = w.state? id := rfl

@[simp] theorem program?_note : (w.note e).program? id = w.program? id := rfl

@[simp] theorem journal_note : (w.note e).journal = e :: w.journal := rfl

end Frame

/-! ### Frames -/

section Frames

variable (w : World) (id : BehaviourId) (address : UInt32) (frame : Frame) (r : MachineRef)

@[simp] theorem options_setState (s : BehaviourState) : (w.setState id s).options = w.options := rfl

@[simp] theorem functions_setState (s : BehaviourState) :
    (w.setState id s).functions = w.functions := rfl

@[simp] theorem current_setState (s : BehaviourState) : (w.setState id s).current = w.current := rfl

@[simp] theorem nesting_setState (s : BehaviourState) : (w.setState id s).nesting = w.nesting := rfl

@[simp] theorem journal_setState (s : BehaviourState) : (w.setState id s).journal = w.journal := rfl

@[simp] theorem options_enter : (w.enter id address).options = w.options := rfl

@[simp] theorem functions_enter : (w.enter id address).functions = w.functions := rfl

@[simp] theorem current_enter : (w.enter id address).current = some id := rfl

@[simp] theorem nesting_enter : (w.enter id address).nesting = w.nesting + 1 := rfl

@[simp] theorem journal_enter :
    (w.enter id address).journal = .entered id address (w.nesting + 1) :: w.journal := rfl

theorem machine?_enter : (w.enter id address).machine? r =
    if r = .behaviour id then (w.machine? r).map fun m => { m with pc := address }
    else w.machine? r := by
  unfold enter
  rw [machine?_setState, machine?_mapMachine, machine?_note]
  rfl

theorem machine_enter_of_ne {w : World} {id : BehaviourId} {r : MachineRef} (address : UInt32)
    (h : r ≠ .behaviour id) : (w.enter id address).machine r = w.machine r := by
  rw [machine_eq, machine_eq, machine?_enter, if_neg h, options_enter]

theorem state?_enter (id' : BehaviourId) : (w.enter id address).state? id' =
    if id' = id then (w.state? id').map fun _ => .executing else w.state? id' := by
  unfold enter
  rw [state?_setState, state?_mapMachine, state?_note]
  rfl

@[simp]
theorem program?_enter (id' : BehaviourId) :
    (w.enter id address).program? id' = w.program? id' := by
  unfold enter
  rw [program?_setState, program?_mapMachine, program?_note]
  rfl

@[simp] theorem options_leave : (w.leave id frame).options = w.options := rfl

@[simp] theorem functions_leave : (w.leave id frame).functions = w.functions := rfl

@[simp] theorem current_leave : (w.leave id frame).current = frame.current := rfl

@[simp] theorem nesting_leave : (w.leave id frame).nesting = w.nesting - 1 := rfl

@[simp] theorem journal_leave : (w.leave id frame).journal = w.journal := rfl

/-- A machine when a frame is closed. -/
def Frame.close (frame : Frame) (m : Machine) : Machine :=
  { m with pc := frame.pc, stack := m.stack.truncate frame.depth }

/-- A behaviour when a frame is closed. -/
def Frame.leave (frame : Frame) (b : Behaviour) : Behaviour :=
  if b.state = .executing then { b with state := frame.state } else b

theorem Frame.leave_id (b : Behaviour) : (frame.leave b).id = b.id := by
  unfold Frame.leave
  split <;> rfl

theorem Frame.leave_machine (b : Behaviour) : (frame.leave b).machine = b.machine := by
  unfold Frame.leave
  split <;> rfl

theorem Frame.leave_program (b : Behaviour) : (frame.leave b).program = b.program := by
  unfold Frame.leave
  split <;> rfl

theorem Frame.leave_state (b : Behaviour) :
    (frame.leave b).state = if b.state = .executing then frame.state else b.state := by
  unfold Frame.leave
  split <;> rfl

theorem behaviour?_leave (id' : BehaviourId) : (w.leave id frame).behaviour? id' =
    if id' = id then (w.behaviour? id').map fun b => frame.leave (b.mapMachine frame.close)
    else w.behaviour? id' := by
  change ((w.mapMachine frame.close (.behaviour id)).mapBehaviour id frame.leave).behaviour? id' = _
  rw [behaviour?_mapBehaviour frame.leave (Frame.leave_id frame), behaviour?_mapMachine]
  by_cases h : id' = id
  · subst h
    cases w.behaviour? id' <;> simp
  · have h' : MachineRef.behaviour id ≠ .behaviour id' := by
      intro he
      cases he
      exact h rfl
    rw [if_neg h, if_neg h, if_neg h']

theorem machine?_leave : (w.leave id frame).machine? r =
    if r = .behaviour id then (w.machine? r).map frame.close else w.machine? r := by
  cases r with
  | bench => rfl
  | behaviour id' =>
    simp only [machine?, behaviour?_leave, MachineRef.behaviour.injEq]
    split
    · cases w.behaviour? id' with
      | none => rfl
      | some b => simp only [Option.map_some, Option.bind_some, Frame.leave_machine]; rfl
    · rfl

theorem machine_leave_of_ne {w : World} {id : BehaviourId} {r : MachineRef} (frame : Frame)
    (h : r ≠ .behaviour id) : (w.leave id frame).machine r = w.machine r := by
  rw [machine_eq, machine_eq, machine?_leave, if_neg h, options_leave]

theorem program?_leave (id' : BehaviourId) : (w.leave id frame).program? id' = w.program? id' := by
  simp only [program?, behaviour?_leave]
  split
  · cases w.behaviour? id' with
    | none => rfl
    | some b => simp only [Option.map_some, Option.bind_some, Frame.leave_program]; rfl
  · rfl

theorem state?_leave (id' : BehaviourId) : (w.leave id frame).state? id' =
    if id' = id then (w.state? id').map fun s => if s = .executing then frame.state else s
    else w.state? id' := by
  simp only [state?, behaviour?_leave]
  split
  · cases w.behaviour? id' with
    | none => rfl
    | some b => simp only [Option.map_some, Frame.leave_state]; rfl
  · rfl

end Frames

theorem machine?_fault (w : World) (id : BehaviourId) (r : MachineRef) : (w.fault id).machine? r =
    if r = .behaviour id then (w.machine? r).map fun m => { m with faulted := true }
    else w.machine? r := by
  unfold fault refuseRuns
  rw [machine?_setState, machine?_mapMachine]

/-! ### Behaviours that come and go -/

section Hosting

variable (w : World) (id : BehaviourId) (r : MachineRef)

theorem behaviour?_addBehaviour (host : HostObjects) (p : Option Program) :
    (w.addBehaviour host p).behaviour? id =
      (w.behaviour? id).or (if id = ⟨w.nextId⟩ then some (.new id host p) else none) := by
  unfold addBehaviour behaviour?
  rw [List.find?_append, List.find?_cons]
  by_cases h : id = ⟨w.nextId⟩
  · subst h
    simp [Behaviour.new]
  · have hne : ((Behaviour.new ⟨w.nextId⟩ host p).id == id) = false := by
      simpa using fun he => h he.symm
    rw [hne, if_neg h]
    rfl

theorem machine?_addBehaviour (host : HostObjects) (p : Option Program) :
    (w.addBehaviour host p).machine? r = w.machine? r := by
  cases r with
  | bench => rfl
  | behaviour id =>
    simp only [machine?, behaviour?_addBehaviour]
    cases w.behaviour? id with
    | some b => rfl
    | none =>
      simp only [Option.none_or, Option.bind_none]
      split <;> rfl

theorem behaviour?_dropBehaviour (id' : BehaviourId) :
    (w.dropBehaviour id).behaviour? id' = if id' = id then none else w.behaviour? id' := by
  unfold dropBehaviour behaviour?
  rw [List.find?_filter]
  split
  · next h =>
    subst h
    simp
  · next h =>
    congr 1
    funext b
    by_cases hb : b.id = id'
    · simp [hb, h]
    · simp [hb]

theorem machine?_dropBehaviour : (w.dropBehaviour id).machine? r =
    if r = .behaviour id then none else w.machine? r := by
  cases r with
  | bench => rfl
  | behaviour id' =>
    simp only [machine?, behaviour?_dropBehaviour, MachineRef.behaviour.injEq]
    split <;> rfl

theorem machine?_disable : (w.disable id).machine? r =
    if r = .behaviour id then none else w.machine? r := by
  cases r with
  | bench => rfl
  | behaviour id' =>
    unfold disable
    simp only [machine?, MachineRef.behaviour.injEq]
    rw [behaviour?_mapBehaviour (fun b => { b with state := .disabled, machine := none })
      fun _ => rfl]
    split
    · cases w.behaviour? id' <;> rfl
    · rfl

theorem behaviour?_shutDown :
    w.shutDown.behaviour? id = (w.behaviour? id).map fun b => { b with registered := false } := by
  change (w.behaviours.map fun b => { b with registered := false }).find?
    (fun b => b.id == id) = _
  rw [List.find?_map]
  rfl

theorem machine?_shutDown : w.shutDown.machine? r = w.machine? r := by
  cases r with
  | bench => rfl
  | behaviour id =>
    simp only [machine?, behaviour?_shutDown]
    cases w.behaviour? id <;> rfl

end Hosting

/-! ### A world with one behaviour -/

/-- A world of default options in which behaviour 1 is ready to run on the given machine. -/
def solo (m : Machine) : World :=
  { new .default with
    behaviours :=
      [{ Behaviour.new ⟨1⟩ (.of 1 2) m.program with machine := some m, state := .ready }]
    nextId := 2 }

/-- A machine that has loaded a program, with addresses on its stack. -/
def soloMachine (p : Program) (stack : List UInt32) : Machine :=
  { Machine.new .default with
    program := some p
    heap := p.heap
    stack := .ofList stack Options.default.maxStackDepth }

end World

end EventVm
