import EventVm.Proofs.Machine.Loaded
import EventVm.Proofs.World.Moments
import EventVm.Proofs.World.Setting

/-!
# What a deed does

What a deed does to a machine (`Alters`), to the state of a behaviour (`Turns`) and to the runs in
progress (`Stacks`), as tables that say everything that can have happened. Later proofs about
accounts split on these tables.
-/

namespace EventVm

/-! ### What deeds are about -/

namespace Deed

/-- The machine that a deed changes, if it changes one. -/
def machine : Deed → Option MachineRef
  | noted _ | arranged | created _ => none
  | dropped id | activated id _ | disabled id | aborted id | assigned id _ _ | entered id _
  | refused id _ | left id _ _ _ => some (.behaviour id)
  | poked r | put r _ _ | loaded r _ _ | opened r | stopped r _ | started r => some r
  | begun i => some i.machine

/-- The behaviour whose state a deed sets, if it sets one. -/
def behaviour : Deed → Option BehaviourId
  | created id | dropped id | activated id _ | disabled id | entered id _ | refused id _
  | left id _ _ _ => some id
  | noted _ | arranged | aborted _ | assigned .. | poked _ | put .. | loaded .. | opened _
  | stopped .. | started _ | begun _ => none

/-- Whether a run begins or ends with a deed. -/
def isTurn : Deed → Bool
  | entered .. | left .. | opened _ | stopped .. => true
  | _ => false

/-- The machine whose run does a deed that only runs of a machine do, or a host between runs. -/
def doer : Deed → Option MachineRef
  | put r _ _ | loaded r _ _ | started r | stopped r _ => some r
  | begun i => some i.machine
  | left id _ _ _ => some (.behaviour id)
  | _ => none

end Deed

/-- The machine of a behaviour when a run has ended. -/
def Machine.leave (frame : World.Frame) (x : Except VmError Finish) (m : Machine) : Machine :=
  let m := frame.close (m.finish x)
  if x = .ok .reachedHalt then m else { m with faulted := true }

namespace Machine

variable (frame : World.Frame) (x : Except VmError Finish) (m : Machine)

theorem finish_eq : m.finish x =
    { m with
      halted := (m.finish x).halted
      faulted := (m.finish x).faulted
      abortRequested := (m.finish x).abortRequested } := by
  unfold finish
  split <;> rfl

@[simp] theorem program_finish : (m.finish x).program = m.program := by rw [finish_eq]

@[simp] theorem heap_finish : (m.finish x).heap = m.heap := by rw [finish_eq]

@[simp]
theorem program_leave : (m.leave frame x).program = m.program := by
  unfold leave
  split <;> exact program_finish x m

@[simp]
theorem heap_leave : (m.leave frame x).heap = m.heap := by
  unfold leave
  split <;> exact heap_finish x m

end Machine

/-- What a deed does to the machine `r`, which may not be there. -/
inductive Alters (k : Access) (o : Options) (r : MachineRef) :
    Deed → Option Machine → Option Machine → Prop where
  | kept {d : Deed} {m? : Option Machine} (other : d.machine ≠ some r) : Alters k o r d m? m?
  | absent {d : Deed} : Alters k o r d none none
  | aborted {id : BehaviourId} {m : Machine} (own : r = .behaviour id) :
    Alters k o r (.aborted id) (some m) (some { m with abortRequested := true })
  | poked {m m' : Machine} (direct : k.direct = true) (heap : m'.heap = m.heap)
    (program : m'.program = m.program) : Alters k o r (.poked r) (some m) (some m')
  | assigned {id : BehaviourId} {address : UInt32} {v : Value} {m : Machine} {heap : Heap}
    (own : r = .behaviour id) (written : m.heap.set address v = .ok heap) :
    Alters k o r (.assigned id address v) (some m) (some { m with heap })
  | put {address : UInt32} {v : Value} {m : Machine} {heap : Heap}
    (written : m.heap.set address v = .ok heap) :
    Alters k o r (.put r address v) (some m) (some { m with heap })
  | loaded {p : Program} {heap : Heap} {m m' : Machine} (direct : k.direct = true)
    (loaded : m.load o p heap = .ok m') : Alters k o r (.loaded r p heap) (some m) (some m')
  | started {m : Machine} (sound : m.faulted = false) :
    Alters k o r (.started r) (some m) (some { m with halted := false })
  | begun {i : Begun} {m m' : Machine} (own : i.machine = r) (runs : m.Runs)
    (frame : m' = { m with pc := m'.pc, stack := m'.stack, heap := m'.heap })
    (copied : m'.heap = m.heap ∨
      ∃ source destination, m.heap.copy source destination = .ok m'.heap) :
    Alters k o r (.begun i) (some m) (some m')
  | opened {m : Machine} : Alters k o r (.opened r) (some m) (some m)
  | stopped {x : Except VmError Finish} {m : Machine} (direct : k.direct = true)
    (ended : m.MayFinish k x) : Alters k o r (.stopped r x) (some m) (some (m.finish x))
  | entered {id : BehaviourId} {address : UInt32} {m : Machine} (own : r = .behaviour id) :
    Alters k o r (.entered id address) (some m) (some { m with pc := address })
  | refused {id : BehaviourId} {address : UInt32} {m : Machine} (own : r = .behaviour id) :
    Alters k o r (.refused id address) (some m) (some { m with faulted := true })
  | left {id : BehaviourId} {address : UInt32} {frame : World.Frame} {x : Except VmError Finish}
    {m : Machine} (own : r = .behaviour id) (ended : m.MayFinish k x) :
    Alters k o r (.left id address frame x) (some m) (some (m.leave frame x))
  /-- An activation that fails leaves the machine alone, which is not there. -/
  | unactivated {id : BehaviourId} {e : LoadError} {m? : Option Machine} (own : r = .behaviour id) :
    Alters k o r (.activated id (.error e)) m? m?
  | activated {id : BehaviourId} {m? : Option Machine} {b : Behaviour} {p : Program} {m : Machine}
    (own : r = .behaviour id) (program : b.program = some p)
    (built : World.buildMachine o b p (World.supplyAll b p).1 = .ok m) :
    Alters k o r (.activated id (.ok ())) m? (some m)
  | disabled {id : BehaviourId} {m? : Option Machine} (own : r = .behaviour id) :
    Alters k o r (.disabled id) m? none
  | dropped {id : BehaviourId} {m? : Option Machine} (own : r = .behaviour id) :
    Alters k o r (.dropped id) m? none

/-- What a deed does to the state of the behaviour `id`, which may not be there. -/
inductive Turns (id : BehaviourId) :
    Deed → Option BehaviourState → Option BehaviourState → Prop where
  | kept {d : Deed} {s? : Option BehaviourState} (other : d.behaviour ≠ some id) : Turns id d s? s?
  | absent {d : Deed} (other : ∀ id', d ≠ .created id') : Turns id d none none
  | created : Turns id (.created id) none (some .unloaded)
  | dropped {s? : Option BehaviourState} : Turns id (.dropped id) s? none
  | activated : Turns id (.activated id (.ok ())) (some .unloaded) (some .ready)
  | unactivated {e : LoadError} :
    Turns id (.activated id (.error e)) (some .unloaded) (some .disabled)
  | disabled {s : BehaviourState} : Turns id (.disabled id) (some s) (some .disabled)
  | entered {address : UInt32} {s : BehaviourState} (runnable : s.isRunnable = true) :
    Turns id (.entered id address) (some s) (some .executing)
  | refused {address : UInt32} {s : BehaviourState} (runnable : s.isRunnable = true) :
    Turns id (.refused id address) (some s) (some .faulted)
  | returned {address : UInt32} {frame : World.Frame} {s : BehaviourState} :
    Turns id (.left id address frame (.ok .reachedHalt)) (some s)
      (some (if s = .executing then frame.state else s))
  | faulted {address : UInt32} {frame : World.Frame} {x : Except VmError Finish}
    {s : BehaviourState} (failed : x ≠ .ok .reachedHalt) :
    Turns id (.left id address frame x) (some s) (some .faulted)

/-- What a deed that is done in the world `w` does to the runs in progress. -/
inductive Stacks (w : World) : Deed → List OpenRun → List OpenRun → Prop where
  | kept {d : Deed} {rs : List OpenRun} (other : d.isTurn = false) : Stacks w d rs rs
  | entered {id : BehaviourId} {address : UInt32} {b : Behaviour} {m : Machine}
    {rs : List OpenRun} (found : w.behaviour? id = some b) (machine : b.machine = some m)
    (runnable : b.state.isRunnable = true) :
    Stacks w (.entered id address) rs (.entry id address (w.frame b m) :: rs)
  | left {id : BehaviourId} {address : UInt32} {frame : World.Frame} {x : Except VmError Finish}
    {rs : List OpenRun} : Stacks w (.left id address frame x) (.entry id address frame :: rs) rs
  | opened {r : MachineRef} {rs : List OpenRun} : Stacks w (.opened r) rs (.direct r :: rs)
  | stopped {r : MachineRef} {x : Except VmError Finish} {rs : List OpenRun} :
    Stacks w (.stopped r x) (.direct r :: rs) rs

/-! ### Machines -/

theorem Machine.Effect.heap_eq_or_copy {operand : UInt32} {m m' : Machine} {op : Opcode}
    {x : Except VmError Unit} (h : Effect operand m op x m') :
    m'.heap = m.heap ∨ ∃ source destination, m.heap.copy source destination = .ok m'.heap := by
  cases h with
  | copy _ _ h => exact .inr ⟨_, _, h⟩
  | _ => exact .inl rfl

namespace World

variable {w w' : World} {b : Behaviour}

theorem machine?_conclude (w : World) (id : BehaviourId) (address : UInt32)
    (x : Except VmError Finish) (r : MachineRef) : (w.conclude id address x).2.machine? r =
      if r = .behaviour id ∧ x ≠ .ok .reachedHalt then
        (w.machine? r).map fun m => { m with faulted := true }
      else w.machine? r := by
  unfold conclude
  split
  · simp
  · simp [machine?_fault, World.log]
  · simp [machine?_fault]
  · simp [machine?_fault, World.log]

/-- Before the machine is built, loading a program leaves the machines alone. -/
theorem machine?_supply (w : World) (id : BehaviourId) (events : List LogEvent)
    (t : PublicVariables) (r : MachineRef) :
    ((events.foldl log w).mapBehaviour id fun b => { b with supplied := t }).machine? r =
      w.machine? r := by
  rw [machine?_mapBehaviour (fun b => { b with supplied := t }) (fun _ => rfl) (fun _ => rfl),
    foldl_log]
  cases r <;> rfl

theorem behaviour?_supply {b' : Behaviour} (events : List LogEvent) (t : PublicVariables)
    (h : w.behaviour? b.id = some b') :
    ((events.foldl log w).mapBehaviour b.id fun b => { b with supplied := t }).behaviour? b.id =
      some { b' with supplied := t } := by
  rw [behaviour?_mapBehaviour (fun b => { b with supplied := t }) fun _ => rfl, if_pos rfl,
    foldl_log]
  exact congrArg (Option.map _) h

/-- The machine that is built for a behaviour is not faulted. -/
theorem buildMachine_ok {o : Options} {p : Program} {heap : Heap} {m : Machine}
    (h : buildMachine o b p heap = .ok m) : m.program = some p ∧ m.faulted = false := by
  obtain ⟨heap', -, hload⟩ := bind_eq_ok.1 h
  obtain ⟨-, hprogram, -, hsound⟩ := Machine.load_ok (mapError_eq_ok.1 hload)
  exact ⟨hprogram, hsound⟩

/-- A behaviour with a newly built machine. -/
theorem machine?_built {b' : Behaviour} (h : w.behaviour? b.id = some b') (m : Machine)
    (events : EventTable) (r : MachineRef) :
    (w.mapBehaviour b.id fun b => { b with machine := some m, events }).machine? r =
      if r = .behaviour b.id then some m else w.machine? r := by
  cases r with
  | bench => rfl
  | behaviour id =>
    simp only [machine?, MachineRef.behaviour.injEq]
    rw [behaviour?_mapBehaviour (fun b => { b with machine := some m, events }) fun _ => rfl]
    split
    · next hid =>
      subst hid
      rw [h]
      rfl
    · rfl

theorem machine?_of_unactivated {e : LoadError} (h : w.beginActivation b = (.error e, w'))
    (r : MachineRef) : w'.machine? r = w.machine? r := by
  unfold beginActivation loadBehaviour at h
  cases hp : b.program with
  | none =>
    rw [hp] at h
    cases h
    simp [World.log]
  | some p =>
    rw [hp] at h
    dsimp only at h
    cases hm : buildMachine _ b p (supplyAll b p).1 with
    | ok m =>
      rw [hm] at h
      cases h
    | error e' =>
      rw [hm] at h
      cases h
      rw [World.log, machine?_note, machine?_setState, machine?_supply, machine?_setState]

theorem machine?_of_activated (hb : w.behaviour? b.id = some b)
    (h : w.beginActivation b = (.ok (), w')) : ∃ p m, b.program = some p ∧
      buildMachine w.options b p (supplyAll b p).1 = .ok m ∧
      ∀ r, w'.machine? r = if r = .behaviour b.id then some m else w.machine? r := by
  unfold beginActivation loadBehaviour at h
  cases hp : b.program with
  | none =>
    rw [hp] at h
    cases h
  | some p =>
    rw [hp] at h
    dsimp only at h
    cases hm : buildMachine _ b p (supplyAll b p).1 with
    | error e =>
      rw [hm] at h
      cases h
    | ok m =>
      rw [hm] at h
      cases h
      refine ⟨p, m, rfl, ?_, fun r => ?_⟩
      · rw [(Continues.supply (w.setState b.id .loading) b.id _ _).options] at hm
        exact hm
      · have hloading : (w.setState b.id .loading).behaviour? b.id =
            some { b with state := .loading } := by
          unfold setState
          rw [behaviour?_mapBehaviour (fun b => { b with state := .loading }) fun _ => rfl,
            if_pos rfl, hb, Option.map_some]
        rw [machine?_setState, machine?_built (behaviour?_supply _ _ hloading), machine?_supply,
          machine?_setState]

end World

section Machines

variable {k : Access} {o : Options} {w w' : World} {d : Deed} {r : MachineRef}

/-- A deed that changes one machine. -/
theorem alters_mapMachine {r' : MachineRef} {f : Machine → Machine} (hd : d.machine = some r')
    (h : ∀ m, w.machine? r' = some m → Alters k o r' d (some m) (some (f m))) (r : MachineRef) :
    Alters k o r d (w.machine? r) ((w.mapMachine f r').machine? r) := by
  by_cases hr : r = r'
  · subst hr
    rw [World.machine?_mapMachine_self]
    cases hm : w.machine? r with
    | none => exact .absent
    | some m => exact h m hm
  · rw [World.machine?_mapMachine_of_ne w f hr]
    refine .kept fun he => hr ?_
    rw [hd] at he
    cases he
    rfl

/-- A value that is put on the heap of a machine. -/
theorem alters_put {r' : MachineRef} {address : UInt32} {v : Value} {m : Machine}
    (written : (w.machine r').write address v = .ok m) (r : MachineRef) :
    Alters k o r (.put r' address v) (w.machine? r)
      ((w.mapMachine (fun _ => m) r').machine? r) := by
  refine alters_mapMachine rfl (fun m₀ hm₀ => ?_) r
  rw [World.machine_of_machine? hm₀] at written
  obtain ⟨heap, hset, hm'⟩ := bind_eq_ok.1 written
  cases hm'
  exact .put hset

/-- A program that is loaded into a machine. -/
theorem alters_load {r' : MachineRef} {p : Program} {heap : Heap} (direct : k.direct = true)
    (loaded : w.loadMachine r' p heap = .ok w') (r : MachineRef) :
    Alters k w.options r (.loaded r' p heap) (w.machine? r) (w'.machine? r) := by
  obtain ⟨m', hload, hw⟩ := bind_eq_ok.1 loaded
  cases hw
  refine alters_mapMachine rfl (fun m₀ hm₀ => ?_) r
  rw [World.machine_of_machine? hm₀] at hload
  exact .loaded direct hload

/-- An instruction that is carried out. -/
theorem alters_begin {i : Begun} (runs : (w.machine i.machine).Runs)
    (carried : World.Carried (w.begin i) i w') (r : MachineRef) :
    Alters k o r (.begun i) (w.machine? r) (w'.machine? r) := by
  rw [← World.machine?_note w r (.begun i)]
  have hruns : ∀ m, (w.note (.begun i)).machine? i.machine = some m → m.Runs := by
    intro m hm
    rw [World.machine?_note] at hm
    rwa [World.machine_of_machine? hm] at runs
  unfold World.begin at carried
  cases carried with
  | @alone x m' plain effect =>
    rw [World.mapMachine_mapMachine]
    refine alters_mapMachine rfl (fun m hm => ?_) r
    rw [World.machine_of_map (World.machine?_mapMachine_self ..) hm] at effect
    have hframe := effect.frame
    exact .begun rfl (hruns m hm) (by rw [hframe]) effect.heap_eq_or_copy
  | lost =>
    refine alters_mapMachine rfl (fun m hm => ?_) r
    exact .begun rfl (hruns m hm) rfl (.inl rfl)
  | called =>
    rw [World.mapMachine_mapMachine]
    refine alters_mapMachine rfl (fun m hm => ?_) r
    exact .begun rfl (hruns m hm) rfl (.inl rfl)

/-- What code does by itself to machines. -/
theorem alters_of_change {a : Option MachineRef} (h : w.Change k a d w') (r : MachineRef) :
    Alters k w.options r d (w.machine? r) (w'.machine? r) := by
  cases h with
  | noted =>
    rw [World.machine?_note]
    exact .kept nofun
  | supplied id t =>
    rw [World.machine?_mapBehaviour (fun b => { b with supplied := t }) (fun _ => rfl) fun _ => rfl]
    exact .kept nofun
  | hooked id hook =>
    rw [World.machine?_mapBehaviour (fun b => { b with hook }) (fun _ => rfl) fun _ => rfl]
    exact .kept nofun
  | hashed id =>
    rw [World.machine?_computeHash]
    exact .kept nofun
  | registered =>
    cases r <;> exact .kept nofun
  | shutDown =>
    rw [World.machine?_shutDown]
    exact .kept nofun
  | aborted id => exact alters_mapMachine rfl (fun m _ => .aborted rfl) r
  | poked r' direct heap program =>
    exact alters_mapMachine rfl (fun m _ => .poked direct (heap m) (program m)) r
  | @assigned id b name address v m m' found declared machine written =>
    refine alters_mapMachine rfl (fun m₀ hm₀ => ?_) r
    rw [World.machine?_of_behaviour? found machine] at hm₀
    cases hm₀
    obtain ⟨heap, hset, hm'⟩ := bind_eq_ok.1 written
    cases hm'
    exact .assigned rfl hset
  | put own written => exact alters_put written r
  | loaded direct own loaded => exact alters_load direct loaded r
  | started own sound =>
    refine alters_mapMachine rfl (fun m₀ hm₀ => ?_) r
    rw [World.machine_of_machine? hm₀] at sound
    exact .started sound
  | begun own runs due carried => exact alters_begin runs carried r

/-- A deed about one behaviour leaves the machines of the others alone. -/
theorem Alters.elsewhere {id : BehaviourId} {m? : Option Machine}
    (hd : d.machine = some (.behaviour id)) (hr : r ≠ .behaviour id) : Alters k o r d m? m? := by
  refine .kept fun he => hr ?_
  rw [hd] at he
  cases he
  rfl

/-- An activation, however it turns out. -/
theorem alters_activate {id : BehaviourId} {b : Behaviour} (found : w.behaviour? id = some b)
    (r : MachineRef) : Alters k w.options r (.activated id (w.beginActivation b).1) (w.machine? r)
      ((w.beginActivation b).2.machine? r) := by
  obtain rfl := World.id_of_behaviour? found
  cases hbegin : w.beginActivation b with
  | mk x w' =>
    cases x with
    | error e =>
      rw [World.machine?_of_unactivated hbegin]
      by_cases hr : r = .behaviour b.id
      · exact .unactivated hr
      · exact .elsewhere rfl hr
    | ok u =>
      obtain ⟨p, m, hp, hm, hr⟩ := World.machine?_of_activated found hbegin
      rw [hr]
      split
      · next hr => exact .activated hr hp hm
      · next hr => exact .elsewhere rfl hr

/-- A run of a behaviour that ends. -/
theorem alters_leave {id : BehaviourId} {x : Except VmError Finish}
    (ended : (w.machine (.behaviour id)).MayFinish k x) (address : UInt32) (frame : World.Frame)
    (r : MachineRef) : Alters k o r (.left id address frame x) (w.machine? r)
      ((((w.mapMachine (Machine.finish x) (.behaviour id)).leave id frame).conclude id address
        x).2.machine? r) := by
  rw [World.machine?_conclude, World.machine?_leave, World.machine?_mapMachine]
  by_cases hr : r = .behaviour id
  · subst hr
    cases hm : w.machine? (.behaviour id) with
    | none => simpa using .absent
    | some m =>
      rw [World.machine_of_machine? hm] at ended
      have h := @Alters.left k o _ id address frame x m rfl ended
      unfold Machine.leave at h
      by_cases hx : x = .ok .reachedHalt <;> simpa [hx] using h
  · simpa [hr] using .elsewhere rfl hr

/-- What a deed does to machines. -/
theorem Moment.Step.alters {c c' : Moment} (h : Step k c d c') (r : MachineRef) :
    Alters k c.world.options r d (c.world.machine? r) (c'.world.machine? r) := by
  cases h with
  | change change => exact alters_of_change change r
  | created =>
    rw [World.machine?_addBehaviour]
    exact .kept nofun
  | dropped id =>
    rw [World.machine?_dropBehaviour]
    split
    · next hr => exact .dropped hr
    · next hr => exact .elsewhere rfl hr
  | connected => cases r <;> exact .kept nofun
  | put direct written => exact alters_put written r
  | loaded direct loaded => exact alters_load direct loaded r
  | activated found => exact alters_activate found r
  | disabled closed =>
    rw [World.machine?_disable]
    split
    · next hr => exact .disabled hr
    · next hr => exact .elsewhere rfl hr
  | entered address found machine =>
    rw [World.machine?_enter]
    split
    · next hr =>
      subst hr
      rw [World.machine?_of_behaviour? found machine]
      exact .entered rfl
    · next hr => exact .elsewhere rfl hr
  | refused address found machine =>
    rw [World.machine?_conclude]
    split
    · next hr =>
      obtain ⟨rfl, -⟩ := hr
      rw [World.machine?_of_behaviour? found machine]
      exact .refused rfl
    · next hr => exact .elsewhere rfl fun he => hr ⟨he, nofun⟩
  | left ended => exact alters_leave ended _ _ r
  | @opened w rs r' m direct found =>
    by_cases hr : r = r'
    · subst hr
      rw [found]
      exact .opened
    · exact .kept fun he => hr (by cases he; rfl)
  | @stopped w rs r' x direct ended =>
    refine alters_mapMachine rfl (fun m hm => ?_) r
    rw [World.machine_of_machine? hm] at ended
    exact .stopped direct ended

end Machines

/-- A machine that has a program goes on having one. -/
theorem Alters.program {k : Access} {o : Options} {r : MachineRef} {d : Deed} {m m' : Machine}
    (h : Alters k o r d (some m) (some m')) (hm : m.program ≠ none) : m'.program ≠ none := by
  cases h with
  | poked direct heap program => rwa [program]
  | loaded direct loaded =>
    rw [(Machine.load_ok loaded).2.1]
    nofun
  | begun own runs frame => rwa [frame]
  | stopped => rwa [Machine.program_finish]
  | left => rwa [Machine.program_leave]
  | activated own program built =>
    rw [(World.buildMachine_ok built).1]
    nofun
  | _ => exact hm

/-! ### States -/

/-- A behaviour that is there after a deed was there before, unless it has been created. -/
theorem Turns.found {id : BehaviourId} {d : Deed} {s? : Option BehaviourState} {s' : BehaviourState}
    (h : Turns id d s? (some s')) : d = .created id ∨ ∃ s, s? = some s := by
  cases h with
  | created => exact .inl rfl
  | _ => exact .inr ⟨_, rfl⟩

namespace World

theorem state?_of_machine? {w : World} {id : BehaviourId} {m : Machine}
    (h : w.machine? (.behaviour id) = some m) : ∃ s, w.state? id = some s := by
  obtain ⟨b, hb, -⟩ := Option.bind_eq_some_iff.1 h
  exact ⟨b.state, state?_of_behaviour? hb⟩

theorem state?_addBehaviour_eq (w : World) (host : HostObjects) (p : Option Program)
    (id : BehaviourId) : (w.addBehaviour host p).state? id =
      (w.state? id).or (if id = ⟨w.nextId⟩ then some .unloaded else none) := by
  simp only [state?, behaviour?_addBehaviour]
  cases w.behaviour? id with
  | some b => rfl
  | none =>
    simp only [Option.none_or, Option.map_none]
    split <;> rfl

theorem state?_dropBehaviour (w : World) (id id' : BehaviourId) :
    (w.dropBehaviour id).state? id' = if id' = id then none else w.state? id' := by
  simp only [state?, behaviour?_dropBehaviour]
  split <;> rfl

theorem state?_disable (w : World) (id id' : BehaviourId) : (w.disable id).state? id' =
    if id' = id then (w.state? id').map fun _ => .disabled else w.state? id' := by
  unfold state? disable
  rw [behaviour?_mapBehaviour (fun b => { b with state := .disabled, machine := none })
    fun _ => rfl]
  split
  · cases w.behaviour? id' <;> rfl
  · rfl

end World

section States

variable {k : Access} {w w' : World} {d : Deed}

/-- Code by itself sets no states. -/
theorem World.Change.behaviour_eq {a : Option MachineRef} (h : w.Change k a d w') :
    d.behaviour = none := by
  cases h <;> rfl

/-- A deed about one behaviour leaves the states of the others alone. -/
theorem Turns.elsewhere {id id' : BehaviourId} {s? : Option BehaviourState}
    (hd : d.behaviour = some id') (hid : id ≠ id') : Turns id d s? s? := by
  refine .kept fun he => hid ?_
  rw [hd] at he
  cases he
  rfl

/-- A deed that sets no state at all. -/
theorem Turns.of_none {id : BehaviourId} {s? : Option BehaviourState} (hd : d.behaviour = none) :
    Turns id d s? s? := by
  refine .kept fun he => ?_
  rw [hd] at he
  cases he

/-- An activation, however it turns out. -/
theorem turns_activate {id' : BehaviourId} {b : Behaviour} (found : w.behaviour? id' = some b)
    (unloaded : b.state = .unloaded) (id : BehaviourId) :
    Turns id (.activated id' (w.beginActivation b).1) (w.state? id)
      ((w.beginActivation b).2.state? id) := by
  obtain rfl := World.id_of_behaviour? found
  rw [World.state?_beginActivation]
  split
  · next hid =>
    subst hid
    rw [World.state?_of_behaviour? found, unloaded, Option.map_some]
    split
    · next e he =>
      rw [he]
      exact .unactivated
    · next he =>
      rw [he]
      exact .activated
  · next hid => exact .elsewhere rfl hid

/-- A run that ends. -/
theorem turns_leave (id' : BehaviourId) (address : UInt32) (frame : World.Frame)
    (x : Except VmError Finish) (id : BehaviourId) :
    Turns id (.left id' address frame x) (w.state? id)
      ((((w.mapMachine (Machine.finish x) (.behaviour id')).leave id' frame).conclude id' address
        x).2.state? id) := by
  rw [World.state?_conclude, World.state?_leave, World.state?_mapMachine]
  by_cases hid : id = id'
  · subst hid
    cases w.state? id with
    | none => simpa using .absent (by simp)
    | some s =>
      by_cases hx : x = .ok .reachedHalt
      · subst hx
        simpa using .returned
      · simpa [hx] using .faulted hx
  · simpa [hid] using .elsewhere rfl hid

/-- What a deed does to states. -/
theorem Moment.Step.turns {c c' : Moment} (h : Step k c d c') (id : BehaviourId) :
    Turns id d (c.world.state? id) (c'.world.state? id) := by
  cases h with
  | change change =>
    rw [change.sameStates.state?_eq]
    exact .of_none change.behaviour_eq
  | @created w host p fresh =>
    rw [World.state?_addBehaviour_eq]
    by_cases hid : id = ⟨w.nextId⟩
    · subst hid
      rw [World.state?, fresh, if_pos rfl]
      exact .created
    · rw [if_neg hid, Option.or_none]
      exact .elsewhere rfl hid
  | dropped id' =>
    rw [World.state?_dropBehaviour]
    split
    · next hid =>
      subst hid
      exact .dropped
    · next hid => exact .elsewhere rfl hid
  | connected => exact .of_none rfl
  | put =>
    rw [World.state?_mapMachine]
    exact .of_none rfl
  | loaded direct loaded =>
    rw [(World.SameStates.loadMachine loaded).state?_eq]
    exact .of_none rfl
  | activated found unloaded => exact turns_activate found unloaded id
  | @disabled w rs id' closed =>
    rw [World.state?_disable]
    split
    · next hid =>
      subst hid
      cases w.state? id with
      | none => exact .absent (by simp)
      | some s => exact .disabled
    · next hid => exact .elsewhere rfl hid
  | entered address found machine runnable =>
    rw [World.state?_enter]
    split
    · next hid =>
      subst hid
      rw [World.state?_of_behaviour? found]
      exact .entered runnable
    · next hid => exact .elsewhere rfl hid
  | refused address found machine runnable =>
    rw [World.state?_conclude]
    split
    · next hid =>
      obtain ⟨rfl, -⟩ := hid
      rw [World.state?_of_behaviour? found]
      exact .refused runnable
    · next hid => exact .elsewhere rfl fun he => hid ⟨he, by simp⟩
  | left => exact turns_leave _ _ _ _ id
  | opened => exact .of_none rfl
  | stopped =>
    rw [World.state?_mapMachine]
    exact .of_none rfl

end States

/-! ### Runs in progress -/

section Runs

variable {k : Access} {w w' : World} {c c' : Moment} {d : Deed} {r : MachineRef}

/-- Code by itself neither begins runs nor ends them. -/
theorem World.Change.isTurn {a : Option MachineRef} (h : w.Change k a d w') : d.isTurn = false := by
  cases h <;> rfl

/-- What a deed does to the runs in progress. -/
theorem Moment.Step.stacks (h : Step k c d c') : Stacks c.world d c.runs c'.runs := by
  cases h with
  | change change => exact .kept change.isTurn
  | entered address found machine runnable => exact .entered found machine runnable
  | left => exact .left
  | opened => exact .opened
  | stopped => exact .stopped
  | _ => exact .kept rfl

/-- What only runs of a machine do is done by the innermost run, or between runs. -/
theorem Moment.Step.doer (h : Step k c d c') (hd : d.doer = some r) :
    c.runs = [] ∨ OpenRun.actor c.runs = some r := by
  cases h with
  | change change =>
    cases change with
    | put own | loaded _ own | started own | begun own =>
      cases hd
      exact .inr own
    | _ => cases hd
  | put | loaded => exact .inl rfl
  | left | stopped =>
    cases hd
    exact .inr rfl
  | _ => cases hd

end Runs

end EventVm
