import EventVm.Proofs.World.FunctionCalls

/-!
# Worlds that differ in one behaviour

`w.graft id s older` is the world `w` with another behaviour `id` and older entries behind its
journal. Whatever does not look at the behaviour does in the one world what it does in the other
(`Run.Follows`); the rules here say so of the parts of a run of another behaviour.

`Touches id w w'` says that on the way from `w` to `w'` nothing has changed but the behaviour `id`
and the journal, which has grown.
-/

namespace EventVm

/-- A change of a behaviour that leaves alone who it is and whether the world finds it. -/
structure Reshaping where
  change : Behaviour → Behaviour
  id_change : ∀ b, (change b).id = b.id
  registered_change : ∀ b, (change b).registered = b.registered

namespace Reshaping

/-- No change. -/
def none : Reshaping :=
  ⟨fun b => b, fun _ => rfl, fun _ => rfl⟩

/-- A change after another one. -/
def comp (t s : Reshaping) : Reshaping where
  change b := t.change (s.change b)
  id_change b := (t.id_change _).trans (s.id_change b)
  registered_change b := (t.registered_change _).trans (s.registered_change b)

/-- A change of the machine. -/
def machine (f : Machine → Machine) : Reshaping :=
  ⟨(·.mapMachine f), fun _ => rfl, fun _ => rfl⟩

/-- A change of the state. -/
def state (f : Behaviour → BehaviourState) : Reshaping :=
  ⟨fun b => { b with state := f b }, fun _ => rfl, fun _ => rfl⟩

/-- What the end of a run makes of the state. -/
def leave (frame : World.Frame) : Reshaping where
  change := frame.leave
  id_change := World.Frame.leave_id frame
  registered_change b := by
    unfold World.Frame.leave
    split <;> rfl

end Reshaping

namespace World

/-! ### Changes of behaviours -/

theorem mapBehaviour_none (w : World) (id : BehaviourId) :
    w.mapBehaviour id Reshaping.none.change = w := by
  simp [mapBehaviour, Reshaping.none]

theorem mapBehaviour_comp (w : World) (id : BehaviourId) (t s : Reshaping) :
    w.mapBehaviour id (t.comp s).change =
      (w.mapBehaviour id s.change).mapBehaviour id t.change := by
  simp only [mapBehaviour, List.map_map]
  congr 2
  funext b
  by_cases hb : b.id = id
  · simp [hb, s.id_change, Reshaping.comp]
  · simp [hb]

/-- Changes of two behaviours can be made in either order. -/
theorem mapBehaviour_comm (w : World) {id id' : BehaviourId} (hne : id' ≠ id) (s t : Reshaping) :
    (w.mapBehaviour id s.change).mapBehaviour id' t.change =
      (w.mapBehaviour id' t.change).mapBehaviour id s.change := by
  simp only [mapBehaviour, List.map_map]
  congr 2
  funext b
  by_cases hb : b.id = id
  · simp [hb, s.id_change, hne.symm]
  · by_cases hb' : b.id = id'
    · simp [hb', t.id_change, hne]
    · simp [hb, hb']

/-! ### Touched worlds -/

/-- Nothing but the behaviour `id` and the journal has changed. -/
def Touches (id : BehaviourId) (w w' : World) : Prop :=
  ∃ (s : Reshaping) (new : List Entry),
    w' = { w.mapBehaviour id s.change with journal := new ++ w.journal }

namespace Touches

variable {id : BehaviourId} {u v w : World}

theorem refl (id : BehaviourId) (w : World) : Touches id w w :=
  ⟨.none, [], by rw [mapBehaviour_none]; rfl⟩

theorem trans (huv : Touches id u v) (hvw : Touches id v w) : Touches id u w := by
  obtain ⟨s, new, rfl⟩ := huv
  obtain ⟨t, newer, rfl⟩ := hvw
  refine ⟨t.comp s, newer ++ new, ?_⟩
  rw [mapBehaviour_comp, List.append_assoc]
  rfl

theorem note (w : World) (e : Entry) : Touches id w (w.note e) :=
  ⟨.none, [e], by rw [mapBehaviour_none]; rfl⟩

theorem mapBehaviour (w : World) (s : Reshaping) : Touches id w (w.mapBehaviour id s.change) :=
  ⟨s, [], rfl⟩

theorem mapMachine (w : World) (f : Machine → Machine) :
    Touches id w (w.mapMachine f (.behaviour id)) :=
  mapBehaviour w (.machine f)

end Touches

theorem touches_conclude (w : World) (id : BehaviourId) (address : UInt32)
    (x : Except VmError Finish) : Touches id w (w.conclude id address x).2 := by
  have hfault : ∀ u : World, Touches id u (u.fault id) := fun u =>
    (Touches.mapMachine u fun m => { m with faulted := true }).trans
      (.mapBehaviour _ (.state fun _ => .faulted))
  unfold conclude
  split
  · exact .refl id w
  · exact (Touches.note ..).trans (hfault _)
  · exact hfault w
  · exact (Touches.note ..).trans (hfault _)

/-- A run that touches nothing but its behaviour inside its frame leaves all else as it was. -/
theorem touches_leave {w u : World} {id : BehaviourId} {address : UInt32} {frame : Frame}
    (h : Touches id (w.enter id address) u) (hframe : frame.current = w.current) :
    Touches id w (u.leave id frame) := by
  let inside : World := { w with nesting := w.nesting + 1, current := some id }
  have hinside : Touches id inside u :=
    (Touches.note inside (.entered id address inside.nesting)).trans
      ((Touches.mapMachine _ fun m => { m with pc := address }).trans
        ((Touches.mapBehaviour _ (.state fun _ => .executing)).trans h))
  have hclosed := hinside.trans (.mapMachine u frame.close)
  let outside (v : World) : World := { v with current := frame.current, nesting := v.nesting - 1 }
  have houtside : Touches id w (outside (u.mapMachine frame.close (.behaviour id))) := by
    obtain ⟨s, new, hs⟩ := hclosed
    refine ⟨s, new, ?_⟩
    rw [hs]
    simp only [outside, hframe]
    rfl
  exact houtside.trans (.mapBehaviour _ (.leave frame))

/-! ### Grafts -/

/-- The world with another behaviour `id` and older entries behind its journal. -/
def graft (w : World) (id : BehaviourId) (s : Reshaping) (older : List Entry) : World :=
  { w.mapBehaviour id s.change with journal := w.journal ++ older }

section Graft

variable {w : World} {id id' : BehaviourId} {s : Reshaping} {older : List Entry} {r : MachineRef}

@[simp] theorem options_graft : (w.graft id s older).options = w.options := rfl

@[simp] theorem functions_graft : (w.graft id s older).functions = w.functions := rfl

@[simp] theorem current_graft : (w.graft id s older).current = w.current := rfl

@[simp] theorem nesting_graft : (w.graft id s older).nesting = w.nesting := rfl

theorem note_graft (e : Entry) : (w.graft id s older).note e = (w.note e).graft id s older := rfl

theorem behaviour?_graft :
    (w.graft id s older).behaviour? id' =
      if id' = id then (w.behaviour? id').map s.change else w.behaviour? id' :=
  behaviour?_mapBehaviour s.change s.id_change w id id'

theorem behaviour?_graft_of_ne (h : id' ≠ id) :
    (w.graft id s older).behaviour? id' = w.behaviour? id' := by
  rw [behaviour?_graft, if_neg h]

theorem machine_graft (h : r ≠ .behaviour id) : (w.graft id s older).machine r = w.machine r := by
  cases r with
  | bench => rfl
  | behaviour id' =>
    have hne : id' ≠ id := fun he => h (he ▸ rfl)
    simp only [machine, behaviour?_graft_of_ne hne, options_graft]

theorem mapBehaviour_graft (h : id' ≠ id) (t : Reshaping) :
    (w.graft id s older).mapBehaviour id' t.change =
      (w.mapBehaviour id' t.change).graft id s older := by
  have hcomm := congrArg behaviours (mapBehaviour_comm w h s t)
  simp only [mapBehaviour] at hcomm
  simp only [graft, mapBehaviour, hcomm]

/-- Older entries can be put behind a journal later. -/
theorem graft_none (older' : List Entry) :
    (w.graft id s older).graft id' .none older' = w.graft id s (older ++ older') := by
  rw [graft, mapBehaviour_none]
  simp only [graft, List.append_assoc]

theorem graft_silent (w : World) (id : BehaviourId) :
    ({ w with journal := [] } : World).graft id .none w.journal = w := by
  rw [graft, mapBehaviour_none]
  rfl

/-- Two behaviours can be changed in either order, but for the journal. -/
theorem graft_comm (h : id' ≠ id) (t : Reshaping) (newer older' newer' : List Entry) :
    (w.graft id s newer).graft id' t older =
      { (w.graft id' t newer').graft id s older' with
        journal := w.journal ++ newer ++ older } := by
  have hcomm := congrArg behaviours (mapBehaviour_comm w h s t)
  simp only [mapBehaviour] at hcomm
  simp only [graft, mapBehaviour, hcomm]

theorem mapMachine_graft (h : r ≠ .behaviour id) (f : Machine → Machine) :
    (w.graft id s older).mapMachine f r = (w.mapMachine f r).graft id s older := by
  cases r with
  | bench => rfl
  | behaviour id' =>
    have hne : id' ≠ id := fun he => h (he ▸ rfl)
    exact mapBehaviour_graft hne (.machine f)

theorem boundary_graft (h : r ≠ .behaviour id) (code : Bytes) :
    (w.graft id s older).boundary r code = w.boundary r code := by
  simp only [boundary, machine_graft h, current_graft, nesting_graft]

/-! ### Frames -/

variable {address : UInt32}

theorem setState_graft (h : id' ≠ id) (t : BehaviourState) :
    (w.graft id s older).setState id' t = (w.setState id' t).graft id s older :=
  mapBehaviour_graft h (.state fun _ => t)

theorem enter_graft (h : id' ≠ id) :
    (w.graft id s older).enter id' address = (w.enter id' address).graft id s older := by
  have hr : MachineRef.behaviour id' ≠ .behaviour id := fun he => h (MachineRef.behaviour.inj he)
  let u : World := { w with nesting := w.nesting + 1, current := some id' }
  let m : World := (u.note (.entered id' address u.nesting)).graft id s older
  change (m.mapMachine _ _).setState id' .executing = _
  rw [mapMachine_graft hr, setState_graft h]
  rfl

theorem leave_graft (h : id' ≠ id) (frame : Frame) :
    (w.graft id s older).leave id' frame = (w.leave id' frame).graft id s older := by
  have hr : MachineRef.behaviour id' ≠ .behaviour id := fun he => h (MachineRef.behaviour.inj he)
  let inside (u : World) : World :=
    { u with current := frame.current, nesting := u.nesting - 1 }
  change (inside ((w.graft id s older).mapMachine frame.close _)).mapBehaviour id'
    (Reshaping.leave frame).change = _
  rw [mapMachine_graft hr]
  exact mapBehaviour_graft (w := inside (w.mapMachine frame.close _)) h (.leave frame)

theorem fault_graft (h : id' ≠ id) :
    (w.graft id s older).fault id' = (w.fault id').graft id s older := by
  have hr : MachineRef.behaviour id' ≠ .behaviour id := fun he => h (MachineRef.behaviour.inj he)
  rw [fault, refuseRuns, mapMachine_graft hr, setState_graft h]
  rfl

theorem conclude_graft (h : id' ≠ id) (x : Except VmError Finish) :
    (w.graft id s older).conclude id' address x =
      ((w.conclude id' address x).1, (w.conclude id' address x).2.graft id s older) := by
  unfold conclude
  split
  · rfl
  · rw [log, note_graft, fault_graft h]
    rfl
  · rw [fault_graft h]
  · rw [log, note_graft, fault_graft h]
    rfl

theorem begins_graft (h : id' ≠ id) : (w.graft id s older).begins id' = w.begins id' := by
  rw [begins, behaviour?_graft_of_ne h]
  rfl

end Graft

end World

/-! ### Computations that do the same -/

namespace Run

variable {α β : Type} {g : World → World} {w : World}

/-- The computation does in the world `g w` what it does in `w`. -/
def Follows (c : Run α) (g : World → World) (w : World) : Prop :=
  c (g w) = match c w with
    | .ok a w' => .ok a (g w')
    | .error x w' => .error x (g w')

theorem Follows.of_ok {c : Run α} {a : α} {w' : World} (h : c.Follows g w) (hc : c w = .ok a w') :
    c (g w) = .ok a (g w') := by
  rw [h, hc]

/-- Where the computation ends in the one world, it ends in the other. -/
theorem Follows.ok_iff {c : Run α} {a : α} {v : World} (h : c.Follows g w) :
    c (g w) = .ok a v ↔ ∃ w', c w = .ok a w' ∧ v = g w' := by
  rw [h]
  cases c w with
  | ok b w' => simp only [EStateM.Result.ok.injEq]; grind
  | error x w' => simp

theorem follows_map {c : Run α} (f : α → β) (h : c.Follows g w) : (f <$> c).Follows g w := by
  simp only [Follows, Functor.map, EStateM.map]
  rw [h]
  cases c w <;> rfl

end Run

namespace Invocation

variable {α : Type} {w : World} {call : Invocation} {index : Nat}

/-- A call that asks goes on with the answer or ends with the failure. -/
theorem run_ask_bind (question : World → Except HostError α) (f : α → HostCall Unit) (w : World) :
    (ask question >>= f).run w = match question w with
      | .ok a => (f a).run w
      | .error e => .ok (.error e) w := by
  have hask : (ask question).run.Ends w (fun x w' => x = question w ∧ w' = w) fun _ => False :=
    HostCall.ends_ask.2 ⟨rfl, rfl⟩
  obtain ⟨x, w', hrun, rfl, rfl⟩ := hask.exists_ok
  rw [ExceptT.run_bind, Run.bind_apply, hrun]
  cases question w' <;> rfl

theorem follows_ask_bind {g : World → World} {question : World → Except HostError α}
    {f : α → HostCall Unit} (same : question (g w) = question w)
    (rest : ∀ a, question w = .ok a → (f a).run.Follows g w) :
    (ask question >>= f).run.Follows g w := by
  unfold Run.Follows
  rw [run_ask_bind, run_ask_bind, same]
  cases h : question w with
  | error e => rfl
  | ok a => exact rest a h

theorem follows_world_bind {g : World → World} {f : World → HostCall Unit} (same : f (g w) = f w)
    (rest : (f w).run.Follows g w) : (liftM Run.world >>= f : HostCall Unit).run.Follows g w := by
  change (f (g w)).run (g w) = _
  rw [same]
  exact rest

section Graft

variable {id : BehaviourId} {s : Reshaping} {older : List Entry}
  (hr : call.machine ≠ .behaviour id)

include hr

theorem value?_graft : call.value? (w.graft id s older) index = call.value? w index := by
  simp only [value?, World.machine_graft hr]

theorem valueAs?_graft {expected : TypeTag} {part? : Value → Option α} :
    call.valueAs? (w.graft id s older) expected part? index =
      call.valueAs? w expected part? index := by
  simp only [valueAs?, value?_graft hr]

/-- Whether the world finds a behaviour does not depend on the graft. -/
theorem behaviour?_graft :
    call.behaviour? (w.graft id s older) index = call.behaviour? w index := by
  have hlive : ∀ n, ((w.graft id s older).live? n).map Behaviour.id =
      (w.live? n).map Behaviour.id := by
    intro n
    simp only [World.live?, World.behaviour?_graft]
    split
    · cases w.behaviour? n with
      | none => rfl
      | some b => by_cases hb : b.registered = true <;>
          simp [Option.filter, s.registered_change, s.id_change, hb]
    · rfl
  simp only [behaviour?, value?_graft hr]
  congr 1
  funext v
  split
  · rfl
  · next n =>
    have h := hlive ⟨n.toNat⟩
    cases hw : w.live? ⟨n.toNat⟩ <;> cases hg : (w.graft id s older).live? ⟨n.toNat⟩ <;>
      simp_all
  · rfl

theorem write?_graft {v : Value} : call.write? (w.graft id s older) index v =
    (call.write? w index v).map (·.graft id s older) := by
  cases ha : call.address? index with
  | error e =>
    unfold write?
    rw [ha]
    rfl
  | ok address =>
    rw [write?_of_address ha, write?_of_address ha, World.machine_graft hr]
    simp only [World.mapMachine_graft hr]
    cases (w.machine call.machine).write address v <;> rfl

theorem follows_set {v : Value} : (call.set index v).run.Follows (·.graft id s older) w := by
  have hset : ∀ u : World, (call.set index v).run u = match call.write? u index v with
      | .ok u' => .ok (.ok ()) u'
      | .error e => .ok (.error e) u := by
    intro u
    refine (run_ask_bind (call.write? · index v) (fun u => (Run.put u : HostCall Unit)) u).trans ?_
    cases call.write? u index v <;> rfl
  unfold Run.Follows
  rw [hset, hset, write?_graft hr]
  cases call.write? w index v <;> rfl

end Graft

end Invocation

end EventVm
