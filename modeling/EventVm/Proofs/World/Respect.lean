import EventVm.Proofs.World.Deeds

/-!
# Relations that computations respect

`c.Respects R C` says of the computation `c`, whatever the world that it begins in: `R` holds
between this world and the one in which `c` ends with an answer, `C` between this world and the one
in which it runs out of fuel. `c.RespectsIf G R C` says so of the worlds that are in order.

Code by itself does deeds only; more happens in the runs at entry points and the activations that it
begins. A relation that deeds respect and that lasts through sequences (`Steady`) is therefore
respected by operations, host functions and machines as soon as those runs and activations respect
it. Relations that see nothing but the states of behaviours are of this kind (`Lasting`), for only
runs at entry points and activations change states.
-/

namespace EventVm

namespace World

/-! ### Changes that leave the states alone -/

/-- The behaviours of a world are in the states in which they were. -/
structure SameStates (w w' : World) : Prop where
  state?_eq : ∀ id, w'.state? id = w.state? id

namespace SameStates

variable {u v w w' : World}

theorem refl (w : World) : w.SameStates w :=
  ⟨fun _ => rfl⟩

theorem trans (h : u.SameStates v) (h' : v.SameStates w) : u.SameStates w :=
  ⟨fun id => (h'.state?_eq id).trans (h.state?_eq id)⟩

theorem note (w : World) (e : Entry) : w.SameStates (w.note e) :=
  ⟨state?_note w e⟩

theorem mapMachine (w : World) (f : Machine → Machine) (r : MachineRef) :
    w.SameStates (w.mapMachine f r) :=
  ⟨state?_mapMachine w f r⟩

theorem begin (w : World) (i : Begun) : w.SameStates (w.begin i) :=
  (note ..).trans (mapMachine ..)

theorem carried {i : Begun} (h : w.Carried i w') : w.SameStates w' := by
  cases h with
  | alone | called => exact mapMachine ..
  | lost => exact refl w

theorem mapBehaviour (w : World) (id : BehaviourId) {f : Behaviour → Behaviour}
    (hid : ∀ b, (f b).id = b.id) (hs : ∀ b, (f b).state = b.state) :
    w.SameStates (w.mapBehaviour id f) :=
  ⟨state?_mapBehaviour f hid hs w id⟩

theorem loadMachine {r : MachineRef} {p : Program} {heap : Heap}
    (h : w.loadMachine r p heap = .ok v) : w.SameStates v := by
  obtain ⟨m, -, hm⟩ := bind_eq_ok.1 h
  cases hm
  exact mapMachine ..

theorem shutDown (w : World) : w.SameStates w.shutDown := by
  refine ⟨fun id => ?_⟩
  change ((w.behaviours.map fun b => { b with registered := false }).find?
    (fun b => b.id == id)).map Behaviour.state = _
  rw [List.find?_map, Option.map_map]
  rfl

end SameStates

end World

/-! ### Computations that respect relations -/

/-- On every path, `R` holds between the world where a computation begins and the one where it ends,
and `C` if it ends out of fuel. -/
def Run.Respects (R C : World → World → Prop) (c : Run α) : Prop :=
  ∀ w, c.Ends w (fun _ => R w) (C w)

/-- The computation respects the relations if it begins in a world that is in order. -/
def Run.RespectsIf (G : World → Prop) (R C : World → World → Prop) (c : Run α) : Prop :=
  ∀ w, G w → c.Ends w (fun _ => R w) (C w)

/-- The runs and activations that running code begins respect the relations. -/
structure Reentry.Respects (R C : World → World → Prop) (runs : Reentry) : Prop where
  runAt : ∀ id address, (runs.runAt id address).Respects R C
  interpret : ∀ r, (runs.interpret r).Respects R C
  activate : ∀ id, (runs.activate id).Respects R C

/-- The runs and activations that running code may begin respect the relations, if they begin in a
world that is in order, and so do the events that it sends over the network. -/
structure Reentry.RespectsWithin (k : Access) (G : World → Prop) (R C : World → World → Prop)
    (runs : Reentry) : Prop where
  runAt : ∀ id address, (runs.runAt id address).RespectsIf G R C
  interpret : k.direct = true → ∀ id w m, G w → w.machine? (.behaviour id) = some m →
    (runs.interpret (.behaviour id)).Ends w (fun _ => R w) (C w)
  activate : ∀ id, (runs.activate id).RespectsIf G R C
  network : ∀ {w id event b p}, G w → w.MayRelay id event b p → w.relay = true → ∀ target,
    (World.sendNetworkEvent runs id target event).Ends w (fun _ => R w) (C w)

theorem Reentry.RespectsWithin.mono {k : Access} {G : World → Prop}
    {R R' C C' : World → World → Prop} {runs : Reentry} (h : runs.RespectsWithin k G R C)
    (hR : ∀ {w w' : World}, R w w' → R' w w') (hC : ∀ {w w' : World}, C w w' → C' w w') :
    runs.RespectsWithin k G R' C' where
  runAt := fun id address w hw => (h.runAt id address w hw).mono (fun _ _ => hR) fun _ => hC
  interpret := fun hk id w m hw hm =>
    (h.interpret hk id w m hw hm).mono (fun _ _ => hR) fun _ => hC
  activate := fun id w hw => (h.activate id w hw).mono (fun _ _ => hR) fun _ => hC
  network := fun hw hmay hr target =>
    (h.network hw hmay hr target).mono (fun _ _ => hR) fun _ => hC

/-! ### Steady relations -/

/-- Relations that the plain deeds of the code of the machine `r` respect and that last through
sequences of what respects them. Worlds are in order if nothing has been registered or installed
that the access forbids, and perhaps more holds of them. -/
structure Steady (k : Access) (r : Option MachineRef) (G : World → Prop)
    (R C : World → World → Prop) : Prop where
  permits : ∀ {w : World}, G w → w.Permits k
  keeps : ∀ {w w' : World}, G w → R w w' → G w'
  refl : ∀ w : World, R w w
  trans : ∀ {u v w : World}, R u v → R v w → R u w
  short : ∀ w : World, C w w
  before : ∀ {u v w : World}, R u v → C v w → C u w
  deed : ∀ {w : World} {d : Deed} {w' : World}, w.Change k r d w' → d.Plain w w' → R w w'

namespace Steady

variable {k : Access} {r : Option MachineRef} {G : World → Prop} {R C : World → World → Prop}
  (h : Steady k r G R C)

include h

theorem note {e : Entry} (he : e.isRemark = true) (hq : e.request? = none) (w : World) :
    R w (w.note e) :=
  h.deed (.noted he) ⟨hq, nofun⟩

theorem tolerated : BuiltIn.Tolerated R where
  refl := h.refl
  trans := h.trans
  log := fun w e he => h.note (e := .log e) (by simp [Entry.isRemark, he]) rfl w
  hash := fun _ id => h.deed (.hashed id) ⟨rfl, nofun⟩
  assign := fun hb ha hm hw => h.deed (.assigned hb ha hm hw) ⟨rfl, nofun⟩

/-- A change past a behaviour that does not touch what machines know of their last runs. -/
theorem poke (w : World) {f : Machine → Machine} (r' : MachineRef) (direct : k.direct = true)
    (heap : ∀ m, (f m).heap = m.heap) (program : ∀ m, (f m).program = m.program)
    (halted : ∀ m, (f m).halted = m.halted) : R w (w.mapMachine f r') :=
  h.deed (.poked r' direct heap program) ⟨rfl, fun _ _ =>
    World.apply_machine_mapMachine_of_eq Machine.halted (halted _)⟩

/-- A computation that respects the relations from a later world on. -/
theorem after {c : Run α} {u v : World} (huv : R u v) (hc : c.Ends v (fun _ => R v) (C v)) :
    c.Ends v (fun _ => R u) (C u) :=
  hc.mono (fun _ _ hw => h.trans huv hw) fun _ hw => h.before huv hw

/-! ### Computations -/

theorem pure (a : α) : (Pure.pure a : Run α).RespectsIf G R C :=
  fun w _ => h.refl w

theorem bind {c : Run β} {f : β → Run α} (hc : c.RespectsIf G R C)
    (hf : ∀ b, (f b).RespectsIf G R C) : (c >>= f).RespectsIf G R C := by
  intro w hw
  rw [Run.ends_bind]
  exact (hc w hw).mono (fun b v hv => h.after hv (hf b v (h.keeps hw hv))) fun _ hv => hv

theorem exhausted : (Run.exhausted : Run α).RespectsIf G R C :=
  fun w _ => h.short w

theorem world : Run.world.RespectsIf G R C :=
  fun w _ => h.refl w

theorem behaviour? (id : BehaviourId) : (Run.behaviour? id).RespectsIf G R C :=
  fun w _ => h.refl w

omit h in
theorem change {f : World → World} (hf : ∀ w : World, R w (f w)) :
    (Run.change f).RespectsIf G R C :=
  fun w _ => hf w

/-! ### Operations -/

section Operations

variable {self : Reentry}

theorem sendEvent_of_runAt
    (hrun : ∀ id address, (self.runAt id address).RespectsIf G R C) (id : BehaviourId)
    (event : String) : (World.sendEvent self id event).RespectsIf G R C := by
  intro w hw
  refine World.sendEvent_ends (h.refl w) (h.note rfl rfl w) fun b address _ _ _ => ?_
  exact hrun id address w hw

/-- Where requests to the network are respected too, so are events that go over it. -/
theorem network_of_relayed (relayed : ∀ w q, R w (w.note (.relayed q)))
    (hrun : ∀ id address, (self.runAt id address).RespectsIf G R C) {w : World} {id : BehaviourId}
    {event : String} (hw : G w) (target : NetworkTarget) :
    (World.sendNetworkEvent self id target event).Ends w (fun _ => R w) (C w) := by
  have hrelay : ∀ b p, R w (w.relayFrom b p target event) := fun b p =>
    h.tolerated.relayFrom relayed w b p target event
  refine World.sendNetworkEvent_ends (h.refl w) (fun e he => h.tolerated.log w e he)
    (fun b p _ => hrelay b p) fun b p _ => ?_
  exact h.after (hrelay b p) (h.sendEvent_of_runAt hrun id event _ (h.keeps hw (hrelay b p)))

variable (hself : self.RespectsWithin k G R C)

include hself

theorem runAll (id : BehaviourId) (addresses : List UInt32) :
    (World.runAll self id addresses).RespectsIf G R C := by
  induction addresses with
  | nil => exact h.pure ()
  | cons address addresses ih =>
    refine h.bind (hself.runAt id address) fun halted => ?_
    cases halted with
    | false => exact h.pure ()
    | true => exact ih

theorem dispatchBy (id : BehaviourId) (select : EventTable → List UInt32) :
    (World.dispatchBy self id select).RespectsIf G R C := by
  refine h.bind (h.behaviour? id) fun b => ?_
  cases b with
  | none => exact h.pure ()
  | some b =>
    dsimp only
    split
    · exact h.runAll hself id _
    · exact h.pure ()

theorem sendEvent (id : BehaviourId) (event : String) :
    (World.sendEvent self id event).RespectsIf G R C :=
  h.sendEvent_of_runAt hself.runAt id event

theorem sendNetworkEvent (id : BehaviourId) (target : NetworkTarget) (event : String) :
    (World.sendNetworkEvent self id target event).RespectsIf G R C := by
  intro w hw
  by_cases hnet : w.relay = true ∧ ∃ b p, w.MayRelay id event b p
  · obtain ⟨hr, b, p, hmay⟩ := hnet
    exact hself.network hw hmay hr target
  · have hkept : ∀ b p, w.MayRelay id event b p → w.relayFrom b p target event = w := by
      intro b p hmay
      unfold World.relayFrom
      rw [if_neg fun hr => hnet ⟨hr, b, p, hmay⟩]
    refine World.sendNetworkEvent_ends (h.refl w) (fun e he => h.tolerated.log w e he) ?_ ?_
    · intro b p hmay
      rw [hkept b p hmay]
      exact h.refl w
    · intro b p hmay
      rw [hkept b p hmay]
      exact h.sendEvent hself id event w hw

theorem collectSyncedValues (id : BehaviourId) :
    (World.collectSyncedValues self id).RespectsIf G R C := by
  refine h.bind (h.dispatchBy hself id _) fun _ => ?_
  refine h.bind (h.behaviour? id) fun b => ?_
  cases b <;> exact h.pure _

omit hself in
theorem applyValues (id : BehaviourId) (p : Program) (values : List (String × Value))
    (w : World) : R w (values.foldl (World.applyValue id p) w) := by
  induction values generalizing w with
  | nil => exact h.refl w
  | cons x values ih =>
    refine h.trans ?_ (ih _)
    unfold World.applyValue
    split
    · exact h.tolerated.setVariable ..
    · exact h.note rfl rfl w

theorem applySyncedValues (id : BehaviourId) (values : List (String × Value)) :
    (World.applySyncedValues self id values).RespectsIf G R C := by
  refine h.bind (h.behaviour? id) fun b => ?_
  cases b with
  | none => exact h.pure ()
  | some b =>
    dsimp only
    split
    · cases b.program with
      | none => exact h.pure ()
      | some p =>
        refine h.bind (change fun w => h.applyValues id p values w) fun _ => ?_
        exact h.dispatchBy hself id _
    · exact h.pure ()

/-- Whatever a host may do to a behaviour respects what the runs and activations respect that it may
begin. -/
theorem perform (id : BehaviourId) {op : Operation} (hop : op.Permitted k) :
    (World.perform self id op).RespectsIf G R C := by
  have hdirect : op.isDirect = true → k.direct = true := fun hd =>
    hop.resolve_right fun hn => by simp [hd] at hn
  cases op with
  | activate => exact h.bind (hself.activate id) fun _ => h.pure _
  | supply t =>
    exact h.bind (change fun _ => h.deed (.supplied id t) ⟨rfl, nofun⟩) fun _ => h.pure _
  | supplied | events | heap => exact h.bind (h.behaviour? id) fun _ => h.pure _
  | dispatch | dispatchKind => exact h.bind (h.dispatchBy hself id _) fun _ => h.pure _
  | send event => exact h.bind (h.sendEvent hself id event) fun _ => h.pure _
  | network target event =>
    exact h.bind (h.sendNetworkEvent hself id target event) fun _ => h.pure _
  | runAt address => exact h.bind (hself.runAt id address) fun _ => h.pure _
  | abort => exact h.bind (change fun _ => h.deed (.aborted id) ⟨rfl, nofun⟩) fun _ => h.pure _
  | setCounter | markFaulted =>
    refine h.bind (change fun w => ?_) fun _ => h.pure _
    refine h.poke w (.behaviour id) (hdirect rfl) ?_ ?_ ?_
    all_goals exact fun _ => rfl
  | get name => exact h.bind h.world fun _ => h.pure _
  | set name v =>
    exact h.bind (change fun w => h.tolerated.setVariable w id name v) fun _ => h.pure _
  | collectSynced => exact h.bind (h.collectSyncedValues hself id) fun _ => h.pure _
  | applySynced values => exact h.bind (h.applySyncedValues hself id values) fun _ => h.pure _
  | describe =>
    refine h.bind (h.behaviour? id) fun b => ?_
    cases b <;> exact h.pure _
  | runMachine =>
    intro w hw
    unfold World.perform
    rw [Run.ends_bind, Run.ends_behaviour?]
    cases hm : (w.behaviour? id).bind Behaviour.machine with
    | none => exact h.refl w
    | some m =>
      dsimp only
      rw [Run.ends_bind]
      exact hself.interpret (hdirect rfl) id w m hw hm
  | hook operations failure =>
    refine h.bind (change fun w => h.deed (.hooked id (some ⟨operations, failure⟩) ?_)
      ⟨rfl, nofun⟩) fun _ => h.pure _
    intro hook hhook
    cases hhook
    exact hop

theorem runHook (id : BehaviourId) {ops : List Operation} (hops : Operation.AllPermitted k ops) :
    (World.runHook self id ops).RespectsIf G R C := by
  induction ops with
  | nil => exact h.pure ()
  | cons op ops ih =>
    refine h.bind (h.perform hself id hops.cons.1) fun answer => ?_
    refine h.bind (change fun w => ?_) fun _ => ih hops.cons.2
    cases w.behaviour? id with
    | none => exact h.refl w
    | some b => exact h.note rfl rfl w

theorem takeHook (id : BehaviourId) : (World.takeHook self id).RespectsIf G R C := by
  intro w hw
  unfold World.takeHook
  rw [Run.ends_bind, Run.ends_behaviour?]
  cases hhook : (w.behaviour? id).bind Behaviour.hook with
  | none => exact h.refl w
  | some hook =>
    obtain ⟨b, hb, hh⟩ := Option.bind_eq_some_iff.1 hhook
    have hops := (h.permits hw).hooks id b hook hb hh
    have htaken : R w (w.mapBehaviour id fun b => { b with hook := none }) :=
      h.deed (.hooked id none fun _ hn => nomatch hn) ⟨rfl, nofun⟩
    dsimp only
    rw [Run.ends_bind, Run.ends_change, Run.ends_bind]
    exact h.after htaken (h.runHook hself id hops _ (h.keeps hw htaken))

end Operations

/-! ### Host functions -/

theorem callPure (a : α) : (Pure.pure a : HostCall α).run.RespectsIf G R C :=
  fun w _ => h.refl w

theorem callBind {c : HostCall β} {f : β → HostCall α} (hc : c.run.RespectsIf G R C)
    (hf : ∀ b, (f b).run.RespectsIf G R C) : (c >>= f).run.RespectsIf G R C := by
  intro w hw
  rw [HostCall.ends_bind]
  refine (hc w hw).mono (fun x v hv => ?_) fun _ hv => hv
  cases x with
  | error e => exact hv
  | ok b => exact h.after hv (hf b v (h.keeps hw hv))

omit h in
theorem callLift {c : Run α} (hc : c.RespectsIf G R C) :
    (liftM c : HostCall α).run.RespectsIf G R C :=
  fun w hw => HostCall.ends_lift.2 (hc w hw)

theorem callAsk (question : World → Except HostError α) :
    (Invocation.ask question).run.RespectsIf G R C :=
  fun w _ => HostCall.ends_ask.2 (h.refl w)

theorem onCurrent {f : BehaviourId → Run α} (hf : ∀ id, (f id).RespectsIf G R C) :
    (HostAction.onCurrent f).RespectsIf G R C := by
  refine h.bind h.world fun w => ?_
  split
  · exact h.pure _
  · exact h.bind (hf _) fun _ => h.pure _

end Steady

namespace Steady

variable {k : Access} {G : World → Prop} {R C : World → World → Prop} {self : Reentry}

section Calls

variable {call : Invocation} (h : Steady k (some call.machine) G R C)

include h

theorem toleratedFrom : BuiltIn.ToleratedFrom call.machine R :=
  { h.tolerated with put := fun hw => h.deed (.put rfl hw) ⟨rfl, nofun⟩ }

theorem callSet (index : Nat) (v : Value) : (call.set index v).run.RespectsIf G R C :=
  fun w _ => Invocation.ends_set (fun _ _ => h.refl w) fun _ _ hw => h.toleratedFrom.put hw

theorem callLoad (hk : k.direct = true) (p : Program) (heap : Option Heap) :
    (call.load p heap).run.RespectsIf G R C := by
  intro w hw
  unfold Invocation.load
  rw [HostCall.ends_bind, HostCall.ends_lift, Run.ends_world]
  dsimp only
  cases hl : w.loadMachine call.machine p (heap.getD p.heap) with
  | error e => exact h.refl w
  | ok v => exact h.deed (.loaded hk rfl hl) ⟨rfl, nofun⟩

variable (hself : self.RespectsWithin k G R C)

include hself

theorem action {a : HostAction} (ha : HostAction.AllPermitted k [a]) :
    (HostAction.run self call a).run.RespectsIf G R C := by
  cases a with
  | get | getBoolean | getInt32 | getSingle | getString | getBehaviour =>
    exact h.callBind (h.callAsk _) fun _ => h.callPure _
  | set index v => exact h.callBind (h.callSet index v) fun _ => h.callPure _
  | fail text => exact fun w _ => h.refl w
  | load p heap => exact h.callBind (h.callLoad (ha.direct rfl) p heap) fun _ => h.callPure _
  | abort =>
    refine h.callBind (callLift (h.onCurrent fun id => ?_)) fun _ => h.callPure _
    exact change fun _ => h.deed (.aborted id) ⟨rfl, nofun⟩
  | markFaulted =>
    refine h.callBind (callLift (h.onCurrent fun id => ?_)) fun _ => h.callPure _
    refine change fun w => h.poke w (.behaviour id) (ha.direct rfl) ?_ ?_ ?_
    all_goals exact fun _ => rfl
  | send event =>
    refine h.callBind (callLift (h.onCurrent fun id => ?_)) fun _ => h.callPure _
    exact h.sendEvent hself id event
  | dispatch event =>
    refine h.callBind (callLift (h.onCurrent fun id => ?_)) fun _ => h.callPure _
    exact h.dispatchBy hself id _
  | runAt address =>
    refine h.callBind (callLift (h.onCurrent fun id => ?_)) fun _ => h.callPure _
    exact hself.runAt id address
  | activate =>
    refine h.callBind (callLift (h.onCurrent fun id => ?_)) fun _ => h.callPure _
    exact hself.activate id
  | state | position => exact h.callBind (callLift h.world) fun _ => h.callPure _
  | register signature arity actions =>
    refine h.callBind (callLift (change fun _ => ?_)) fun _ => h.callPure _
    exact h.deed (.registered signature (.script arity actions) ha.of_register) ⟨rfl, nofun⟩
  | shutdown =>
    exact h.callBind (callLift (change fun _ => h.deed .shutDown ⟨rfl, nofun⟩)) fun _ =>
      h.callPure _

theorem actions {as : List HostAction} (has : HostAction.AllPermitted k as) :
    (HostAction.runAll self call as).RespectsIf G R C := by
  induction as with
  | nil => exact h.pure _
  | cons a as ih =>
    refine h.bind (h.action hself has.cons.1) fun r => ?_
    cases r with
    | error e => exact h.pure _
    | ok r => exact h.bind (ih has.cons.2) fun _ => h.pure _

/-- Whatever a built-in function does respects what the runs respect that it may begin; a call that
fails has done nothing. -/
theorem builtIn {w : World} (hw : G w) (f : BuiltIn) :
    (f.run self call).run.Ends w (BuiltIn.Settles R call w) (C w) := by
  exact BuiltIn.run_ends_of_events h.toleratedFrom (fun id event => h.sendEvent hself id event w hw)
    (fun id target event => h.sendNetworkEvent hself id target event w hw) f

/-- Whatever a host function does respects what the runs and activations respect that it may
begin. -/
theorem function {f : HostFunction} (hf : f.Permitted k) :
    (f.run self call).run.RespectsIf G R C := by
  cases f with
  | builtIn f =>
    exact fun w hw => (h.builtIn hself hw f).mono (fun _ _ hs => hs.respects) fun _ h => h
  | script arity as =>
    refine h.callBind (callLift (h.actions hself hf)) fun r => ?_
    refine h.callBind (callLift (change fun w => h.note rfl rfl w)) fun _ => ?_
    cases r.2 with
    | none => exact h.callPure _
    | some e => exact fun w _ => h.refl w

end Calls

/-! ### Machines -/

section Machines

variable {r : MachineRef}

/-- How an instruction ends that begins in `w`: relations are respected, and its errors are its own.
If all functions are built in, an instruction that fails has not stopped its machine by what it
called. -/
structure Steps (k : Access) (r : MachineRef) (R : World → World → Prop) (w : World)
    (x : Except VmError Unit) (w' : World) : Prop where
  respects : R w w'
  fault : ∀ e, x = .error e → e.OfInstruction
  runs : ∀ e, x = .error e → k.functions = false → (w.machine r).Runs → (w'.machine r).Runs

theorem Steps.ok {w w' : World} (h : R w w') : Steps k r R w (.ok ()) w' :=
  ⟨h, nofun, nofun⟩

theorem Steps.error {w w' : World} {e : VmError} (h : R w w') (fault : e.OfInstruction)
    (runs : k.functions = false → (w.machine r).Runs → (w'.machine r).Runs) :
    Steps k r R w (.error e) w' := by
  refine ⟨h, fun e' he => ?_, fun _ _ => runs⟩
  cases he
  exact fault

variable (h : Steady k (some r) G R C) (hself : self.RespectsWithin k G R C)

include h hself

/-- A host function that is called in the world `v` ends the instruction that began in `w`. -/
theorem called {w v : World} (hw : G w) (hR : R w v) {f : HostFunction} (hf : f.Permitted k)
    (hruns : (w.machine r).Runs → (v.machine r).Runs) (signature : String) (args : List UInt32) :
    (f.run self ⟨r, signature, args⟩).run.Ends v
      (fun x => Steps k r R w (x.mapError (.function signature))) (C w) := by
  have hG := h.keeps hw hR
  cases f with
  | builtIn f =>
    have hcall : Steady k (some (Invocation.mk r signature args).machine) G R C := h
    refine (hcall.builtIn hself hG f).mono (fun x w' hs => ?_) fun _ hc => h.before hR hc
    cases x with
    | ok u => exact .ok (h.trans hR hs.respects)
    | error e =>
      refine .error (h.trans hR hs.respects) ⟨nofun, nofun⟩ fun _ hr => ?_
      rw [(hs.refuses e rfl).1]
      exact hruns hr
  | script arity as =>
    have hcall : Steady k (some (Invocation.mk r signature args).machine) G R C := h
    refine (hcall.function hself hf _ hG).mono (fun x w' hR' => ?_) fun _ hc => h.before hR hc
    cases x with
    | ok u => exact .ok (h.trans hR hR')
    | error e =>
      -- if all functions are built in, no script is called
      refine .error (h.trans hR hR') ⟨nofun, nofun⟩ fun hk _ => ?_
      rw [hf.1] at hk
      cases hk

/-- An instruction respects the relations if its beginning does. -/
theorem step {w : World} (hw : G w) (code : Bytes) (pc : UInt32)
    (hbegun : ∀ i w', i.machine = r → i.pc = pc → (w.begin i).Carried i w' → R w w') :
    (World.step self r code pc).Ends w (Steps k r R w) (C w) := by
  refine World.step_ends ?_ ?_ ?_
  · intro e he
    exact .error (h.refl w) (Machine.ofInstruction_of_fetch he) fun _ hr => hr
  · intro op operand x m hf hc w' he
    have hR := hbegun ⟨r, pc, op, operand, w.current⟩ _ rfl rfl (.alone hc he)
    cases x with
    | ok u => exact .ok hR
    | error e =>
      refine .error hR he.ofInstruction fun _ hr => ?_
      exact World.runs_mapMachine (World.runs_begin hr _) he.faulted_eq he.abortRequested_eq
  · intro operand hf
    generalize hi : Begun.mk r pc .call operand w.current = i
    have hlost : R w (w.begin i) := hbegun i _ (by rw [← hi]) (by rw [← hi]) (.lost (by rw [← hi]))
    refine World.callFunction_ends ?_ ?_ ?_ ?_
    · intro e he
      exact .error hlost (Machine.ofInstruction_of_readAs he) fun _ hr => World.runs_begin hr i
    · exact fun _ => .error hlost ⟨nofun, nofun⟩ fun _ hr => World.runs_begin hr i
    · intro n e he
      rw [OperandStack.popMany_error he]
      exact .error hlost ⟨nofun, nofun⟩ fun _ hr => World.runs_begin hr i
    · intro signature f args stack hf hpop
      have hpopped : R w ((w.begin i).mapMachine (fun m => { m with stack }) r) := by
        subst hi
        exact hbegun _ _ rfl rfl (.called rfl hpop)
      have hruns : (w.machine r).Runs →
          (((w.begin i).mapMachine (fun m => { m with stack }) r).machine r).Runs := fun hr =>
        World.runs_mapMachine (World.runs_begin hr i) rfl rfl
      have hpermitted : f.Permitted k := by
        refine (h.permits hw).functions signature f ?_
        rwa [World.begin, World.functions_mapMachine] at hf
      exact h.called hself hw hpopped hpermitted hruns signature args

/-- An instruction that is due respects the relations. -/
theorem stepDue {w : World} (hw : G w) (hr : (w.machine r).Runs) (code : Bytes) :
    (World.step self r code (w.machine r).pc).Ends (w.note (.boundary (w.boundary r code)))
      (Steps k r R (w.note (.boundary (w.boundary r code))))
      (C (w.note (.boundary (w.boundary r code)))) := by
  have hnoted := h.keeps hw (h.note (e := .boundary (w.boundary r code)) rfl rfl w)
  refine h.step hself hnoted code _ fun i w' hi hpc hc => ?_
  subst hi
  refine h.deed (.begun rfl ?_ ?_ hc) ⟨rfl, nofun⟩
  · rwa [World.machine_note]
  · rw [World.machine_note, hpc]

/-- All worlds on the course of a loop are related to the one in which it begins. -/
theorem course {w : World} (hw : G w) {code : Bytes} {fuel : Nat} :
    ∀ u ∈ World.course self r code fuel w, R w u := by
  refine World.course_induct (h.refl w) fun u u' hu hdue hstep => ?_
  have hs := (h.stepDue hself (h.keeps hw hu) hdue.1 code).of_ok hstep
  exact h.trans hu (h.trans (h.note rfl rfl u) hs.respects)

/-- A machine that runs respects what the runs and activations respect that its code may begin, up
to its last look, which may end the run. -/
theorem interpretWith (fuel : Nat) {w : World} (hw : G w) :
    (World.interpretWith self fuel r).Ends w (fun x w' => ∃ v, R w v ∧
      (v.machine r).MayFinish k x ∧ w' = v.mapMachine (Machine.finish x) r) (C w) := by
  have hsame : ∀ v : World, v = v.mapMachine (fun m => m) r := fun v =>
    (World.mapMachine_id v r).symm
  refine World.interpretWith_ends ?_ ?_ fun p _ hf => ?_
  · exact fun hp => ⟨w, h.refl w, .noProgram hp, hsame w⟩
  · exact fun hf => ⟨w, h.refl w, .halted hf, hsame w⟩
  have hnote : ∀ v, R w v → R w (v.note (.boundary (v.boundary r p.code))) := fun v hv =>
    h.trans hv (h.note rfl rfl v)
  refine World.runLoop_ends (R w) ?_ ?_ ?_ ?_ (fun v hv => h.before hv (h.short v)) fuel ?_
  · intro v hv hf
    refine ⟨_, hnote v hv, .halted ?_, hsame _⟩
    rwa [World.machine_note]
  · intro v hv ha
    refine ⟨_, hnote v hv, .aborted ?_ ?_, rfl⟩
    · rw [World.machine_note, ha.1]
    · rw [World.machine_note, ha.2]
  · intro v hv hr hp
    refine ⟨_, hnote v hv, .reachedHalt ?_ ?_, rfl⟩
    · rwa [World.machine_note]
    · rwa [World.machine_note]
  · intro v hv hr _
    refine (h.stepDue hself (h.keeps hw hv) hr p.code).mono (fun x v' hs => ?_) fun _ hc =>
      h.before (hnote v hv) hc
    have hR := h.trans (hnote v hv) hs.respects
    cases x with
    | ok u => exact hR
    | error e =>
      have he := hs.fault e rfl
      have hr' : ((v.note (.boundary (v.boundary r p.code))).machine r).Runs := by
        rwa [World.machine_note]
      refine ⟨v', hR, .failed he fun hk => hs.runs e rfl hk hr', ?_⟩
      rw [show Machine.finish (.error e) = _ from funext (Machine.finish_failed he)]
  · exact h.deed (.started rfl hf) ⟨rfl, nofun⟩

end Machines

end Steady

/-! ### Lasting relations -/

/-- Relations that hold if all states are the same, and last through sequences of changes. -/
structure Lasting (R C : World → World → Prop) : Prop where
  same : ∀ {w w' : World}, w.SameStates w' → R w w'
  trans : ∀ {u v w : World}, R u v → R v w → R u w
  short : ∀ w : World, C w w
  before : ∀ {u v w : World}, R u v → C v w → C u w

/-- What code does by itself leaves the states alone. -/
theorem World.Change.sameStates {k : Access} {r : Option MachineRef} {w w' : World} {d : Deed}
    (h : w.Change k r d w') : w.SameStates w' := by
  cases h with
  | noted => exact .note w _
  | supplied id | hooked id | hashed id =>
    exact .mapBehaviour w id (fun _ => rfl) fun _ => rfl
  | registered => exact ⟨fun _ => rfl⟩
  | shutDown => exact .shutDown w
  | aborted | poked | assigned | put | started => exact .mapMachine ..
  | loaded _ _ hl => exact .loadMachine hl
  | begun _ _ _ hc => exact (SameStates.begin w _).trans (.carried hc)

namespace Lasting

variable {R C : World → World → Prop} (h : Lasting R C) {self : Reentry}
  (hself : self.Respects R C)

include h

theorem steady (r : Option MachineRef) : Steady .full r (fun _ => True) R C where
  permits := fun _ => World.permits_full _
  keeps := fun _ _ => trivial
  refl := fun w => h.same (.refl w)
  trans := h.trans
  short := h.short
  before := h.before
  deed := fun hd _ => h.same hd.sameStates

theorem refl (w : World) : R w w :=
  h.same (.refl w)

theorem exhausted : (Run.exhausted : Run α).Respects R C :=
  h.short

include hself in
theorem within : self.RespectsWithin .full (fun _ => True) R C where
  runAt := fun id address w _ => hself.runAt id address w
  interpret := fun _ _ w _ _ _ => hself.interpret _ w
  activate := fun id w _ => hself.activate id w
  network := fun hw _ _ => (h.steady none).network_of_relayed
    (fun w q => h.same (.note w (.relayed q))) (fun id address w _ => hself.runAt id address w) hw

include hself

theorem perform (id : BehaviourId) (op : Operation) : (World.perform self id op).Respects R C :=
  fun w => (h.steady none).perform (h.within hself) id (.inl rfl) w trivial

theorem takeHook (id : BehaviourId) : (World.takeHook self id).Respects R C :=
  fun w => (h.steady none).takeHook (h.within hself) id w trivial

theorem action (call : Invocation) (a : HostAction) :
    (HostAction.run self call a).run.Respects R C :=
  fun w => (h.steady _).action (h.within hself) ⟨rfl, .inl rfl⟩ w trivial

theorem function (call : Invocation) (f : HostFunction) : (f.run self call).run.Respects R C :=
  fun w => (h.steady _).function (h.within hself) f.permitted_full w trivial

theorem step (r : MachineRef) (code : Bytes) (pc : UInt32) :
    (World.step self r code pc).Respects R C := by
  intro w
  refine ((h.steady _).step (h.within hself) trivial code pc fun i w' _ _ hc => h.same ?_).mono
    (fun _ _ hs => hs.respects) fun _ hc => hc
  exact (World.SameStates.begin w i).trans (.carried hc)

/-- A machine that runs respects what the runs and activations respect that its code may begin. -/
theorem interpretWith (fuel : Nat) (r : MachineRef) :
    (World.interpretWith self fuel r).Respects R C := by
  intro w
  refine ((h.steady _).interpretWith (h.within hself) fuel trivial).mono ?_ fun _ hc => hc
  rintro x w' ⟨v, hv, -, rfl⟩
  exact h.trans hv (h.same (.mapMachine ..))

end Lasting

end EventVm
