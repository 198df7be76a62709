import EventVm.Proofs.Failure
import EventVm.Proofs.World.Rules

/-!
# Calls of built-in functions

What a built-in function can do to the world: refuse, having done nothing; write one argument; log;
write a variable of another behaviour; run an entry point of another behaviour. A relation between
worlds that is respected by the first four (`BuiltIn.RespectedFrom`) and by runs is respected by
every call of a built-in function (`BuiltIn.run_ends`).
-/

namespace EventVm

variable {self : Reentry} {w : World} {cut : World → Prop}

/-! ### Refusals -/

namespace Invocation

variable {call : Invocation}

/-- Why a call can fail in a world without having done anything. -/
inductive Refuses (call : Invocation) (w : World) : HostError → Prop where
  | missing (index : Nat) : Refuses call w (.missingArgument index)
  | read {address : UInt32} {e : HeapError} (mem : address ∈ call.args)
      (failed : (w.machine call.machine).read address = .error e) : Refuses call w (.heap e)
  | write {address : UInt32} {v : Value} {e : HeapError} (mem : address ∈ call.args)
      (failed : (w.machine call.machine).write address v = .error e) : Refuses call w (.heap e)
  | type (index : Nat) (expected actual : String) :
      Refuses call w (.argumentType index expected actual)
  | null (index : Nat) : Refuses call w (.nullReference index)
  | unknown (id : UInt64) : Refuses call w (.unknownBehaviour id)

theorem mem_of_address? {index : Nat} {address : UInt32}
    (h : call.address? index = .ok address) : address ∈ call.args := by
  unfold address? at h
  split at h
  · next hget =>
    cases h
    exact List.mem_of_getElem? hget
  · cases h

theorem refuses_of_address? {index : Nat} {e : HostError} (h : call.address? index = .error e) :
    call.Refuses w e := by
  unfold address? at h
  split at h
  · cases h
  · cases h
    exact .missing index

theorem refuses_of_value? {index : Nat} {e : HostError} (h : call.value? w index = .error e) :
    call.Refuses w e := by
  obtain ha | ⟨address, ha, hr⟩ := bind_eq_error.1 h
  · exact refuses_of_address? ha
  · obtain ⟨e', hr', rfl⟩ := mapError_eq_error.1 hr
    exact .read (mem_of_address? ha) hr'

theorem refuses_of_valueAs? {expected : TypeTag} {part? : Value → Option α} {index : Nat}
    {e : HostError} (h : call.valueAs? w expected part? index = .error e) : call.Refuses w e := by
  obtain hv | ⟨v, -, hp⟩ := bind_eq_error.1 h
  · exact refuses_of_value? hv
  · split at hp
    · cases hp
    · cases hp
      exact .type ..

theorem refuses_of_behaviour? {index : Nat} {e : HostError}
    (h : call.behaviour? w index = .error e) : call.Refuses w e := by
  obtain hv | ⟨v, -, hb⟩ := bind_eq_error.1 h
  · exact refuses_of_value? hv
  · split at hb
    · cases hb
      exact .null index
    · split at hb
      · cases hb
      · cases hb
        exact .unknown _
    · cases hb
      exact .type ..

theorem refuses_of_write? {index : Nat} {v : Value} {e : HostError}
    (h : call.write? w index v = .error e) : call.Refuses w e := by
  obtain ha | ⟨address, ha, hw⟩ := bind_eq_error.1 h
  · exact refuses_of_address? ha
  · obtain hw | ⟨m, -, hm⟩ := bind_eq_error.1 hw
    · obtain ⟨e', hw', rfl⟩ := mapError_eq_error.1 hw
      exact .write (mem_of_address? ha) hw'
    · cases hm

theorem refuses_of_networkTarget? {index : Nat} {v : Value} {e : HostError}
    (h : networkTarget? index v = .error e) : call.Refuses w e := by
  unfold networkTarget? at h
  split at h
  · cases h
  · cases h
    exact .type ..

theorem value?_of_address {index : Nat} {address : UInt32} (h : call.address? index = .ok address) :
    call.value? w index = ((w.machine call.machine).read address).mapError .heap := by
  unfold value?
  rw [h]
  rfl

theorem write?_of_address {index : Nat} {address : UInt32} {v : Value}
    (h : call.address? index = .ok address) : call.write? w index v =
      (((w.machine call.machine).write address v).map fun m =>
        w.mapMachine (fun _ => m) call.machine).mapError .heap := by
  unfold write?
  rw [h]
  change (((w.machine call.machine).write address v).mapError _ >>= _) = _
  cases (w.machine call.machine).write address v <;> rfl

/-- A written argument is a written heap address of the calling machine. -/
theorem write?_ok {index : Nat} {v : Value} {w' : World} (h : call.write? w index v = .ok w') :
    ∃ address m, (w.machine call.machine).write address v = .ok m ∧
      w' = w.mapMachine (fun _ => m) call.machine := by
  obtain ⟨address, -, h⟩ := bind_eq_ok.1 h
  obtain ⟨m, hm, h⟩ := bind_eq_ok.1 h
  cases h
  exact ⟨address, m, mapError_eq_ok.1 hm, rfl⟩

/-! ### Rules for the parts of a call -/

/-- A call that asks refuses, or goes on with the answer. -/
theorem ends_ask_bind {question : World → Except HostError α} {f : α → HostCall Unit}
    {done : Except HostError Unit → World → Prop}
    (hq : ∀ e, question w = .error e → call.Refuses w e)
    (refuse : ∀ e, call.Refuses w e → done (.error e) w)
    (answer : ∀ a, question w = .ok a → (f a).run.Ends w done cut) :
    (ask question >>= f).run.Ends w done cut := by
  rw [HostCall.ends_bind, HostCall.ends_ask]
  cases h : question w with
  | error e => exact refuse e (hq e h)
  | ok a => exact answer a h

/-- A call that writes an argument refuses, or has written on the heap of the calling machine. -/
theorem ends_set {index : Nat} {v : Value} {done : Except HostError Unit → World → Prop}
    (refuse : ∀ e, call.Refuses w e → done (.error e) w)
    (written : ∀ address m, (w.machine call.machine).write address v = .ok m →
      done (.ok ()) (w.mapMachine (fun _ => m) call.machine)) :
    (call.set index v).run.Ends w done cut := by
  unfold Invocation.set
  refine ends_ask_bind (fun e => refuses_of_write?) refuse fun w' hw => ?_
  rw [HostCall.ends_lift, Run.ends_put]
  obtain ⟨address, m, hm, rfl⟩ := write?_ok hw
  exact written address m hm

end Invocation

/-! ### Events -/

/-- Whether a message reports how a run ended. Only runs write such messages. -/
def LogEvent.reportsRun : LogEvent → Bool
  | executionAborted .. | executionFault .. => true
  | _ => false

namespace World

variable {done : Unit → World → Prop} {id : BehaviourId} {event : String}

theorem sendEvent_ends (idle : done () w) (missing : done () (w.log (.eventNotFound id event)))
    (run : ∀ b address, w.behaviour? id = some b → b.state.isRunnable = true →
      b.entryPoint? event = some address → (self.runAt id address).Ends w (fun _ => done ()) cut) :
    (sendEvent self id event).Ends w done cut := by
  unfold sendEvent
  rw [Run.ends_bind, Run.ends_behaviour?]
  cases hb : w.behaviour? id with
  | none => exact idle
  | some b =>
    by_cases hs : b.state.isRunnable = true
    · simp only [hs, if_true]
      cases ha : b.entryPoint? event with
      | none => exact missing
      | some address =>
        simp only [Run.ends_bind, Run.ends_pure]
        exact run b address hb hs ha
    · simp only [hs]
      exact idle

/-- An event of a behaviour may go over the network: the behaviour can run, network events are
allowed and the name is not a reserved one. -/
structure MayRelay (w : World) (id : BehaviourId) (event : String) (b : Behaviour) (p : Program) :
    Prop where
  found : w.behaviour? id = some b
  runnable : b.state.isRunnable = true
  unreserved : EventTable.isReserved event = false
  allowed : w.options.allowNetworkEvents = true
  program : b.program = some p

variable {target : NetworkTarget} {b : Behaviour} {p : Program}

/-- An event that may go over the network is handed over first, then run here if it goes to all
instances or there is no network. -/
theorem sendNetworkEvent_of_mayRelay (h : w.MayRelay id event b p) :
    sendNetworkEvent self id target event w =
      if target = .all ∨ w.relay = false then
        sendEvent self id event (w.relayFrom b p target event)
      else .ok () (w.relayFrom b p target event) := by
  unfold sendNetworkEvent
  rw [Run.bind_apply]
  simp only [Run.world_apply, h.found, h.runnable, h.unreserved, h.allowed, h.program, if_true,
    Bool.false_eq_true, if_false, Bool.not_true]
  by_cases hrun : target = .all ∨ w.relay = false
  · rw [if_pos hrun, if_pos hrun]
    rfl
  · rw [if_neg hrun, if_neg hrun]
    rfl

/-- Any other event goes nowhere: at most there is a message. -/
theorem sendNetworkEvent_of_not_mayRelay (self : Reentry) (target : NetworkTarget)
    (h : ∀ b p, ¬ w.MayRelay id event b p) :
    ∃ w', sendNetworkEvent self id target event w = .ok () w' ∧
      (w' = w ∨ ∃ e, e.reportsRun = false ∧ w' = w.log e) := by
  suffices hends : (sendNetworkEvent self id target event).Ends w (fun _ w' =>
      w' = w ∨ ∃ e, e.reportsRun = false ∧ w' = w.log e) fun _ => False by
    obtain ⟨_, w', hok, hw'⟩ := hends.exists_ok
    exact ⟨w', hok, hw'⟩
  unfold sendNetworkEvent
  rw [Run.ends_bind, Run.ends_world]
  cases hb : w.behaviour? id with
  | none => exact .inl rfl
  | some b =>
    by_cases hs : b.state.isRunnable = true
    · simp only [hs, if_true]
      by_cases hreserved : EventTable.isReserved event = true
      · rw [if_pos hreserved]
        exact .inr ⟨_, rfl, rfl⟩
      · rw [if_neg hreserved]
        by_cases hallowed : w.options.allowNetworkEvents = true
        · rw [if_neg (by simp [hallowed])]
          cases hp : b.program with
          | none => exact .inl rfl
          | some p =>
            exact absurd ⟨hb, hs, by simpa using hreserved, hallowed, hp⟩ (h b p)
        · rw [if_pos (by simp [hallowed])]
          exact .inr ⟨_, rfl, rfl⟩
    · simp only [hs]
      exact .inl rfl

theorem sendNetworkEvent_ends (idle : done () w)
    (refused : ∀ e, e.reportsRun = false → done () (w.log e))
    (relayed : ∀ b p, w.MayRelay id event b p → done () (w.relayFrom b p target event))
    (send : ∀ b p, w.MayRelay id event b p →
      (sendEvent self id event).Ends (w.relayFrom b p target event) done cut) :
    (sendNetworkEvent self id target event).Ends w done cut := by
  by_cases h : ∃ b p, w.MayRelay id event b p
  · obtain ⟨b, p, hmay⟩ := h
    unfold Run.Ends
    rw [sendNetworkEvent_of_mayRelay hmay]
    by_cases hrun : target = .all ∨ w.relay = false
    · rw [if_pos hrun]
      exact send b p hmay
    · rw [if_neg hrun]
      exact relayed b p hmay
  · obtain ⟨w', hok, hw'⟩ := sendNetworkEvent_of_not_mayRelay self target
      fun b p hmay => h ⟨b, p, hmay⟩
    unfold Run.Ends
    rw [hok]
    obtain rfl | ⟨e, he, rfl⟩ := hw'
    · exact idle
    · exact refused e he

end World

/-! ### Built-in functions -/

/-- Programs can call built-in functions only. -/
def World.BuiltInsOnly (w : World) : Prop :=
  ∀ signature f, w.functions.get? signature = some f → ∃ b, f = .builtIn b

theorem World.builtInsOnly_new (o : Options) : (World.new o).BuiltInsOnly := by
  intro signature f h
  have hall : ∀ fs : List BuiltIn,
      (fs.map fun f => (f.signature, HostFunction.builtIn f)).lookup signature = some f →
      ∃ b, f = .builtIn b := by
    intro fs hf
    induction fs with
    | nil => cases hf
    | cons g gs ih =>
      rw [List.map_cons, List.lookup_cons] at hf
      split at hf
      · cases hf
        exact ⟨g, rfl⟩
      · exact ih hf
  exact hall _ h

theorem World.builtInsOnly_solo (m : Machine) : (World.solo m).BuiltInsOnly :=
  World.builtInsOnly_new .default

namespace BuiltIn

open Invocation (ends_ask_bind refuses_of_value? refuses_of_valueAs? refuses_of_behaviour?
  refuses_of_networkTarget?)

/-- A relation between worlds that respects messages, computed hashes and written variables. -/
structure Tolerated (R : World → World → Prop) : Prop where
  refl : ∀ w, R w w
  trans : ∀ {u v w}, R u v → R v w → R u w
  log : ∀ w e, e.reportsRun = false → R w (w.log e)
  hash : ∀ w id, R w (w.mapBehaviour id Behaviour.computeHash)
  assign : ∀ {w id b name address v m m'}, w.behaviour? id = some b →
    b.addressOf? name = some address → b.machine = some m → m.write address v = .ok m' →
    R w (w.mapMachine (fun _ => m') (.behaviour id))

/-- A relation between worlds that respects what built-in functions do by themselves that are called
by the given machine, but for requests to the network. -/
structure ToleratedFrom (caller : MachineRef) (R : World → World → Prop) : Prop
    extends Tolerated R where
  put : ∀ {w address v m}, (w.machine caller).write address v = .ok m →
    R w (w.mapMachine (fun _ => m) caller)

/-- A relation between worlds that respects what built-in functions do by themselves that are called
by the given machine. -/
structure RespectedFrom (caller : MachineRef) (R : World → World → Prop) : Prop
    extends ToleratedFrom caller R where
  relayed : ∀ w q, R w (w.note (.relayed q))

/-- A relation between worlds that respects what built-in functions do by themselves. -/
structure Respected (R : World → World → Prop) : Prop where
  refl : ∀ w, R w w
  trans : ∀ {u v w}, R u v → R v w → R u w
  log : ∀ w e, e.reportsRun = false → R w (w.log e)
  hash : ∀ w id, R w (w.mapBehaviour id Behaviour.computeHash)
  relayed : ∀ w q, R w (w.note (.relayed q))
  write : ∀ {w r address v m}, (w.machine r).write address v = .ok m →
    R w (w.mapMachine (fun _ => m) r)

section Relations

variable {R : World → World → Prop}

/-- Where all writing is respected, it does not matter who writes. -/
theorem Respected.from (hR : Respected R) (caller : MachineRef) : RespectedFrom caller R where
  refl := hR.refl
  trans := hR.trans
  log := hR.log
  hash := hR.hash
  relayed := hR.relayed
  put := hR.write
  assign := by
    intro w id b name address v m m' hb _ hm hw
    rw [← World.machine_of_machine? (World.machine?_of_behaviour? hb hm)] at hw
    exact hR.write hw

namespace Tolerated

variable (hR : Tolerated R)

include hR

theorem relayFrom (relayed : ∀ w q, R w (w.note (.relayed q))) (w : World) (b : Behaviour)
    (p : Program) (target : NetworkTarget) (event : String) :
    R w (w.relayFrom b p target event) := by
  unfold World.relayFrom
  split
  · exact hR.trans (hR.hash _ _) (hR.trans (hR.log _ _ rfl) (relayed _ _))
  · exact hR.refl w

theorem setVariable (w : World) (id : BehaviourId) (name : String) (v : Value) :
    R w (w.setVariable id name v) := by
  unfold World.setVariable
  cases hb : w.behaviour? id with
  | none => exact hR.refl w
  | some b =>
    dsimp only
    cases ha : b.addressOf? name with
    | none => exact hR.refl w
    | some address =>
      cases hm : b.machine with
      | none => exact hR.refl w
      | some m =>
        dsimp only
        cases hw : m.write address v with
        | error e => exact hR.log _ _ rfl
        | ok m' => exact hR.assign hb ha hm hw

end Tolerated

end Relations

/-- A call that began in `w` ended in `w'` with `x`: `R` has been respected, and nothing has been
done if the call failed. -/
structure Settles (R : World → World → Prop) (call : Invocation) (w : World)
    (x : Except HostError Unit) (w' : World) : Prop where
  respects : R w w'
  refuses : ∀ e, x = .error e → w' = w ∧ call.Refuses w e

section Settles

variable {R : World → World → Prop} {call : Invocation} {w' : World}

theorem Settles.ok (h : R w w') : Settles R call w (.ok ()) w' :=
  ⟨h, fun _ he => nomatch he⟩

theorem Settles.refused (refl : R w w) {e : HostError} (h : call.Refuses w e) :
    Settles R call w (.error e) w := by
  refine ⟨refl, fun e' he => ?_⟩
  cases he
  exact ⟨rfl, h⟩

variable (refl : R w w)
  (put : ∀ address v m, (w.machine call.machine).write address v = .ok m →
    R w (w.mapMachine (fun _ => m) call.machine))

include refl put

/-- A call that writes an argument. -/
theorem ends_set {index : Nat} {v : Value} :
    (call.set index v).run.Ends w (Settles R call w) cut :=
  Invocation.ends_set (fun _ => Settles.refused refl) fun _ _ hm => Settles.ok (put _ _ _ hm)

/-- A call that computes a value from two arguments and writes it. -/
theorem ends_binary {expected : TypeTag} {part? : Value → Option α} {g : α → α → Value} :
    (Invocation.ask (call.valueAs? · expected part? 0) >>= fun a =>
      Invocation.ask (call.valueAs? · expected part? 1) >>= fun b =>
        call.set 2 (g a b)).run.Ends w (Settles R call w) cut := by
  refine ends_ask_bind (fun _ => refuses_of_valueAs?) (fun _ => Settles.refused refl) fun a _ => ?_
  refine ends_ask_bind (fun _ => refuses_of_valueAs?) (fun _ => Settles.refused refl) fun b _ => ?_
  exact ends_set refl put

/-- What a built-in function can do by itself, and which functions do more: a relation is respected
by the calls of a function that respects what this one does. -/
theorem run_ends_of_parts (f : BuiltIn) (output : ∀ v, R w (logOutput v w))
    (assign : f = .setProgramVariable → ∀ id name v, R w (w.setVariable id name v))
    (send : f = .sendCustomEvent → ∀ id event,
      (World.sendEvent self id event).Ends w (fun _ => R w) cut)
    (network : f = .sendCustomNetworkEvent → ∀ id target event,
      (World.sendNetworkEvent self id target event).Ends w (fun _ => R w) cut) :
    (f.run self call).run.Ends w (Settles R call w) cut := by
  have refuse : ∀ e, call.Refuses w e → Settles R call w (.error e) w := fun _ =>
    Settles.refused refl
  cases f with
  | int32Addition | int32Subtraction | int32LessThan | int32Equality | singleAddition
  | stringConcat => exact ends_binary refl put
  | booleanNegation =>
    refine ends_ask_bind (fun _ => refuses_of_valueAs?) refuse fun b _ => ?_
    exact ends_set refl put
  | debugLog =>
    refine ends_ask_bind (fun _ => refuses_of_value?) refuse fun v _ => ?_
    rw [HostCall.ends_lift, Run.ends_change]
    exact .ok (output v)
  | sendCustomEvent =>
    refine ends_ask_bind (fun _ => refuses_of_behaviour?) refuse fun id _ => ?_
    refine ends_ask_bind (fun _ => refuses_of_valueAs?) refuse fun event _ => ?_
    rw [HostCall.ends_lift]
    exact (send rfl id event).mono (fun _ _ h => .ok h) fun _ h => h
  | setProgramVariable =>
    refine ends_ask_bind (fun _ => refuses_of_behaviour?) refuse fun id _ => ?_
    refine ends_ask_bind (fun _ => refuses_of_valueAs?) refuse fun name _ => ?_
    refine ends_ask_bind (fun _ => refuses_of_value?) refuse fun v _ => ?_
    rw [HostCall.ends_lift, Run.ends_change]
    exact .ok (assign rfl id name v)
  | getProgramVariable =>
    refine ends_ask_bind (fun _ => refuses_of_behaviour?) refuse fun id _ => ?_
    refine ends_ask_bind (fun _ => refuses_of_valueAs?) refuse fun name _ => ?_
    rw [HostCall.ends_bind, HostCall.ends_lift, Run.ends_world]
    exact ends_set refl put
  | sendCustomNetworkEvent =>
    refine ends_ask_bind (fun _ => refuses_of_behaviour?) refuse fun id _ => ?_
    refine ends_ask_bind (fun _ => refuses_of_value?) refuse fun raw _ => ?_
    refine ends_ask_bind (fun _ => refuses_of_networkTarget?) refuse fun scope _ => ?_
    refine ends_ask_bind (fun _ => refuses_of_valueAs?) refuse fun event _ => ?_
    rw [HostCall.ends_lift]
    exact (network rfl id scope event).mono (fun _ _ h => .ok h) fun _ h => h

end Settles

/-- The rule for built-in functions: a relation that respects what they do by themselves, the events
that they send and those that they send over the network is respected by their calls. -/
theorem run_ends_of_events {R : World → World → Prop} {call : Invocation}
    (hR : ToleratedFrom call.machine R)
    (send : ∀ id event, (World.sendEvent self id event).Ends w (fun _ => R w) cut)
    (network : ∀ id target event,
      (World.sendNetworkEvent self id target event).Ends w (fun _ => R w) cut)
    (f : BuiltIn) : (f.run self call).run.Ends w (Settles R call w) cut :=
  run_ends_of_parts (hR.refl w) (fun _ _ _ => hR.put) f (fun _ => hR.log w _ rfl)
    (fun _ => hR.setVariable w) (fun _ => send) fun _ => network

/-- The same for a relation that respects requests to the network and the runs that built-in
functions begin. -/
theorem run_ends {R : World → World → Prop} {call : Invocation}
    (hR : RespectedFrom call.machine R)
    (runs : ∀ v id b event address, R w v → v.behaviour? id = some b → b.state.isRunnable = true →
      b.entryPoint? event = some address → (self.runAt id address).Ends v (fun _ => R v) cut)
    (f : BuiltIn) : (f.run self call).run.Ends w (Settles R call w) cut := by
  have send : ∀ v id event, R w v →
      (World.sendEvent self id event).Ends v (fun _ => R w) cut := by
    intro v id event hv
    refine World.sendEvent_ends hv (hR.trans hv (hR.log _ _ rfl)) ?_
    intro b address hb hs ha
    have hrun := runs v id b event address hv hb hs ha
    exact hrun.mono (fun _ v' h => hR.trans hv h) fun _ h => h
  refine run_ends_of_events hR.toToleratedFrom (fun id event => send w id event (hR.refl w)) ?_ f
  intro id target event
  have relayed : ∀ b p, R w (w.relayFrom b p target event) := fun b p =>
    hR.relayFrom hR.relayed w b p target event
  exact World.sendNetworkEvent_ends (hR.refl w) (hR.log w) (fun b p _ => relayed b p)
    fun b p _ => send _ id event (relayed b p)

end BuiltIn

end EventVm
