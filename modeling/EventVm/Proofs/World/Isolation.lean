import EventVm.Proofs.World.Executing

/-!
# Events that are sent do not disturb the sender

A behaviour that sends an event to another one waits until the run of that one has ended, whatever
the run does and whatever runs it begins in its turn. Unless one of them is a run of the sender, or
somebody asks the sender to stop, the sender then goes on as if nothing had happened: only variables
of it may have been written (`send_isolated`).
-/

namespace EventVm

open Moment

/-! ### What disturbs a behaviour -/

/-- A run of the behaviour begins or is refused, or its machine is moved past it. -/
inductive Deed.Moves (id : BehaviourId) : Deed → Prop where
  | entered (address : UInt32) : Moves id (.entered id address)
  | refused (address : UInt32) : Moves id (.refused id address)
  | opened : Moves id (.opened (.behaviour id))
  | poked : Moves id (.poked (.behaviour id))

/-- An abort of the behaviour is requested. -/
def Deed.aborts (id : BehaviourId) : Deed → Bool
  | .aborted id' => id' == id
  | _ => false

/-- A machine after the deeds of an account that are not done by itself: variables have been written
and aborts requested. -/
def Machine.after (id : BehaviourId) (es : List (Deed × Moment)) (m : Machine) : Machine :=
  { m with
    heap := replay (.behaviour id) es m.heap
    abortRequested := m.abortRequested || es.any fun e => e.1.aborts id }

theorem Machine.after_cons (id : BehaviourId) (e : Deed × Moment) (es : List (Deed × Moment))
    (m : Machine) : m.after id (e :: es) =
      { m.after id es with
        heap := e.1.write (.behaviour id) (m.after id es).heap
        abortRequested := (m.after id es).abortRequested || e.1.aborts id } := by
  simp only [after, replay, List.foldr_cons, List.any_cons, Bool.or_comm (e.1.aborts id),
    Bool.or_assoc]

/-- A deed that neither moves a machine nor is done by it writes variables or requests an abort. -/
theorem Alters.eq_of_spared {k : Access} {o : Options} {id : BehaviourId} {d : Deed}
    {m m' : Machine} (h : Alters k o (.behaviour id) d (some m) (some m')) (hd : ¬ d.Moves id)
    (hdoer : d.doer ≠ some (.behaviour id)) (hactivated : d ≠ .activated id (.ok ())) :
    m' = { m with
      heap := d.write (.behaviour id) m.heap
      abortRequested := m.abortRequested || d.aborts id } := by
  cases h with
  | kept other =>
    have haborts : d.aborts id = false := by
      cases d with
      | aborted id' => simpa [Deed.aborts, Deed.machine] using other
      | _ => rfl
    rw [Deed.write_of_ne other, haborts, Bool.or_false]
  | aborted own =>
    cases own
    simp [Deed.write, Deed.aborts]
  | poked => exact absurd .poked hd
  | assigned own written =>
    cases own
    simp [Deed.write, Deed.aborts, written, Except.toOption]
  | put | loaded | started | stopped => exact absurd rfl hdoer
  | begun own => exact absurd (congrArg some own) hdoer
  | opened => exact absurd .opened hd
  | entered own =>
    cases own
    exact absurd (.entered _) hd
  | refused own =>
    cases own
    exact absurd (.refused _) hd
  | left own =>
    cases own
    exact absurd rfl hdoer
  | unactivated => simp [Deed.write, Deed.aborts]
  | activated own =>
    cases own
    exact absurd rfl hactivated

/-- What is so of a behaviour with a run in `outer`, inside which others have run since the world
`u`: no run of it has begun, and only variables of it have been written and aborts requested. -/
structure Spared (id : BehaviourId) (outer : List OpenRun) (u : World) (es : List (Deed × Moment))
    (c : Moment) : Prop where
  runs : ∃ above, c.runs = above ++ .waiting :: outer ∧
    ∀ run ∈ above, run.machine ≠ some (.behaviour id)
  state : c.world.state? id = u.state? id
  machine : ∃ m, u.machine? (.behaviour id) = some m ∧
    c.world.machine? (.behaviour id) = some (m.after id es)
  others : ∀ e ∈ es, e.1.doer ≠ some (.behaviour id)

section Sparing

variable {k : Access} {id : BehaviourId} {outer : List OpenRun} {u : World}
  {es : List (Deed × Moment)} {c c' : Moment} {d : Deed}

theorem Spared.actor_ne (hs : Spared id outer u es c) :
    OpenRun.actor c.runs ≠ some (.behaviour id) := by
  obtain ⟨above, hruns, habove⟩ := hs.runs
  rw [hruns]
  cases above with
  | nil => nofun
  | cons run above => exact habove run List.mem_cons_self

theorem Spared.mem_runs (hs : Spared id outer u es c) {run : OpenRun} (hrun : run ∈ outer) :
    run ∈ c.runs := by
  obtain ⟨above, hruns, -⟩ := hs.runs
  rw [hruns]
  exact List.mem_append_right _ (List.mem_cons_of_mem _ hrun)

/-- The innermost run is not one of the behaviour, so what only its runs do is not done. -/
theorem Spared.doer_ne (hs : Spared id outer u es c) (h : Step k c d c') :
    d.doer ≠ some (.behaviour id) := by
  intro hd
  obtain hnil | hactor := h.doer hd
  · obtain ⟨above, hruns, -⟩ := hs.runs
    rw [hnil] at hruns
    cases above <;> cases hruns
  · exact hs.actor_ne hactor

/-- Other runs come and go. -/
theorem Spared.runs_step (hs : Spared id outer u es c) (h : Step k c d c') (hd : ¬ d.Moves id) :
    ∃ above, c'.runs = above ++ .waiting :: outer ∧
      ∀ run ∈ above, run.machine ≠ some (.behaviour id) := by
  obtain ⟨above, hruns, habove⟩ := hs.runs
  have hstacks := h.stacks
  rw [hruns] at hstacks
  generalize hrs : above ++ .waiting :: outer = rs, hrs' : c'.runs = rs' at hstacks
  cases hstacks with
  | kept => exact ⟨above, hrs.symm, habove⟩
  | @entered id' address b m =>
    refine ⟨.entry id' address _ :: above, by rw [← hrs, List.cons_append], ?_⟩
    refine List.forall_mem_cons.2 ⟨fun hid => ?_, habove⟩
    cases hid
    exact hd (.entered address)
  | @opened r =>
    refine ⟨.direct r :: above, by rw [← hrs, List.cons_append], ?_⟩
    refine List.forall_mem_cons.2 ⟨fun hr => ?_, habove⟩
    cases hr
    exact hd .opened
  | left | stopped =>
    cases above with
    | nil => cases hrs
    | cons run above =>
      cases hrs
      exact ⟨above, rfl, fun run hrun => habove run (List.mem_cons_of_mem _ hrun)⟩

/-- What others do leaves a behaviour with a run in progress alone. -/
theorem Spared.step (hs : Spared id outer u es c) (h : Step k c d c') (hc : c.Consistent k)
    (hin : OpenRun.InProgress id outer) (hd : ¬ d.Moves id) :
    Spared id outer u ((d, c') :: es) c' := by
  obtain ⟨address, frame, hrun⟩ := hin
  replace hrun := hs.mem_runs hrun
  obtain ⟨m, hm, hm₁⟩ := hs.machine
  obtain ⟨m', hm'⟩ := h.present_of_mem hrun rfl hm₁
  have hactivated : ∀ x, d ≠ .activated id x := by
    rintro x rfl
    exact (hc.activated id _ hm₁).1 h.unloaded_of_activated
  have hdoer := hs.doer_ne h
  refine ⟨hs.runs_step h hd, ?_, ⟨m, hm, ?_⟩, List.forall_mem_cons.2 ⟨hdoer, hs.others⟩⟩
  · obtain ⟨s, hstate⟩ := World.state?_of_machine? hm₁
    obtain ⟨s', hstate'⟩ := World.state?_of_machine? hm'
    have ht := h.turns id
    rw [← hs.state, hstate, hstate']
    rw [hstate, hstate'] at ht
    cases ht with
    | kept => rfl
    | activated | unactivated => exact absurd rfl (hactivated _)
    | disabled =>
      cases h with
      | change change => cases change
      | disabled closed => exact absurd rfl (closed _ hrun)
    | entered => exact absurd (.entered _) hd
    | refused => exact absurd (.refused _) hd
    | returned | faulted => exact absurd rfl hdoer
  · have ha := h.alters (.behaviour id)
    rw [hm₁, hm'] at ha
    rw [hm', ha.eq_of_spared hd hdoer (hactivated _), Machine.after_cons]

/-- What others do in the course of an account leaves a behaviour with a run in progress alone. -/
theorem Moment.Trace.spared {base : List OpenRun} (h : Trace k base ⟨u, .waiting :: outer⟩ es c)
    (hc : Consistent k ⟨u, .waiting :: outer⟩) (hin : OpenRun.InProgress id outer)
    (hes : ∀ e ∈ es, ¬ e.1.Moves id) : Spared id outer u es c := by
  induction h with
  | nil =>
    obtain ⟨address, frame, hrun⟩ := hin
    obtain ⟨m, hm⟩ := hc.present _ (List.mem_cons_of_mem _ hrun) _ rfl
    exact ⟨⟨[], rfl, nofun⟩, rfl, ⟨m, hm, by simp [hm, Machine.after, replay]⟩,
      List.forall_mem_nil _⟩
  | next before step within ih =>
    obtain ⟨hd, hes⟩ := List.forall_mem_cons.1 hes
    exact (ih hes).step step (before.consistent hc) hin hd

end Sparing

/-! ### Written slots -/

/-- A deed that a machine does not do itself changes a slot only as a variable. -/
theorem Deed.slot?_write {d : Deed} {id : BehaviourId} {address : UInt32} {h : Heap}
    (hdoer : d.doer ≠ some (.behaviour id)) (hd : ∀ v, d ≠ .assigned id address v) :
    (d.write (.behaviour id) h).slot? address = h.slot? address := by
  unfold write
  split
  · next id' address' v =>
    split
    · next hid =>
      cases hid
      cases hset : h.set address' v with
      | error e => rfl
      | ok h' =>
        refine Heap.slot?_of_set hset ?_
        rintro rfl
        exact hd v rfl
    · rfl
  · rw [if_neg fun hr => hdoer (by rw [hr]; rfl)]
  · rfl

/-- Slots at which no variable has been written hold what they held. -/
theorem slot?_replay {id : BehaviourId} {address : UInt32} {es : List (Deed × Moment)} (h : Heap)
    (hothers : ∀ e ∈ es, e.1.doer ≠ some (.behaviour id))
    (hes : ∀ e ∈ es, ∀ v, e.1 ≠ .assigned id address v) :
    (replay (.behaviour id) es h).slot? address = h.slot? address := by
  induction es with
  | nil => rfl
  | cons e es ih =>
    obtain ⟨hdoer, hothers⟩ := List.forall_mem_cons.1 hothers
    obtain ⟨he, hes⟩ := List.forall_mem_cons.1 hes
    rw [replay, List.foldr_cons, ← replay, Deed.slot?_write hdoer he, ih hothers hes]

/-! ### Undisturbed accounts -/

/-- No run of the behaviour begins in the course of an account, not even one that is refused, and
nobody asks it to stop. -/
def Undisturbed (id : BehaviourId) (es : List (Deed × Moment)) : Prop :=
  ∀ e ∈ es, ¬ e.1.Moves id ∧ e.1.aborts id = false

theorem Machine.after_of_undisturbed {id : BehaviourId} {es : List (Deed × Moment)}
    (h : Undisturbed id es) (m : Machine) :
    m.after id es = { m with heap := replay (.behaviour id) es m.heap } := by
  have haborts : (es.any fun e => e.1.aborts id) = false := by
    rw [List.any_eq_false]
    intro e he
    rw [(h e he).2]
    nofun
  rw [after, haborts, Bool.or_false]

/-- The entry tells of a run of the behaviour, which begins or has failed. -/
def Entry.tellsOf (id : BehaviourId) : Entry → Bool
  | entered id' _ _ => id' == id
  | e => e.reports id

/-- Nothing that can be seen in `w` of what happened since `u` has disturbed the behaviour. -/
structure Untold (id : BehaviourId) (u w : World) : Prop where
  journal : ∃ new, w.journal = new ++ u.journal ∧ ∀ e ∈ new, e.tellsOf id = false
  wanted : ∀ m, w.machine? (.behaviour id) = some m → m.abortRequested = false

section Undisturbed

variable {k : Access} {id : BehaviourId} {outer : List OpenRun} {u w : World}
  {es : List (Deed × Moment)} {c c' : Moment} {d : Deed}

/-- Without direct access, the journal tells of every run. -/
theorem Moment.Step.tellsOf (h : Step k c d c') (hk : k.direct = false) (hd : d.Moves id) :
    ∃ e new, c'.world.journal = new ++ c.world.journal ∧ e ∈ new ∧ e.tellsOf id = true := by
  cases hd with
  | entered address =>
    cases h with
    | change change => cases change
    | entered =>
      exact ⟨_, [_], World.journal_enter .., List.mem_singleton_self _, by simp [Entry.tellsOf]⟩
  | refused address =>
    obtain ⟨new, hj, -, hnew, -⟩ := h.wroteFor
    have hone : new.countP (Entry.reports id) = 1 := (hnew id).trans (if_pos rfl)
    obtain ⟨e, he, hreports⟩ := List.countP_pos_iff.1 (hone ▸ Nat.one_pos)
    refine ⟨e, new, hj, he, ?_⟩
    unfold Entry.tellsOf
    split
    · cases hreports
    · exact hreports
  | opened =>
    cases h with
    | change change => cases change
    | opened direct =>
      rw [hk] at direct
      cases direct
  | poked =>
    cases h with
    | change change =>
      cases change with
      | poked r direct =>
        rw [hk] at direct
        cases direct

theorem Moment.Trace.tellsOf {base : List OpenRun} (h : Trace k base c es c')
    (hk : k.direct = false) : ∃ new, c'.world.journal = new ++ c.world.journal ∧
      ∀ e ∈ es, e.1.Moves id → ∃ entry ∈ new, entry.tellsOf id = true := by
  induction h with
  | nil => exact ⟨[], rfl, List.forall_mem_nil _⟩
  | next before step within ih =>
    obtain ⟨new, hj, hnew⟩ := ih
    obtain ⟨new', hj', -⟩ := step.wroteFor
    refine ⟨new' ++ new, by rw [hj', hj, List.append_assoc], List.forall_mem_cons.2 ⟨?_, ?_⟩⟩
    · intro hd
      obtain ⟨entry, new'', hj'', hentry, htells⟩ := step.tellsOf hk hd
      obtain rfl := List.append_cancel_right (hj''.symm.trans hj')
      exact ⟨entry, List.mem_append_left _ hentry, htells⟩
    · intro e he hd
      obtain ⟨entry, hentry, htells⟩ := hnew e he hd
      exact ⟨entry, List.mem_append_right _ hentry, htells⟩

/-- Without direct access, whatever disturbs a behaviour can be seen afterwards. -/
theorem Moment.Trace.undisturbed {base : List OpenRun}
    (h : Trace k base ⟨u, .waiting :: outer⟩ es c) (hk : k.direct = false)
    (hc : Consistent k ⟨u, .waiting :: outer⟩) (hin : OpenRun.InProgress id outer)
    (hu : Untold id u c.world) : Undisturbed id es := by
  have hmoves : ∀ e ∈ es, ¬ e.1.Moves id := by
    intro e he hd
    obtain ⟨new, hj, hnew⟩ := h.tellsOf hk
    obtain ⟨new', hj', hnew'⟩ := hu.journal
    obtain rfl := List.append_cancel_right (hj.symm.trans hj')
    obtain ⟨entry, hentry, htells⟩ := hnew e he hd
    rw [hnew' entry hentry] at htells
    cases htells
  obtain ⟨m, -, hm⟩ := (h.spared hc hin hmoves).machine
  have hwanted := hu.wanted _ hm
  simp only [Machine.after, Bool.or_eq_false_iff, List.any_eq_false, Bool.not_eq_true] at hwanted
  exact fun e he => ⟨hmoves e he, hwanted.2 e he⟩

end Undisturbed

/-! ### Sending -/

/-- The call is one of a built-in function that sends an event to `target`, which the world still
finds, and its arguments have the right types. -/
inductive Invocation.SendsTo (call : Invocation) (w : World) (target : BehaviourId) :
    BuiltIn → Prop where
  | event {event : String} (receiver : call.behaviour? w 0 = .ok target)
    (named : call.valueAs? w .string text? 1 = .ok event) :
    SendsTo call w target .sendCustomEvent
  | network {raw : Value} {scope : NetworkTarget} {event : String}
    (receiver : call.behaviour? w 0 = .ok target) (given : call.value? w 1 = .ok raw)
    (receivers : networkTarget? 1 raw = .ok scope)
    (named : call.valueAs? w .string text? 2 = .ok event) :
    SendsTo call w target .sendCustomNetworkEvent

/-- The world in which the machine `r` has begun the call that was due. -/
def World.begun (w : World) (r : MachineRef) (code : Bytes) (operand : UInt32) : World :=
  (w.note (.boundary (w.boundary r code))).begin
    ⟨r, (w.machine r).pc, .call, operand, w.current⟩

/-- The world in which the machine `r` enters the function that it calls: the arguments have been
taken off the stack. -/
def World.calling (w : World) (r : MachineRef) (code : Bytes) (operand : UInt32)
    (stack : OperandStack) : World :=
  (w.begun r code operand).mapMachine (fun m => { m with stack }) r

/-- When a call has been begun, only the program counter of the machine has changed. -/
theorem World.apply_machine_begun {α : Type} {w : World} (r : MachineRef) (code : Bytes)
    (operand : UInt32) (g : Machine → α) (hg : ∀ m pc, g { m with pc } = g m) :
    g ((w.begun r code operand).machine r) = g (w.machine r) := by
  rw [begun, begin, apply_machine_mapMachine g _ (fun m => hg m _), machine_note, machine_note]

theorem World.popMany_begun {w : World} (r : MachineRef) (code : Bytes) (operand : UInt32)
    (n : Nat) : ((w.begun r code operand).machine r).stack.popMany n =
      (w.machine r).stack.popMany n :=
  apply_machine_begun r code operand (·.stack.popMany n) fun _ _ => rfl

/-- In the world `w` an instruction of the machine `r` is due that sends an event to `target`. The
world `u` is the one in which the function is entered. -/
inductive Sending (code : Bytes) (r : MachineRef) (target : BehaviourId) (w : World) :
    World → Prop where
  | call {operand : UInt32} {signature : String} {f : BuiltIn} {args : List UInt32}
    {stack : OperandStack} (runs : (w.machine r).Runs) (due : (w.machine r).pc ≠ haltAddress)
    (fetched : Machine.fetch code (w.machine r).pc = .ok (.call, operand))
    (named : (w.machine r).readAs .string Value.string? operand = .ok signature)
    (found : w.functions.get? signature = some (.builtIn f))
    (popped : (w.machine r).stack.popMany f.arity = .ok (args, stack))
    (sends : Invocation.SendsTo ⟨r, signature, args⟩ (w.calling r code operand stack) target f) :
    Sending code r target w (w.calling r code operand stack)

section Sending

variable {self : Reentry} {code : Bytes} {r : MachineRef} {target : BehaviourId} {w u : World}
  {cut : World → Prop}

/-- A host call whose function is found and whose arguments are there ends as the function does. -/
theorem World.callFunction_ends_of_found {operand : UInt32} {signature : String} {f : HostFunction}
    {args : List UInt32} {stack : OperandStack} {done : Except VmError Unit → World → Prop}
    (named : (w.machine r).readAs .string Value.string? operand = .ok signature)
    (found : w.functions.get? signature = some f)
    (popped : (w.machine r).stack.popMany f.arity = .ok (args, stack))
    (h : (f.run self ⟨r, signature, args⟩).run.Ends (w.mapMachine (fun m => { m with stack }) r)
      (fun x => done (x.mapError (.function signature))) cut) :
    (callFunction self r operand).Ends w done cut := by
  unfold Run.Ends callFunction
  rw [named]
  dsimp only
  rw [found]
  dsimp only
  rw [popped]
  dsimp only
  unfold Run.Ends at h
  split at h
  · next x w' hx =>
    rw [hx]
    cases x <;> exact h
  · next hx =>
    rw [hx]
    exact h

/-- A function that sends an event does so. -/
theorem Invocation.SendsTo.ends {call : Invocation} {f : BuiltIn}
    {done : Except HostError Unit → World → Prop} (h : call.SendsTo u target f)
    (event : ∀ event, (World.sendEvent self target event).Ends u (fun _ => done (.ok ())) cut)
    (network : ∀ scope event,
      (World.sendNetworkEvent self target scope event).Ends u (fun _ => done (.ok ())) cut) :
    (f.run self call).run.Ends u done cut := by
  cases h with
  | event receiver named =>
    simp only [BuiltIn.run, getBehaviour, getString, HostCall.ends_bind, HostCall.ends_ask,
      receiver, named, HostCall.ends_lift]
    exact event _
  | network receiver given receivers named =>
    simp only [BuiltIn.run, getBehaviour, getString, Invocation.get, HostCall.ends_bind,
      HostCall.ends_ask, receiver, given, receivers, named, HostCall.ends_lift]
    exact network _ _

/-- An instruction that calls a function ends as the function does. -/
theorem World.step_ends_of_called {operand : UInt32} {signature : String} {f : HostFunction}
    {args : List UInt32} {stack : OperandStack} {done : Except VmError Unit → World → Prop}
    (fetched : Machine.fetch code (w.machine r).pc = .ok (.call, operand))
    (named : (w.machine r).readAs .string Value.string? operand = .ok signature)
    (found : w.functions.get? signature = some f)
    (popped : (w.machine r).stack.popMany f.arity = .ok (args, stack))
    (h : (f.run self ⟨r, signature, args⟩).run.Ends (w.calling r code operand stack)
      (fun x => done (x.mapError (.function signature))) cut) :
    (step self r code (w.machine r).pc).Ends (w.note (.boundary (w.boundary r code))) done cut := by
  refine step_ends (fun e hf => ?_) (fun op operand' x m hf hop => ?_) fun operand' hf => ?_
  · rw [fetched] at hf
    cases hf
  · rw [fetched] at hf
    cases hf
    exact absurd rfl hop
  · rw [fetched] at hf
    cases hf
    have hnamed : ((w.begun r code operand).machine r).readAs .string Value.string? operand =
        .ok signature :=
      (apply_machine_begun r code operand (·.readAs .string Value.string? operand)
        fun _ _ => rfl).trans named
    have hfound : (w.begun r code operand).functions.get? signature = some f := by
      rw [begun, begin, functions_mapMachine]
      exact found
    have hpopped := (popMany_begun r code operand f.arity).trans popped
    exact callFunction_ends_of_found hnamed hfound hpopped h

/-- An instruction that sends an event succeeds, whatever comes of the event. -/
theorem Sending.step_ends {done : Except VmError Unit → World → Prop}
    (h : Sending code r target w u)
    (event : ∀ event, (World.sendEvent self target event).Ends u (fun _ => done (.ok ())) cut)
    (network : ∀ scope event,
      (World.sendNetworkEvent self target scope event).Ends u (fun _ => done (.ok ())) cut) :
    (World.step self r code (w.machine r).pc).Ends (w.note (.boundary (w.boundary r code))) done
      cut := by
  cases h with
  | call runs due fetched named found popped sends =>
    exact World.step_ends_of_called fetched named found popped (sends.ends event network)

end Sending

/-! ### The sender goes on -/

/-- What has become of a behaviour that entered the function in the world `u` and that the account
`later` has not disturbed, when the instruction that was due in `w` has ended in `w'`. -/
structure Resumes (k : Access) (fuel : Nat) (code : Bytes) (id : BehaviourId)
    (later : List (Deed × Moment)) (w u w' : World) : Prop where
  state : w'.state? id = w.state? id
  executing : k.direct = false → w'.state? id = some .executing
  /-- Nothing of the machine has changed but the heap. -/
  machine : ∃ m, u.machine? (.behaviour id) = some m ∧
    w'.machine? (.behaviour id) = some { m with heap := replay (.behaviour id) later m.heap }
  /-- On the heap, nothing has changed but written variables. -/
  slots : ∀ address, (∀ e ∈ later, ∀ v, e.1 ≠ .assigned id address v) →
    (w'.machine (.behaviour id)).heap.slot? address = (u.machine (.behaviour id)).heap.slot? address
  /-- The run goes on with the next instruction. -/
  runs : (w'.machine (.behaviour id)).Runs
  next : ∀ n, World.runLoop (World.reentry fuel) (.behaviour id) code (n + 1) w =
    World.runLoop (World.reentry fuel) (.behaviour id) code n w'

section Isolation

variable {k : Access} {id target : BehaviourId} {outer : List OpenRun} {w u w' : World}
  {code : Bytes} {later : List (Deed × Moment)}

theorem Sending.machine_runs {r : MachineRef} (h : Sending code r target w u) :
    (w.machine r).Runs ∧ (w.machine r).pc ≠ haltAddress := by
  cases h with
  | call runs due => exact ⟨runs, due⟩

/-- Entering the function is a deed of the machine. -/
theorem Sending.accounted {r : MachineRef} {rs : List OpenRun} (h : Sending code r target w u)
    (hactor : OpenRun.actor rs = some r) : Accounted k rs w u := by
  cases h with
  | @call operand signature f args stack runs due fetched named found popped sends =>
    have hnoted : Step k ⟨w, rs⟩ (.noted (.boundary (w.boundary r code)))
        ⟨w.note (.boundary (w.boundary r code)), rs⟩ := .change (.noted rfl)
    have hpopped := (World.popMany_begun r code operand f.arity).trans popped
    have hbegun : (w.note (.boundary (w.boundary r code))).Change k (OpenRun.actor rs)
        (.begun ⟨r, (w.machine r).pc, .call, operand, w.current⟩)
        (w.calling r code operand stack) := by
      refine .begun hactor ?_ ?_ (.called rfl hpopped)
      · rwa [World.machine_note]
      · rw [World.machine_note]
    exact (Accounted.of_step hnoted).trans (.of_step (.change hbegun))

/-- A moment stays consistent when a run waits for a function. -/
theorem Moment.Consistent.wait {rs : List OpenRun} (h : Consistent k ⟨w, rs⟩) :
    Consistent k ⟨w, .waiting :: rs⟩ where
  present := by
    intro run hrun r hr
    obtain rfl | hrun := List.mem_cons.1 hrun
    · cases hr
    · exact h.present run hrun r hr
  runnable := by
    intro id address frame hrun
    obtain heq | hrun := List.mem_cons.1 hrun
    · cases heq
    · exact h.runnable id address frame hrun
  activated := h.activated
  known := h.known
  permits := h.permits

/-- Entering the function leaves the state of the behaviour alone, and its machine goes on. -/
theorem Sending.entered {r : MachineRef} (h : Sending code r target w u) (id : BehaviourId) :
    u.state? id = w.state? id ∧ (u.machine r).Runs := by
  have hruns := h.machine_runs.1
  cases h with
  | call =>
    constructor
    · rw [World.calling, World.state?_mapMachine, World.begun, World.begin, World.state?_mapMachine,
        World.state?_note, World.state?_note]
    · refine World.runs_mapMachine ?_ rfl rfl
      refine World.runs_begin ?_ _
      rwa [World.machine_note]

/-- Machines that go on are not faulted. -/
theorem not_faultedAt {m : Machine} (hm : w.machine? (.behaviour id) = some m)
    (hruns : (w.machine (.behaviour id)).Runs) : ¬ FaultedAt id w := by
  intro hf
  have hsound := hruns.sound
  rw [World.machine_of_machine? hm, hf m hm] at hsound
  cases hsound

/-- A loop goes on from where the instruction has ended that was due. -/
theorem runLoop_of_step {self : Reentry} {r : MachineRef} (hruns : (w.machine r).Runs)
    (hdue : (w.machine r).pc ≠ haltAddress)
    (hstep : World.step self r code (w.machine r).pc (w.note (.boundary (w.boundary r code))) =
      .ok (.ok ()) w') (n : Nat) :
    World.runLoop self r code (n + 1) w = World.runLoop self r code n w' := by
  rw [World.runLoop_of_due ⟨hruns, hdue⟩, hstep]

/-- A run of a behaviour sends an event to another one, or to itself. The instruction succeeds
whatever comes of the event, and there is an account of that. If the account says that the sender
has not been disturbed, which the journal tells unless there is direct access to machines, then the
sender goes on as if nothing had happened, but for variables that have been written. -/
theorem send_isolated {o : Options} {es : List (Deed × Moment)} {address : UInt32}
    {frame : World.Frame} {fuel : Nat} {x : Except VmError Unit}
    (htrace : Trace k [] (start o) es ⟨w, .entry id address frame :: outer⟩)
    (hsend : Sending code (.behaviour id) target w u)
    (hstep : World.step (World.reentry fuel) (.behaviour id) code (w.machine (.behaviour id)).pc
      (w.note (.boundary (w.boundary (.behaviour id) code))) = .ok x w') :
    let runs := .waiting :: .entry id address frame :: outer
    x = .ok () ∧ (∃ later, Trace k runs ⟨u, runs⟩ later ⟨w', runs⟩) ∧
      ∀ later, Trace k runs ⟨u, runs⟩ later ⟨w', runs⟩ →
        (k.direct = false → Untold id u w' → Undisturbed id later) ∧
        (Undisturbed id later → Resumes k fuel code id later w u w') := by
  intro runs
  have hc := htrace.consistent (consistent_start k o)
  have hentered : Accounted k (.entry id address frame :: outer) w u := hsend.accounted rfl
  have hu : Consistent k ⟨u, runs⟩ := (hentered.consistent hc).wait
  have hin : OpenRun.InProgress id (.entry id address frame :: outer) :=
    ⟨address, frame, List.mem_cons_self⟩
  have hends : (World.step (World.reentry fuel) (.behaviour id) code
      (w.machine (.behaviour id)).pc).Ends (w.note (.boundary (w.boundary (.behaviour id) code)))
      (fun x w' => x = .ok () ∧ Accounted k runs u w') (BegunAccounted k runs u) := by
    have hsteady := steady_accounted k runs
    have hself := accounted_reentry k fuel runs
    refine hsend.step_ends (fun event => ?_) fun scope event => ?_
    · exact (hsteady.sendEvent hself target event u hu).mono (fun _ _ h => ⟨rfl, h⟩) fun _ h => h
    · exact (hsteady.sendNetworkEvent hself target scope event u hu).mono (fun _ _ h => ⟨rfl, h⟩)
        fun _ h => h
  obtain ⟨rfl, haccount⟩ := hends.of_ok hstep
  refine ⟨rfl, haccount, fun later hlater => ⟨fun hk htold => ?_, fun hquiet => ?_⟩⟩
  · exact hlater.undisturbed hk hu hin htold
  · have hspared := hlater.spared hu hin fun e he => (hquiet e he).1
    obtain ⟨hstate, hruns⟩ := hsend.entered id
    obtain ⟨m, hm, hm'⟩ := hspared.machine
    rw [Machine.after_of_undisturbed hquiet] at hm'
    have hstate' : w'.state? id = w.state? id := hspared.state.trans hstate
    refine ⟨hstate', fun hk => ?_, ⟨m, hm, hm'⟩, fun slot hslot => ?_, ?_, ?_⟩
    · obtain ⟨m₀, hm₀⟩ := hc.present _ List.mem_cons_self _ rfl
      rw [hstate']
      exact ((htrace.executing hk).state id hin).resolve_right
        (not_faultedAt hm₀ hsend.machine_runs.1)
    · rw [World.machine_of_machine? hm, World.machine_of_machine? hm']
      exact slot?_replay m.heap hspared.others hslot
    · rw [World.machine_of_machine? hm] at hruns
      rw [World.machine_of_machine? hm']
      exact hruns.congr rfl rfl
    · exact runLoop_of_step hsend.machine_runs.1 hsend.machine_runs.2 hstep

end Isolation

/-! ### A receiver that fails -/

/-- Code that sends the event named at address 1 to the behaviour at address 0, the signature of the
function being at address 2. -/
def sendingCode : Bytes :=
  Instruction.encodeWords .push (some 0) ++ Instruction.encodeWords .push (some 1) ++
    Instruction.encodeWords .call (some 2)

/-- A world with two behaviours. The first one sends an event to the second one, whose handler takes
an address off the empty stack. -/
def newDuet : World :=
  let sender := { Program.empty "sender" with
    heap := ⟨[⟨.behaviour, .value (.object (BehaviourId.toRef ⟨2⟩))⟩,
      ⟨.string, .value (.string "fail")⟩,
      ⟨.string, .value (.string BuiltIn.sendCustomEvent.signature)⟩]⟩
    code := sendingCode }
  let receiver := { Program.empty "receiver" with
    code := Instruction.encodeWords .pop none
    entryPoints := .ofList [⟨"fail", 0, .object, true⟩] (by simp) }
  ((World.new .default).addBehaviour (.of 100 101) (some sender)).addBehaviour (.of 102 103)
    (some receiver)

/-- The world in which both have been activated. -/
def duet : World :=
  let activate (id : BehaviourId) : Run Outcome := World.operate 1 id .activate
  (((activate ⟨1⟩).after? newDuet).bind (activate ⟨2⟩).after?).getD newDuet

/-- The first behaviour carries out an instruction that pushes an address. -/
def pushing (w : World) (address : UInt32) : World :=
  let w' := w.begin
    ⟨.behaviour ⟨1⟩, (w.machine (.behaviour ⟨1⟩)).pc, .push, address, w.current⟩
  let pushed := (Machine.Action.execute .push address).outcome (w'.machine (.behaviour ⟨1⟩))
  w'.mapMachine (fun _ => pushed.2) (.behaviour ⟨1⟩)

/-- The moment when the event is due to be sent. -/
def sendingDuet : World :=
  pushing (pushing (duet.enter ⟨1⟩ 0) 0) 1

/-- The stack without the arguments. -/
def sendingStack : OperandStack :=
  ((sendingDuet.machine (.behaviour ⟨1⟩)).stack.popMany 2).toOption.elim (.new 0) Prod.snd

/-- The function of the machine itself that is registered. -/
def HostFunction.builtIn? : HostFunction → Option BuiltIn
  | .builtIn f => some f
  | .script .. => none

section Duet

variable {k : Access}

theorem history_duet : History k .default duet := by
  let activate (id : BehaviourId) : Run Outcome := World.operate 1 id .activate
  have hactivated : (((activate ⟨1⟩).after? newDuet).bind (activate ⟨2⟩).after?).isSome = true := by
    decide +kernel
  obtain ⟨w, hw⟩ := Option.isSome_iff_exists.1 hactivated
  have hduet : duet = w := congrArg (·.getD newDuet) hw
  obtain ⟨v, hv, hw⟩ := Option.bind_eq_some_iff.1 hw
  obtain ⟨_, hv⟩ := Run.of_after? hv
  obtain ⟨_, hw⟩ := Run.of_after? hw
  have hact : ∀ id, HostAct k (activate id) := fun id => .operate 1 id (.inr rfl)
  have hnew : History k .default newDuet :=
    .act (.act .new (.create _ _) rfl) (.create _ _) rfl
  rw [hduet]
  exact (hnew.act (hact ⟨1⟩) hv).act (hact ⟨2⟩) hw

theorem account_pushing {w : World} (address : UInt32) {address' : UInt32} {frame : World.Frame}
    (hruns : (w.machine (.behaviour ⟨1⟩)).Runs) :
    Accounted k [.entry ⟨1⟩ address' frame] w (pushing w address) := by
  have hbegun : w.Change k (some (.behaviour ⟨1⟩))
      (.begun ⟨.behaviour ⟨1⟩, (w.machine (.behaviour ⟨1⟩)).pc, .push, address, w.current⟩)
      (pushing w address) :=
    .begun rfl hruns rfl (.alone nofun (Machine.effect_execute ..))
  exact .of_step (.change hbegun)

/-- A host can get to the moment when the event is due to be sent. -/
theorem account_sendingDuet (k : Access) : ∃ frame es,
    Trace k [] (start .default) es ⟨sendingDuet, [.entry ⟨1⟩ 0 frame]⟩ := by
  have hready : (duet.behaviour? ⟨1⟩).any (fun b => b.machine.isSome && b.state.isRunnable) =
      true := by
    decide +kernel
  obtain ⟨b, hb, hready⟩ := (Option.any_eq_true _ _).1 hready
  obtain ⟨hmachine, hrunnable⟩ := Bool.and_eq_true_iff.1 hready
  obtain ⟨m, hm⟩ := Option.isSome_iff_exists.1 hmachine
  obtain ⟨es, hes⟩ := history_duet (k := k).account
  have hentered : Step k ⟨duet, []⟩ (.entered ⟨1⟩ 0)
      ⟨duet.enter ⟨1⟩ 0, [.entry ⟨1⟩ 0 (duet.frame b m)]⟩ :=
    .entered 0 hb hm hrunnable (by decide +kernel)
  have hfirst : Accounted k [.entry ⟨1⟩ 0 (duet.frame b m)] (duet.enter ⟨1⟩ 0)
      (pushing (duet.enter ⟨1⟩ 0) 0) :=
    account_pushing 0 ⟨by decide +kernel, by decide +kernel⟩
  obtain ⟨es', hes'⟩ := hfirst.trans
    (account_pushing 1 ⟨by decide +kernel, by decide +kernel⟩)
  exact ⟨_, _, (hes.next hentered (List.nil_suffix)).trans (hes'.mono List.nil_suffix)⟩

theorem sending_duet : Sending sendingCode (.behaviour ⟨1⟩) ⟨2⟩ sendingDuet
    (sendingDuet.calling (.behaviour ⟨1⟩) sendingCode 2 sendingStack) := by
  have hfound : (sendingDuet.functions.get? BuiltIn.sendCustomEvent.signature).bind
      HostFunction.builtIn? = some .sendCustomEvent := by
    decide +kernel
  obtain ⟨f, hf, hbuiltIn⟩ := Option.bind_eq_some_iff.1 hfound
  have hpopped : ((sendingDuet.machine (.behaviour ⟨1⟩)).stack.popMany 2).toOption.map Prod.fst =
      some [0, 1] := by
    decide +kernel
  have hnamed : (sendingDuet.machine (.behaviour ⟨1⟩)).readAs .string Value.string? 2 =
      .ok BuiltIn.sendCustomEvent.signature := by
    decide +kernel
  have hsends : Invocation.SendsTo ⟨.behaviour ⟨1⟩, BuiltIn.sendCustomEvent.signature, [0, 1]⟩
      (sendingDuet.calling (.behaviour ⟨1⟩) sendingCode 2 sendingStack) ⟨2⟩ .sendCustomEvent := by
    have hevent : Invocation.valueAs? ⟨.behaviour ⟨1⟩, BuiltIn.sendCustomEvent.signature, [0, 1]⟩
        (sendingDuet.calling (.behaviour ⟨1⟩) sendingCode 2 sendingStack) .string
        Invocation.text? 1 = .ok "fail" := by
      decide +kernel
    exact .event (by decide +kernel) hevent
  refine .call ⟨by decide +kernel, by decide +kernel⟩ (by decide +kernel) (by decide +kernel)
    hnamed ?_ ?_ hsends
  · cases f with
    | builtIn f =>
      rw [hf]
      exact congrArg (fun f => some (HostFunction.builtIn f)) (Option.some.inj hbuiltIn)
    | script => cases hbuiltIn
  · obtain ⟨⟨args, stack⟩, hpopped, rfl⟩ := Option.map_eq_some_iff.1 hpopped
    have hstack : sendingStack = stack := by
      rw [sendingStack, hpopped]
      rfl
    rw [hstack]
    exact toOption_eq_some.1 hpopped

/-- A receiver that fails: the sender goes on. -/
theorem send_isolated_fault : ∃ w u w' later, Sending sendingCode (.behaviour ⟨1⟩) ⟨2⟩ w u ∧
    w'.state? ⟨2⟩ = some .faulted ∧ Resumes ⟨false, false⟩ 3 sendingCode ⟨1⟩ later w u w' := by
  let u := sendingDuet.calling (.behaviour ⟨1⟩) sendingCode 2 sendingStack
  let send : Run (Except VmError Unit) := World.step (World.reentry 3) (.behaviour ⟨1⟩) sendingCode
    (sendingDuet.machine (.behaviour ⟨1⟩)).pc
  have hrun : (send.after? (sendingDuet.note
      (.boundary (sendingDuet.boundary (.behaviour ⟨1⟩) sendingCode)))).any (fun w' =>
        w'.state? ⟨2⟩ = some .faulted ∧
        (w'.journal.take (w'.journal.length - u.journal.length)).all (!Entry.tellsOf ⟨1⟩ ·) ∧
        (w'.machine? (.behaviour ⟨1⟩)).all (!·.abortRequested)) = true := by
    decide +kernel
  obtain ⟨w', hw', hends⟩ := (Option.any_eq_true _ _).1 hrun
  obtain ⟨hfaulted, htold, hwanted⟩ := of_decide_eq_true hends
  obtain ⟨x, hstep⟩ := Run.of_after? hw'
  obtain ⟨frame, es, htrace⟩ := account_sendingDuet ⟨false, false⟩
  obtain ⟨-, ⟨later, hlater⟩, hall⟩ := send_isolated htrace sending_duet hstep
  obtain ⟨hundisturbed, hresumes⟩ := hall later hlater
  obtain ⟨new, hj, -⟩ := hlater.journal
  have huntold : Untold ⟨1⟩ u w' := by
    refine ⟨⟨new, hj, fun e he => ?_⟩, fun m hm => ?_⟩
    · have hnew : w'.journal.take (w'.journal.length - u.journal.length) = new := by
        rw [hj, List.length_append, Nat.add_sub_cancel, List.take_left]
      rw [hnew] at htold
      simpa using List.all_eq_true.1 htold e he
    · rw [hm] at hwanted
      simpa using hwanted
  exact ⟨_, _, w', later, sending_duet, hfaulted, hresumes (hundisturbed rfl huntold)⟩

end Duet

end EventVm
