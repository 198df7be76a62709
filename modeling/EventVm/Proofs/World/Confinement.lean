import EventVm.Proofs.World.Grafts

/-!
# Runs that keep to their behaviour

A built-in function is local if it begins no run, hands nothing to the network and writes no
variable by its name. A run whose calls are local

* changes nothing but its behaviour and the journal (`World.runAt_touches`);
* does the same whatever becomes of a behaviour whose variables it does not read
  (`World.runAt_follows`).

So two such runs of different behaviours can be made in either order (`World.runAt_confined`).
-/

namespace EventVm

/-! ### Local functions -/

/-- The function begins no run, hands nothing to the network and writes no variable by its name. -/
def BuiltIn.isLocal : BuiltIn → Bool
  | sendCustomEvent | sendCustomNetworkEvent | setProgramVariable => false
  | int32Addition | int32Subtraction | int32LessThan | int32Equality | booleanNegation
  | singleAddition | stringConcat | debugLog | getProgramVariable => true

/-- The function is a local built-in one. -/
def HostFunction.isLocal (f : HostFunction) : Bool :=
  f.builtIn?.any BuiltIn.isLocal

namespace FunctionEntry

/-- The function reads a variable of the behaviour `id`. -/
def Reads (id : BehaviourId) (e : FunctionEntry) : Prop :=
  e.function.builtIn? = some .getProgramVariable ∧ e.call.behaviour? e.world 0 = .ok id

instance (id : BehaviourId) (e : FunctionEntry) : Decidable (e.Reads id) :=
  inferInstanceAs (Decidable (_ ∧ _))

/-- The function has nothing to do with the behaviour `id`. -/
structure Spares (id : BehaviourId) (e : FunctionEntry) : Prop where
  isLocal : e.function.isLocal = true
  unread : ¬ e.Reads id

/-- The same entry in a grafted world. -/
def graft (e : FunctionEntry) (id : BehaviourId) (s : Reshaping) (older : List Entry) :
    FunctionEntry :=
  { e with world := e.world.graft id s older }

end FunctionEntry

section Local

variable {self : Reentry} {w : World} {id : BehaviourId} {s : Reshaping} {older : List Entry}
  {r : MachineRef} {code : Bytes}

theorem BuiltIn.follows {call : Invocation} {f : BuiltIn} (hl : f.isLocal = true)
    (hr : call.machine ≠ .behaviour id)
    (hread : f = .getProgramVariable → call.behaviour? w 0 ≠ .ok id) :
    (f.run self call).run.Follows (·.graft id s older) w := by
  cases f with
  | int32Addition | int32Subtraction | int32LessThan | int32Equality | singleAddition
  | stringConcat =>
    refine Invocation.follows_ask_bind (Invocation.valueAs?_graft hr) fun a _ => ?_
    refine Invocation.follows_ask_bind (Invocation.valueAs?_graft hr) fun b _ => ?_
    exact Invocation.follows_set hr
  | booleanNegation =>
    refine Invocation.follows_ask_bind (Invocation.valueAs?_graft hr) fun b _ => ?_
    exact Invocation.follows_set hr
  | debugLog => exact Invocation.follows_ask_bind (Invocation.value?_graft hr) fun v _ => rfl
  | getProgramVariable =>
    refine Invocation.follows_ask_bind (Invocation.behaviour?_graft hr) fun target htarget => ?_
    refine Invocation.follows_ask_bind (Invocation.valueAs?_graft hr) fun name _ => ?_
    have hne : target ≠ id := by
      rintro rfl
      exact hread rfl htarget
    have hsame : (w.graft id s older).getVariable target name = w.getVariable target name := by
      simp only [World.getVariable, World.behaviour?_graft_of_ne hne]
    refine Invocation.follows_world_bind (by rw [hsame]) ?_
    exact Invocation.follows_set hr
  | sendCustomEvent | sendCustomNetworkEvent | setProgramVariable => cases hl

/-! ### What a run of another behaviour does -/

namespace World

theorem functionEntry_graft (hr : r ≠ .behaviour id) (operand : UInt32) :
    (w.graft id s older).functionEntry r operand =
      (w.functionEntry r operand).map (·.graft id s older) := by
  simp only [functionEntry, machine_graft hr, functions_graft, mapMachine_graft hr]
  cases (w.machine r).readAs .string Value.string? operand with
  | error x => rfl
  | ok signature =>
    simp only [bind, Except.bind]
    cases w.functions.get? signature with
    | none => rfl
    | some f =>
      simp only
      cases (w.machine r).stack.popMany f.arity <;> rfl

theorem begun_graft (hr : r ≠ .behaviour id) (operand : UInt32) :
    (w.graft id s older).begun r code operand = (w.begun r code operand).graft id s older := by
  simp only [begun, begin, boundary_graft hr, machine_graft hr, note_graft, mapMachine_graft hr,
    current_graft]

theorem entering?_graft (hr : r ≠ .behaviour id) :
    entering? r code (w.graft id s older) = (entering? r code w).map (·.graft id s older) := by
  unfold entering?
  rw [machine_graft hr]
  split
  · rw [begun_graft hr, functionEntry_graft hr]
    cases (w.begun r code _).functionEntry r _ <;> rfl
  · rfl

end World

theorem FunctionEntry.spares_graft {e : FunctionEntry} (hr : e.call.machine ≠ .behaviour id) :
    (e.graft id s older).Spares id ↔ e.Spares id := by
  have hreads : (e.graft id s older).Reads id ↔ e.Reads id := by
    simp only [Reads, graft, Invocation.behaviour?_graft hr]
  constructor
  · exact fun h => ⟨h.isLocal, fun hread => h.unread (hreads.2 hread)⟩
  · exact fun h => ⟨h.isLocal, fun hread => h.unread (hreads.1 hread)⟩

theorem FunctionEntry.follows {e : FunctionEntry} (hr : e.call.machine ≠ .behaviour id)
    (h : e.Spares id) : (e.run self).Follows (·.graft id s older) e.world := by
  obtain ⟨function, call, world⟩ := e
  cases function with
  | script => cases h.isLocal
  | builtIn f =>
    refine Run.follows_map _ (BuiltIn.follows h.isLocal hr ?_)
    rintro rfl hread
    exact h.unread ⟨rfl, hread⟩

namespace World

theorem callFunction_follows (hr : r ≠ .behaviour id) {operand : UInt32}
    (h : ∀ e, w.functionEntry r operand = .ok e → e.Spares id) :
    (callFunction self r operand).Follows (·.graft id s older) w := by
  unfold Run.Follows
  rw [callFunction_eq, callFunction_eq, functionEntry_graft hr]
  cases he : w.functionEntry r operand with
  | error x => rfl
  | ok e =>
    have hmachine := machine_of_functionEntry he
    exact FunctionEntry.follows (hmachine ▸ hr) (h e he)

theorem step_follows (hr : r ≠ .behaviour id) (h : ∀ e, entering? r code w = some e → e.Spares id) :
    (step self r code (w.machine r).pc).Follows (·.graft id s older)
      (w.note (.boundary (w.boundary r code))) := by
  unfold Run.Follows step
  cases hf : Machine.fetch code (w.machine r).pc with
  | error x => rfl
  | ok fetched =>
    obtain ⟨op, operand⟩ := fetched
    simp only [note_graft, current_graft, mapMachine_graft hr]
    by_cases hop : op = .call
    · subst hop
      simp only [if_true]
      refine callFunction_follows hr fun e he => h e ?_
      rw [entering?, hf]
      exact toOption_eq_some.2 he
    · simp only [if_neg hop, act_eq, machine_graft hr, mapMachine_graft hr]

theorem due_graft (hr : r ≠ .behaviour id) : (w.graft id s older).Due r ↔ w.Due r := by
  rw [Due, machine_graft hr, Due]

/-- A loop that has ended does the same in the grafted world. -/
theorem runLoop_follows_of_not_due (hr : r ≠ .behaviour id) (h : ¬ w.Due r) (fuel : Nat) :
    (runLoop self r code fuel).Follows (·.graft id s older) w := by
  cases fuel with
  | zero => rfl
  | succ fuel =>
    unfold Run.Follows runLoop
    simp only [note_graft, boundary_graft hr, machine_note, machine_graft hr, mapMachine_graft hr]
    by_cases hf : (w.machine r).faulted = true
    · simp only [hf, if_true]
    · by_cases ha : (w.machine r).abortRequested = true
      · simp only [hf, ha, if_true, Bool.false_eq_true, if_false]
      · have hp : (w.machine r).pc = haltAddress := by
          by_contra hp
          exact h ⟨⟨by simpa using hf, by simpa using ha⟩, hp⟩
        simp only [hf, ha, hp, if_true, Bool.false_eq_true, if_false]

/-- A loop does the same in the grafted world if its calls have nothing to do with the graft, in the
one world or in the other. -/
theorem runLoop_follows (hr : r ≠ .behaviour id) {fuel : Nat}
    (h : (∀ e ∈ loopCalls self r code fuel w, e.Spares id) ∨
      ∀ e ∈ loopCalls self r code fuel (w.graft id s older), e.Spares id) :
    (runLoop self r code fuel).Follows (·.graft id s older) w ∧
      loopCalls self r code fuel (w.graft id s older) =
        (loopCalls self r code fuel w).map (·.graft id s older) := by
  induction fuel generalizing w with
  | zero => exact ⟨rfl, rfl⟩
  | succ fuel ih =>
    by_cases hdue : w.Due r
    · have hdue' : (w.graft id s older).Due r := (due_graft hr).2 hdue
      rw [loopCalls_of_due hdue, loopCalls_of_due hdue', machine_graft hr, boundary_graft hr,
        note_graft] at h ⊢
      -- Whether the first call has to do with the graft can be seen in either world.
      have hentry : ∀ e, entering? r code w = some e → e.Spares id := by
        intro e he
        have hmachine := machine_of_entering? he
        obtain h | h := h
        · exact h e (by simp [he])
        · have hgraft := h (e.graft id s older) (by simp [entering?_graft hr, he])
          exact (FunctionEntry.spares_graft (hmachine ▸ hr)).1 hgraft
      have hhead : (entering? r code (w.graft id s older)).toList =
          (entering? r code w).toList.map (·.graft id s older) := by
        rw [entering?_graft hr]
        cases entering? r code w <;> rfl
      have hstep : (step self r code (w.machine r).pc).Follows (·.graft id s older)
          (w.note (.boundary (w.boundary r code))) := step_follows hr hentry
      unfold Run.Follows at hstep ⊢
      rw [runLoop_of_due hdue, runLoop_of_due hdue', machine_graft hr, boundary_graft hr,
        note_graft, hhead, hstep, List.map_append]
      cases hs : step self r code (w.machine r).pc (w.note (.boundary (w.boundary r code))) with
      | error x w' => exact ⟨rfl, rfl⟩
      | ok x w' =>
        rw [hstep, hs] at h
        cases x with
        | error e =>
          refine ⟨?_, rfl⟩
          simp only [mapMachine_graft hr]
        | ok u =>
          obtain ⟨hrest, hcalls⟩ := ih (h.imp (fun h e he => h e (List.mem_append_right _ he))
            fun h e he => h e (List.mem_append_right _ he))
          exact ⟨hrest, congrArg _ hcalls⟩
    · refine ⟨runLoop_follows_of_not_due hr hdue _, ?_⟩
      have hdue' : ¬ (w.graft id s older).Due r := mt (due_graft hr).1 hdue
      rw [loopCalls_of_not_due hdue, loopCalls_of_not_due hdue', List.map_nil]

theorem interpretWith_follows (hr : r ≠ .behaviour id) {fuel : Nat}
    (h : (∀ e ∈ interpretCalls self fuel r w, e.Spares id) ∨
      ∀ e ∈ interpretCalls self fuel r (w.graft id s older), e.Spares id) :
    (interpretWith self fuel r).Follows (·.graft id s older) w ∧
      interpretCalls self fuel r (w.graft id s older) =
        (interpretCalls self fuel r w).map (·.graft id s older) := by
  unfold Run.Follows interpretWith
  simp only [interpretCalls, machine_graft hr, mapMachine_graft hr] at h ⊢
  cases hp : (w.machine r).program with
  | none => exact ⟨rfl, rfl⟩
  | some p =>
    simp only [hp] at h ⊢
    obtain ⟨hloop, hcalls⟩ := runLoop_follows hr h
    refine ⟨?_, hcalls⟩
    by_cases hf : (w.machine r).faulted = true
    · simp only [hf, if_true]
    · simp only [hf, Bool.false_eq_true, if_false]
      exact hloop

theorem runAtWith_follows {interpret : MachineRef → Run (Except VmError Finish)}
    {id' : BehaviourId} {address : UInt32} (hne : id' ≠ id)
    (h : w.begins id' = true →
      (interpret (.behaviour id')).Follows (·.graft id s older) (w.enter id' address)) :
    (runAtWith interpret id' address).Follows (·.graft id s older) w := by
  unfold Run.Follows runAtWith
  rw [behaviour?_graft_of_ne hne]
  cases hb : w.behaviour? id' with
  | none => rfl
  | some b =>
    simp only
    cases hm : b.machine with
    | none => rfl
    | some m =>
      simp only [options_graft, nesting_graft]
      by_cases hs : b.state.isRunnable = true
      · by_cases hn : w.options.maxNestingDepth ≤ w.nesting
        · simp only [hs, hn, if_true, Bool.not_true, Bool.false_eq_true, if_false,
            conclude_graft hne]
        · have hbegins : w.begins id' = true := by
            simpa [begins, hb, hm, hs] using hn
          simp only [hs, hn, Bool.not_true, Bool.false_eq_true, if_false, enter_graft hne,
            current_graft]
          have hrun := h hbegins
          unfold Run.Follows at hrun
          rw [hrun]
          cases interpret (.behaviour id') (w.enter id' address) with
          | error x w' => rfl
          | ok x w' => simp only [leave_graft hne, conclude_graft hne]
      · simp only [hs, Bool.not_false, if_true]

/-- A run at an entry point does the same in the grafted world if its calls have nothing to do with
the graft, in the one world or in the other. -/
theorem runAt_follows {id' : BehaviourId} {address : UInt32} {fuel : Nat} (hne : id' ≠ id)
    (h : (∀ e ∈ w.calls fuel id' address, e.Spares id) ∨
      ∀ e ∈ (w.graft id s older).calls fuel id' address, e.Spares id) :
    (runAt fuel id' address).Follows (·.graft id s older) w ∧
      (w.graft id s older).calls fuel id' address =
        (w.calls fuel id' address).map (·.graft id s older) := by
  have hr : MachineRef.behaviour id' ≠ .behaviour id := fun he => hne (MachineRef.behaviour.inj he)
  cases fuel with
  | zero => exact ⟨rfl, rfl⟩
  | succ fuel =>
    simp only [calls, begins_graft hne, enter_graft hne] at h ⊢
    by_cases hb : w.begins id' = true
    · simp only [hb, if_true] at h ⊢
      obtain ⟨hinterpret, hcalls⟩ := interpretWith_follows hr h
      exact ⟨runAtWith_follows hne fun _ => hinterpret, hcalls⟩
    · rw [if_neg hb, if_neg hb]
      exact ⟨runAtWith_follows hne fun hb' => absurd hb' hb, rfl⟩

end World

/-! ### What a run does itself -/

theorem BuiltIn.touches {call : Invocation} {f : BuiltIn} (hl : f.isLocal = true)
    (hc : call.machine = .behaviour id) :
    (f.run self call).run.Ends w (fun _ => World.Touches id w) fun _ => True := by
  have hput : ∀ address v m, (w.machine call.machine).write address v = .ok m →
      World.Touches id w (w.mapMachine (fun _ => m) call.machine) := by
    intro address v m _
    rw [hc]
    exact .mapMachine ..
  refine (run_ends_of_parts (.refl id w) hput f (fun v => .note ..) ?_ ?_ ?_).mono
    (fun _ _ h => h.respects) fun _ h => h
  all_goals
    rintro rfl
    cases hl

theorem FunctionEntry.touches {e : FunctionEntry} (hl : e.function.isLocal = true)
    (hc : e.call.machine = .behaviour id) :
    (e.run self).Ends e.world (fun _ => World.Touches id e.world) fun _ => True := by
  obtain ⟨function, call, world⟩ := e
  cases function with
  | script => cases hl
  | builtIn f =>
    unfold FunctionEntry.run
    rw [map_eq_pure_bind, Run.ends_bind]
    exact BuiltIn.touches hl hc

namespace World

theorem touches_functionEntry {operand : UInt32} {e : FunctionEntry}
    (h : w.functionEntry (.behaviour id) operand = .ok e) : Touches id w e.world := by
  obtain ⟨signature, -, h⟩ := bind_eq_ok.1 h
  split at h
  · cases h
  · obtain ⟨⟨args, stack⟩, -, h⟩ := bind_eq_ok.1 h
    cases h
    exact .mapMachine ..

theorem step_touches
    (h : ∀ e, entering? (.behaviour id) code w = some e → e.function.isLocal = true) :
    (step self (.behaviour id) code (w.machine (.behaviour id)).pc).Ends
      (w.note (.boundary (w.boundary (.behaviour id) code))) (fun _ => Touches id w)
      fun _ => True := by
  have hbegin : ∀ i : Begun, i.machine = .behaviour id →
      Touches id w ((w.note (.boundary (w.boundary (.behaviour id) code))).begin i) := by
    intro i hi
    rw [begin, hi]
    exact (Touches.note ..).trans ((Touches.note ..).trans (.mapMachine ..))
  refine step_ends (fun e _ => .note ..) (fun op operand x m _ _ _ => ?_) fun operand hf => ?_
  · exact (hbegin _ rfl).trans (.mapMachine ..)
  · unfold Run.Ends
    rw [callFunction_eq]
    cases he : functionEntry _ (.behaviour id) operand with
    | error x => exact hbegin _ rfl
    | ok e =>
      have hentry : entering? (.behaviour id) code w = some e := by
        rw [entering?, hf]
        exact toOption_eq_some.2 he
      have hworld : Touches id w e.world := (hbegin _ rfl).trans (touches_functionEntry he)
      exact (FunctionEntry.touches (h e hentry) (machine_of_functionEntry he)).mono
        (fun _ _ hrun => hworld.trans hrun) fun _ _ => trivial

theorem runLoop_touches {fuel : Nat}
    (h : ∀ e ∈ loopCalls self (.behaviour id) code fuel w, e.function.isLocal = true) :
    (runLoop self (.behaviour id) code fuel).Ends w (fun _ => Touches id w) fun _ => True := by
  refine runLoop_ends_of_course (Touches id w) fuel ?_ ?_ ?_ ?_ (fun _ _ => trivial) (.refl id w)
  · intro u hu _
    exact hu.trans (.note ..)
  · intro u hu _
    exact hu.trans ((Touches.note ..).trans (.mapMachine ..))
  · intro u hu _ _
    exact hu.trans ((Touches.note ..).trans (.mapMachine ..))
  · intro u hmem hu _
    refine (step_touches fun e he => h e (List.mem_filterMap.2 ⟨u, hmem, he⟩)).mono ?_
      fun _ _ => trivial
    rintro (e | _) u' hu'
    · exact (hu.trans hu').trans (.mapMachine ..)
    · exact hu.trans hu'

theorem interpretWith_touches {fuel : Nat}
    (h : ∀ e ∈ interpretCalls self fuel (.behaviour id) w, e.function.isLocal = true) :
    (interpretWith self fuel (.behaviour id)).Ends w (fun _ => Touches id w) fun _ => True := by
  refine interpretWith_ends (fun _ => .refl id w) (fun _ => .refl id w) fun p hp _ => ?_
  rw [interpretCalls, hp] at h
  exact (runLoop_touches h).mono (fun _ _ hu => (Touches.mapMachine ..).trans hu) fun _ _ => trivial

/-- A run at an entry point that calls local functions only changes nothing but its behaviour and
the journal. -/
theorem runAt_touches {fuel : Nat} {address : UInt32}
    (h : ∀ e ∈ w.calls fuel id address, e.function.isLocal = true) :
    (runAt fuel id address).Ends w (fun _ => Touches id w) fun _ => True := by
  cases fuel with
  | zero => trivial
  | succ fuel =>
    refine runAtWith_ends (fun _ => .refl id w) (fun b m _ _ _ _ => touches_conclude ..) ?_
    intro b m hb hm hs hn
    have hbegins : w.begins id = true := by simp [begins, hb, hm, hs, hn]
    rw [calls, if_pos hbegins] at h
    refine (interpretWith_touches h).mono (fun x u hu => ?_) fun _ _ => trivial
    exact (touches_leave hu rfl).trans (touches_conclude ..)

end World

end Local

/-! ### Runs that can be swapped -/

namespace World

/-- Whatever is there besides the behaviour `id` and the journal is as it was. -/
structure Confined (id : BehaviourId) (w w' : World) : Prop where
  others : ∀ id' ≠ id, w'.behaviour? id' = w.behaviour? id'
  registered : w'.behaviours.map (fun b => (b.id, b.registered)) =
    w.behaviours.map fun b => (b.id, b.registered)
  current : w'.current = w.current
  nesting : w'.nesting = w.nesting
  relay : w'.relay = w.relay
  functions : w'.functions = w.functions
  options : w'.options = w.options
  nextId : w'.nextId = w.nextId
  bench : w'.bench = w.bench

theorem Touches.confined {id : BehaviourId} {w w' : World} (h : Touches id w w') :
    Confined id w w' := by
  obtain ⟨s, new, rfl⟩ := h
  refine ⟨fun id' hne => ?_, ?_, rfl, rfl, rfl, rfl, rfl, rfl, rfl⟩
  · exact (behaviour?_mapBehaviour s.change s.id_change w id id').trans (if_neg hne)
  · change (w.behaviours.map _).map _ = _
    rw [List.map_map]
    refine List.map_congr_left fun b _ => ?_
    by_cases hb : b.id = id
    · simp [hb, s.id_change, s.registered_change]
    · simp [hb]

/-- What a run does to its behaviour and writes into the journal is the same in all grafted worlds,
if its calls have nothing to do with the graft in one of them. -/
theorem runAt_effect {id id' : BehaviourId} {address : UInt32} {fuel : Nat} {x : Bool}
    {w w' : World} {t : Reshaping} {older : List Entry} (hne : id ≠ id') (hsilent : w.journal = [])
    (hrun : runAt fuel id address (w.graft id' t older) = .ok x w')
    (hspares : ∀ e ∈ (w.graft id' t older).calls fuel id address, e.Spares id') :
    ∃ s new, ∀ t older, runAt fuel id address (w.graft id' t older) =
      .ok x ((w.graft id s new).graft id' t older) := by
  obtain ⟨hfollows, hcalls⟩ := runAt_follows hne (.inr hspares)
  have hspares' : ∀ e ∈ w.calls fuel id address, e.Spares id' := by
    intro e he
    have hmachine : e.call.machine ≠ .behaviour id' := by
      rw [machine_of_calls he]
      exact fun h => hne (MachineRef.behaviour.inj h)
    rw [hcalls] at hspares
    exact (FunctionEntry.spares_graft hmachine).1 (hspares _ (List.mem_map_of_mem he))
  obtain ⟨u, hu, -⟩ := hfollows.ok_iff.1 hrun
  obtain ⟨s, new, rfl⟩ := (runAt_touches fun e he => (hspares' e he).isLocal).of_ok hu
  refine ⟨s, new, fun t older => ?_⟩
  have hgrafted : (runAt fuel id address).Follows (·.graft id' t older) w :=
    (runAt_follows hne (.inl hspares')).1
  rw [hgrafted.of_ok hu, hsilent, List.append_nil, graft.eq_1 w id s new, hsilent, List.nil_append]

/-- A run that calls local functions only leaves all but its behaviour as it was. If a run of
another behaviour follows that calls such functions only, too, and neither reads a variable of the
other one, they might as well be made in the other order: both answer the same, and they end in the
same world, with what they have written in the journal in the other order. -/
theorem runAt_confined {id : BehaviourId} {address : UInt32} {fuel : Nat} {x : Bool} {w w₁ : World}
    (hrun : runAt fuel id address w = .ok x w₁)
    (hlocal : ∀ e ∈ w.calls fuel id address, e.function.isLocal = true) :
    Confined id w w₁ ∧
    ∀ (id' : BehaviourId) (address' : UInt32) (fuel' : Nat) (y : Bool) (w₂ : World), id' ≠ id →
      runAt fuel' id' address' w₁ = .ok y w₂ →
      (∀ e ∈ w₁.calls fuel' id' address', e.function.isLocal = true) →
      (∀ e ∈ w.calls fuel id address, ¬ e.Reads id') →
      (∀ e ∈ w₁.calls fuel' id' address', ¬ e.Reads id) →
      ∃ v new new', w₁.journal = new ++ w.journal ∧ w₂.journal = new' ++ (new ++ w.journal) ∧
        runAt fuel' id' address' w = .ok y v ∧
        runAt fuel id address v = .ok x { w₂ with journal := new ++ (new' ++ w.journal) } := by
  refine ⟨((runAt_touches hlocal).of_ok hrun).confined, ?_⟩
  intro id' address' fuel' y w₂ hne hrun' hlocal' hunread hunread'
  -- All worlds on the way are grafts of the one that has an empty journal.
  let w₀ : World := { w with journal := [] }
  have hw : ∀ id, w₀.graft id .none w.journal = w := graft_silent w
  rw [← hw id'] at hrun hlocal hunread
  obtain ⟨s, new, hfirst⟩ := runAt_effect hne.symm rfl hrun
    fun e he => ⟨hlocal e he, hunread e he⟩
  have hw₁ : w₁ = w₀.graft id s (new ++ w.journal) := by
    rw [← graft_none]
    exact (EStateM.Result.ok.inj (hrun.symm.trans (hfirst ..))).2
  rw [hw₁] at hrun' hlocal' hunread'
  obtain ⟨s', new', hsecond⟩ := runAt_effect hne rfl hrun'
    fun e he => ⟨hlocal' e he, hunread' e he⟩
  have hw₂ : w₂ = (w₀.graft id' s' new').graft id s (new ++ w.journal) :=
    (EStateM.Result.ok.inj (hrun'.symm.trans (hsecond ..))).2
  refine ⟨w₀.graft id' s' (new' ++ w.journal), new, new', ?_, ?_, ?_, ?_⟩
  · rw [hw₁]
    rfl
  · rw [hw₂]
    rfl
  · rw [← hw id, ← graft_none]
    exact hsecond .none w.journal
  · rw [hfirst, hw₂, graft_comm hne]
    rfl

end World

/-- A program that reads its own variable `n`, given a way to name itself, and doubles it. -/
def doublingProgram (id : BehaviourId) : Program :=
  { Program.empty "doubling" with
    heap := ⟨[⟨.behaviour, .value (.object id.toRef)⟩, ⟨.string, .value (.string "n")⟩,
      ⟨.int32, .value (.int32 21)⟩, ⟨.int32, .value (.int32 0)⟩,
      ⟨.string, .value (.string BuiltIn.getProgramVariable.signature)⟩,
      ⟨.string, .value (.string BuiltIn.int32Addition.signature)⟩]⟩
    symbols := .ofList [⟨"n", 2, .int32, true⟩] (by simp)
    code := Instruction.encodeWords .push (some 0) ++ Instruction.encodeWords .push (some 1) ++
      Instruction.encodeWords .push (some 3) ++ Instruction.encodeWords .call (some 4) ++
      Instruction.encodeWords .push (some 2) ++ Instruction.encodeWords .push (some 3) ++
      Instruction.encodeWords .push (some 2) ++ Instruction.encodeWords .call (some 5) ++
      Instruction.encodeWords .jump (some haltAddress) }

/-- Two behaviours that are ready to run such programs. -/
def doubling : World :=
  let ready (id : BehaviourId) : Behaviour :=
    { Behaviour.new id (.of 1 2) (some (doublingProgram id)) with
      machine := some (World.soloMachine (doublingProgram id) []), state := .ready }
  { World.new .default with behaviours := [ready ⟨1⟩, ready ⟨2⟩], nextId := 3 }

/-- The world after a run of the first one. -/
def doubledOnce : World :=
  ((World.runAt 11 ⟨1⟩ 0).after? doubling).getD doubling

/-- The world after a run of the second one, too. -/
def doubledTwice : World :=
  ((World.runAt 11 ⟨2⟩ 0).after? doubledOnce).getD doubledOnce

/-- Both have doubled their variables, and they might have done so in the other order. -/
theorem runAt_confined_doubling :
    World.Confined ⟨1⟩ doubling doubledOnce ∧
    doubledTwice.getVariable ⟨1⟩ "n" = some (.int32 42) ∧
    doubledTwice.getVariable ⟨2⟩ "n" = some (.int32 42) ∧
    ∃ v journal, World.runAt 11 ⟨2⟩ 0 doubling = .ok true v ∧
      World.runAt 11 ⟨1⟩ 0 v = .ok true { doubledTwice with journal } := by
  have hfirst : World.runAt 11 ⟨1⟩ 0 doubling = .ok true doubledOnce :=
    Run.Ends.eq_after (by decide +kernel)
  have hsecond : World.runAt 11 ⟨2⟩ 0 doubledOnce = .ok true doubledTwice :=
    Run.Ends.eq_after (by decide +kernel)
  obtain ⟨hconfined, hcommute⟩ := World.runAt_confined hfirst (by decide +kernel)
  obtain ⟨v, new, new', -, -, hv, hw⟩ := hcommute ⟨2⟩ 0 11 true doubledTwice (by decide) hsecond
    (by decide +kernel) (by decide +kernel) (by decide +kernel)
  exact ⟨hconfined, by decide +kernel, by decide +kernel, v, _, hv, hw⟩

end EventVm
