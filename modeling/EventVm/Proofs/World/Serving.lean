import EventVm.Proofs.World.TypedHeap

/-!
# Behaviours that serve their programs

A behaviour keeps the program with which it was created; its activation makes its machine and the
table of its handlers, which stay as long as the machine does (`Moment.Trace.plan_of_machine`). From
then on, for as long as it can run, it serves its program (`World.Serves`): the program has passed
the checks, the handlers are its entry points and the heap of the machine suits it. Only loading
another program into the machine, past the behaviour, changes that (`Moment.Trace.serves`).
-/

namespace EventVm

open Moment

/-! ### Programs and handlers -/

namespace World

/-- The program of a behaviour and the table of its handlers. -/
def plan? (w : World) (id : BehaviourId) : Option (Option Program × EventTable) :=
  (w.behaviour? id).map fun b => (b.program, b.events)

theorem plan?_of_behaviour? {w : World} {id : BehaviourId} {b : Behaviour}
    (hb : w.behaviour? id = some b) : w.plan? id = some (b.program, b.events) := by
  simp only [plan?, hb, Option.map_some]

/-- The program is a part of the plan. -/
theorem program?_eq_plan? (w : World) (id : BehaviourId) :
    w.program? id = (w.plan? id).bind Prod.fst := by
  unfold program? plan?
  cases w.behaviour? id <;> rfl

/-- The behaviours of a world have the programs and the handlers that they had. -/
structure SamePlans (w w' : World) : Prop where
  plan?_eq : ∀ id, w'.plan? id = w.plan? id

namespace SamePlans

variable {u v w w' : World}

theorem refl (w : World) : w.SamePlans w :=
  ⟨fun _ => rfl⟩

theorem trans (h : u.SamePlans v) (h' : v.SamePlans w) : u.SamePlans w :=
  ⟨fun id => (h'.plan?_eq id).trans (h.plan?_eq id)⟩

theorem of_eq (h : w.behaviours = v.behaviours) : v.SamePlans w := by
  refine ⟨fun id => ?_⟩
  unfold plan? behaviour?
  rw [h]

theorem note (w : World) (e : Entry) : w.SamePlans (w.note e) :=
  .of_eq rfl

theorem mapBehaviour (w : World) (id : BehaviourId) {f : Behaviour → Behaviour}
    (hid : ∀ b, (f b).id = b.id) (hp : ∀ b, (f b).program = b.program)
    (he : ∀ b, (f b).events = b.events) : w.SamePlans (w.mapBehaviour id f) := by
  refine ⟨fun id' => ?_⟩
  unfold plan?
  rw [behaviour?_mapBehaviour f hid]
  split
  · rw [Option.map_map]
    exact congrArg (Option.map · _) (funext fun b => Prod.ext (hp b) (he b))
  · rfl

theorem setState (w : World) (id : BehaviourId) (s : BehaviourState) :
    w.SamePlans (w.setState id s) :=
  .mapBehaviour w id (fun _ => rfl) (fun _ => rfl) fun _ => rfl

theorem mapMachine (w : World) (f : Machine → Machine) (r : MachineRef) :
    w.SamePlans (w.mapMachine f r) := by
  cases r with
  | bench => exact .of_eq rfl
  | behaviour id => exact .mapBehaviour w id (fun _ => rfl) (fun _ => rfl) fun _ => rfl

theorem loadMachine {r : MachineRef} {p : Program} {heap : Heap}
    (h : w.loadMachine r p heap = .ok v) : w.SamePlans v := by
  obtain ⟨m, -, hm⟩ := bind_eq_ok.1 h
  cases hm
  exact mapMachine ..

theorem shutDown (w : World) : w.SamePlans w.shutDown := by
  refine ⟨fun id => ?_⟩
  unfold plan?
  rw [behaviour?_shutDown, Option.map_map]
  rfl

theorem supply (w : World) (id : BehaviourId) (events : List LogEvent) (t : PublicVariables) :
    w.SamePlans ((events.foldl log w).mapBehaviour id fun b => { b with supplied := t }) :=
  (show w.SamePlans (events.foldl log w) by rw [foldl_log]; exact .of_eq rfl).trans
    (.mapBehaviour _ id (fun _ => rfl) (fun _ => rfl) fun _ => rfl)

theorem fault (w : World) (id : BehaviourId) : w.SamePlans (w.fault id) :=
  (mapMachine w _ (.behaviour id)).trans (.setState ..)

theorem conclude (w : World) (id : BehaviourId) (address : UInt32) (x : Except VmError Finish) :
    w.SamePlans (w.conclude id address x).2 := by
  unfold World.conclude
  split
  · exact .refl w
  · exact (note ..).trans (.fault ..)
  · exact .fault ..
  · exact (note ..).trans (.fault ..)

theorem enter (w : World) (id : BehaviourId) (address : UInt32) :
    w.SamePlans (w.enter id address) := by
  have h : w.SamePlans { w with nesting := w.nesting + 1, current := some id } := .of_eq rfl
  exact h.trans ((note ..).trans ((mapMachine _ _ (.behaviour id)).trans (.setState ..)))

theorem leave (w : World) (id : BehaviourId) (frame : Frame) :
    w.SamePlans (w.leave id frame) := by
  have h : (w.mapMachine frame.close (.behaviour id)).SamePlans
      { w.mapMachine frame.close (.behaviour id) with
        current := frame.current, nesting := w.nesting - 1 } := .of_eq rfl
  have hevents : ∀ b, (frame.leave b).events = b.events := by
    intro b
    unfold Frame.leave
    split <;> rfl
  exact (mapMachine w frame.close (.behaviour id)).trans
    (h.trans (.mapBehaviour _ id (Frame.leave_id frame) (Frame.leave_program frame) hevents))

end SamePlans

/-- An activation that fails leaves the plans alone. -/
theorem samePlans_of_unactivated {w w' : World} {b : Behaviour} {e : LoadError}
    (h : w.beginActivation b = (.error e, w')) : w.SamePlans w' := by
  have hloading : w.SamePlans (w.setState b.id .loading) := .setState ..
  unfold beginActivation loadBehaviour at h
  cases hp : b.program with
  | none =>
    rw [hp] at h
    cases h
    exact hloading.trans ((SamePlans.setState ..).trans (.note ..))
  | some p =>
    rw [hp] at h
    dsimp only at h
    cases hm : buildMachine _ b p (supplyAll b p).1 with
    | ok m =>
      rw [hm] at h
      cases h
    | error e' =>
      rw [hm] at h
      cases h
      exact hloading.trans ((SamePlans.supply ..).trans ((SamePlans.setState ..).trans (.note ..)))

/-- An activation that succeeds makes the handlers of the program. -/
theorem plan?_of_activated {w w' : World} {b : Behaviour} (hb : w.behaviour? b.id = some b)
    (h : w.beginActivation b = (.ok (), w')) : ∃ p, b.program = some p ∧
      ∀ id, w'.plan? id = if id = b.id then some (some p, .ofEntryPoints p.entryPoints)
        else w.plan? id := by
  unfold beginActivation loadBehaviour at h
  cases hp : b.program with
  | none =>
    rw [hp] at h
    cases h
  | some p =>
    rw [hp] at h
    dsimp only at h
    cases hm : buildMachine _ b p (supplyAll b p).1 with
    | error e =>
      rw [hm] at h
      cases h
    | ok m =>
      rw [hm] at h
      cases h
      refine ⟨p, rfl, fun id => ?_⟩
      rw [(SamePlans.setState ..).plan?_eq]
      have hsupplied := ((SamePlans.setState w b.id .loading).trans
        (SamePlans.supply _ b.id (supplyAll b p).2.2.reverse (supplyAll b p).2.1)).plan?_eq id
      unfold plan? at hsupplied ⊢
      rw [behaviour?_mapBehaviour (fun b =>
        { b with machine := some m, events := .ofEntryPoints p.entryPoints }) fun _ => rfl]
      split
      · next hid =>
        subst hid
        rw [hb, Option.map_some] at hsupplied
        obtain ⟨b', hb', hplan⟩ := Option.map_eq_some_iff.1 hsupplied
        have hprogram : b'.program = some p := (Prod.mk.inj hplan).1.trans hp
        rw [hb', Option.map_some, Option.map_some]
        exact congrArg (fun q => some (q, EventTable.ofEntryPoints p.entryPoints)) hprogram
      · exact hsupplied

end World

/-- What a deed does to the plan of the behaviour `id`, which may not be there. -/
inductive Plans (id : BehaviourId) :
    Deed → Option (Option Program × EventTable) → Option (Option Program × EventTable) → Prop where
  | kept {d : Deed} {t? : Option (Option Program × EventTable)}
    (other : d ≠ .activated id (.ok ())) : Plans id d t? t?
  | created {p : Option Program} : Plans id (.created id) none (some (p, .empty))
  | dropped {t? : Option (Option Program × EventTable)} : Plans id (.dropped id) t? none
  | activated {p : Program} {t : EventTable} : Plans id (.activated id (.ok ()))
      (some (some p, t)) (some (some p, .ofEntryPoints p.entryPoints))

section Deeds

variable {k : Access} {w w' : World} {c c' : Moment} {d : Deed}

/-- Code by itself leaves the plans alone. -/
theorem World.Change.samePlans {a : Option MachineRef} (h : w.Change k a d w') :
    w.SamePlans w' := by
  cases h with
  | noted => exact .note w _
  | supplied id | hooked id | hashed id =>
    exact .mapBehaviour w id (fun _ => rfl) (fun _ => rfl) fun _ => rfl
  | registered => exact .of_eq rfl
  | shutDown => exact .shutDown w
  | aborted | poked | assigned | put | started => exact .mapMachine ..
  | loaded _ _ hl => exact .loadMachine hl
  | @begun i _ _ _ _ hc =>
    have hbegin : w.SamePlans (w.begin i) := (World.SamePlans.note ..).trans (.mapMachine ..)
    cases hc with
    | alone | called => exact hbegin.trans (.mapMachine ..)
    | lost => exact hbegin

/-- An activation that succeeds enters the events of the program. -/
theorem plans_activate {id' : BehaviourId} {b : Behaviour} (found : w.behaviour? id' = some b)
    (id : BehaviourId) : Plans id (.activated id' (w.beginActivation b).1) (w.plan? id)
      ((w.beginActivation b).2.plan? id) := by
  obtain rfl := World.id_of_behaviour? found
  cases hbegin : w.beginActivation b with
  | mk x w' =>
    cases x with
    | error e =>
      rw [(World.samePlans_of_unactivated hbegin).plan?_eq]
      exact .kept nofun
    | ok u =>
      obtain ⟨p, hp, hplans⟩ := World.plan?_of_activated found hbegin
      rw [hplans]
      split
      · next hid =>
        subst hid
        rw [World.plan?_of_behaviour? found, hp]
        exact .activated
      · next hid =>
        refine .kept fun hd => hid ?_
        cases hd
        rfl

/-- What a deed does to plans. -/
theorem Moment.Step.plans (h : Step k c d c') (id : BehaviourId) :
    Plans id d (c.world.plan? id) (c'.world.plan? id) := by
  have hkept : ∀ {d : Deed}, d ≠ .activated id (.ok ()) → c.world.SamePlans c'.world →
      Plans id d (c.world.plan? id) (c'.world.plan? id) := by
    intro d hd hs
    rw [hs.plan?_eq]
    exact .kept hd
  cases h with
  | change change =>
    refine hkept ?_ change.samePlans
    rintro rfl
    cases change.behaviour_eq
  | @created w host p fresh =>
    unfold World.plan?
    rw [World.behaviour?_addBehaviour]
    by_cases hid : id = ⟨w.nextId⟩
    · subst hid
      rw [fresh, if_pos rfl]
      exact .created
    · rw [if_neg hid, Option.or_none]
      exact .kept nofun
  | dropped id' =>
    unfold World.plan?
    rw [World.behaviour?_dropBehaviour]
    split
    · next hid =>
      subst hid
      exact .dropped
    · exact .kept nofun
  | connected => exact hkept nofun (.of_eq rfl)
  | @put w r _ _ m => exact hkept nofun (.mapMachine w (fun _ => m) r)
  | loaded _ loaded => exact hkept nofun (.loadMachine loaded)
  | activated found => exact plans_activate found id
  | @disabled w rs id' =>
    exact hkept nofun (.mapBehaviour w id' (fun _ => rfl) (fun _ => rfl) fun _ => rfl)
  | entered => exact hkept nofun (.enter ..)
  | refused => exact hkept nofun (.conclude ..)
  | left =>
    exact hkept nofun
      ((World.SamePlans.mapMachine ..).trans ((World.SamePlans.leave ..).trans (.conclude ..)))
  | opened => exact .kept nofun
  | stopped => exact hkept nofun (.mapMachine ..)

/-- Only creating, dropping and activating a behaviour changes its plan. -/
theorem Moment.Step.plan?_eq {id : BehaviourId} (h : Step k c d c') (created : d ≠ .created id)
    (dropped : d ≠ .dropped id) (activated : d ≠ .activated id (.ok ())) :
    c'.world.plan? id = c.world.plan? id := by
  have hplan := h.plans id
  generalize c.world.plan? id = t?, c'.world.plan? id = t?' at hplan
  cases hplan with
  | kept => rfl
  | created => exact absurd rfl created
  | dropped => exact absurd rfl dropped
  | activated => exact absurd rfl activated

end Deeds

/-! ### Serving a program -/

/-- The behaviour can run. -/
def World.IsRunnable (w : World) (id : BehaviourId) : Prop :=
  ∃ s, w.state? id = some s ∧ s.isRunnable = true

/-- The behaviour serves a program: its handlers are the entry points of the program, which has
passed the checks, and the heap of its machine suits the program. -/
structure World.Serves (w : World) (id : BehaviourId) (p : Program) : Prop where
  plan : w.plan? id = some (some p, .ofEntryPoints p.entryPoints)
  machine : ∃ m, w.machine? (.behaviour id) = some m ∧ m.Suits p
  verified : p.verifyStructure = .ok ()

section Serving

variable {k : Access} {c c' : Moment} {d : Deed} {id : BehaviourId} {p : Program}

/-- A behaviour that can run after a deed could run before, unless the deed is its activation. -/
theorem Moment.Step.runnable (h : Step k c d c') (hr : c'.world.IsRunnable id) :
    d = .activated id (.ok ()) ∨ c.world.IsRunnable id ∧ d ≠ .disabled id ∧ d ≠ .dropped id ∧
      d ≠ .created id ∧ ∀ x, d ≠ .activated id x := by
  obtain ⟨s', hs', hr⟩ := hr
  have ht := h.turns id
  rw [hs'] at ht
  generalize hs : c.world.state? id = s? at ht
  cases ht with
  | kept other =>
    refine .inr ⟨⟨s', hs, hr⟩, ?_, ?_, ?_, fun x => ?_⟩
    all_goals
      rintro rfl
      exact other rfl
  | activated => exact .inl rfl
  | entered runnable => exact .inr ⟨⟨_, hs, runnable⟩, nofun, nofun, nofun, nofun⟩
  | @returned address frame s =>
    refine .inr ⟨⟨s, hs, ?_⟩, nofun, nofun, nofun, nofun⟩
    split at hr
    · next he => exact he ▸ rfl
    · exact hr
  | created | unactivated | disabled | refused | faulted => cases hr

/-- The handlers of a behaviour with a machine are the entry points of its program. -/
theorem Moment.Step.plan_of_machine {m' : Machine} (h : Step k c d c')
    (hc : ∀ m, c.world.machine? (.behaviour id) = some m →
      ∃ p, c.world.plan? id = some (some p, .ofEntryPoints p.entryPoints))
    (hm' : c'.world.machine? (.behaviour id) = some m') :
    ∃ p, c'.world.plan? id = some (some p, .ofEntryPoints p.entryPoints) := by
  have ha := h.alters (.behaviour id)
  have hplan := h.plans id
  rw [hm'] at ha
  generalize hm : c.world.machine? (.behaviour id) = m? at ha
  generalize hplan₀ : c.world.plan? id = t?, c'.world.plan? id = t?' at hplan ⊢
  cases hplan with
  | activated => exact ⟨_, rfl⟩
  | created => cases ha with
    | kept =>
      obtain ⟨p, hp⟩ := hc _ hm
      cases hplan₀.symm.trans hp
  | dropped => cases ha with
    | kept other => exact absurd rfl other
  | kept other =>
    cases m? with
    | some m => exact hplan₀ ▸ hc m hm
    | none => cases ha with
      | activated own =>
        cases own
        exact absurd rfl other

/-- At every moment of an account, the handlers of a behaviour with a machine are the entry points
of its program. -/
theorem Moment.Trace.plan_of_machine {base : List OpenRun} {o : Options}
    {es : List (Deed × Moment)} {m : Machine} (h : Trace k base (start o) es c)
    (hm : c.world.machine? (.behaviour id) = some m) :
    ∃ p, c.world.plan? id = some (some p, .ofEntryPoints p.entryPoints) :=
  h.induct (P := fun c => ∀ m, c.world.machine? (.behaviour id) = some m →
    ∃ p, c.world.plan? id = some (some p, .ofEntryPoints p.entryPoints))
    nofun (fun hstep hc _ hm' => hstep.plan_of_machine hc hm') m hm

/-- A behaviour that can run has a machine. -/
theorem Moment.Step.machine_of_runnable (h : Step k c d c')
    (hc : c.world.IsRunnable id → ∃ m, c.world.machine? (.behaviour id) = some m)
    (hr : c'.world.IsRunnable id) : ∃ m, c'.world.machine? (.behaviour id) = some m := by
  obtain rfl | ⟨hr₀, hdisabled, hdropped, -, -⟩ := h.runnable hr
  · have hplan := h.plans id
    generalize c.world.plan? id = t?, hplan' : c'.world.plan? id = t?' at hplan
    cases hplan with
    | kept other => exact absurd rfl other
    | @activated p =>
      have hprogram : c'.world.program? id = some p := by
        rw [World.program?_eq_plan?, hplan', Option.bind_some]
      obtain ⟨m, hm, -⟩ := h.suits_of_loads (.activation hprogram)
      exact ⟨m, hm⟩
  · obtain ⟨m, hm⟩ := hc hr₀
    refine h.present hm ?_ ?_
    · rintro _ ⟨⟩
      exact hdisabled
    · rintro _ ⟨⟩
      exact hdropped

theorem Moment.Trace.machine_of_runnable {base : List OpenRun} {o : Options}
    {es : List (Deed × Moment)} (h : Trace k base (start o) es c) (hr : c.world.IsRunnable id) :
    ∃ m, c.world.machine? (.behaviour id) = some m := by
  refine h.induct (P := fun c => c.world.IsRunnable id →
    ∃ m, c.world.machine? (.behaviour id) = some m) ?_
    (fun hstep hc => hstep.machine_of_runnable hc) hr
  rintro ⟨s, hs, -⟩
  cases hs

/-- At every moment of an account, the handlers of a behaviour that can run are the entry points of
its program. -/
theorem Moment.Trace.plan_of_runnable {base : List OpenRun} {o : Options}
    {es : List (Deed × Moment)} (h : Trace k base (start o) es c) (hr : c.world.IsRunnable id) :
    ∃ p, c.world.plan? id = some (some p, .ofEntryPoints p.entryPoints) := by
  obtain ⟨m, hm⟩ := h.machine_of_runnable hr
  exact h.plan_of_machine hm

/-- After its activation a behaviour serves its program. -/
theorem Moment.Step.serves_of_activated (h : Step k c (.activated id (.ok ())) c')
    (hp : c'.world.program? id = some p) : c'.world.Serves id p := by
  obtain ⟨m, hm, hs⟩ := h.suits_of_loads (.activation hp)
  have hplan := h.plans id
  rw [World.program?_eq_plan?] at hp
  generalize c.world.plan? id = t?, hplan' : c'.world.plan? id = t?' at hp hplan
  have ha := h.alters (.behaviour id)
  rw [hm] at ha
  generalize c.world.machine? (.behaviour id) = m? at ha
  cases ha with
  | kept other => exact absurd rfl other
  | activated own program built =>
    obtain ⟨heap, -, hloaded⟩ := bind_eq_ok.1 built
    obtain ⟨hverified, hloads⟩ := Machine.loaded_of_load (mapError_eq_ok.1 hloaded)
    cases hs.program.symm.trans hloads.program
    cases hplan with
    | kept other => exact absurd rfl other
    | activated =>
      cases hp
      exact ⟨hplan', ⟨m, hm, hs⟩, hverified⟩

/-- A behaviour goes on serving its program while it can run, unless another program is loaded into
its machine. -/
theorem Moment.Step.serves (h : Step k c d c') (hd : ∀ q heap, d ≠ .loaded (.behaviour id) q heap)
    (hc : c.world.IsRunnable id → ∀ p, c.world.program? id = some p → c.world.Serves id p)
    (hr : c'.world.IsRunnable id) (hp : c'.world.program? id = some p) :
    c'.world.Serves id p := by
  obtain rfl | ⟨hr₀, hdisabled, hdropped, hcreated, hactivated⟩ := h.runnable hr
  · exact h.serves_of_activated hp
  · have hplan := h.plan?_eq hcreated hdropped (hactivated _)
    rw [World.program?_eq_plan?, hplan, ← World.program?_eq_plan?] at hp
    obtain ⟨hplan₀, ⟨m, hm, hs⟩, hverified⟩ := hc hr₀ p hp
    have hkept : ¬ d.Replaces (.behaviour id) := by
      rintro (⟨q, heap⟩ | own)
      · exact hd q heap rfl
      · cases own
        exact hactivated _ rfl
    obtain ⟨m', hm'⟩ : ∃ m', c'.world.machine? (.behaviour id) = some m' := by
      refine h.present hm ?_ ?_
      · rintro id' ⟨⟩
        exact hdisabled
      · rintro id' ⟨⟩
        exact hdropped
    have ha := h.alters (.behaviour id)
    rw [hm, hm'] at ha
    exact ⟨hplan.trans hplan₀, ⟨m', hm', ha.suits hkept hs⟩, hverified⟩

/-- As long as no program is loaded into its machine past the behaviour, a behaviour that can run
serves its program. -/
theorem Moment.Trace.serves {base : List OpenRun} {o : Options} {es : List (Deed × Moment)}
    (h : Trace k base (start o) es c)
    (hes : ∀ e ∈ es, ∀ q heap, e.1 ≠ .loaded (.behaviour id) q heap)
    (hr : c.world.IsRunnable id) (hp : c.world.program? id = some p) : c.world.Serves id p := by
  induction h generalizing p with
  | nil =>
    obtain ⟨s, hs, -⟩ := hr
    cases hs
  | next before step within ih =>
    obtain ⟨hd, hes⟩ := List.forall_mem_cons.1 hes
    exact step.serves hd (fun hr p hp => ih hes hr hp) hr hp

/-- Only a host that reaches machines past their behaviours loads programs into them. -/
theorem Moment.Trace.not_loaded {base : List OpenRun} {es : List (Deed × Moment)}
    (h : Trace k base c es c') (hk : k.direct = false) :
    ∀ e ∈ es, ∀ r q heap, e.1 ≠ .loaded r q heap := by
  rintro ⟨d, c₁⟩ he r q heap rfl
  obtain ⟨later, earlier, rfl⟩ := List.append_of_mem he
  obtain ⟨c₀, -, hstep, -⟩ := h.split
  dsimp only at hstep
  have hdirect : k.direct = true := by
    cases hstep with
    | change change =>
      cases change with
      | loaded direct => exact direct
    | loaded direct => exact direct
  rw [hk] at hdirect
  cases hdirect

end Serving

end EventVm
