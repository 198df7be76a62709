import EventVm.Proofs.World.Steps

/-!
# Consistent moments

Every moment that a host can bring about is consistent (`Consistent`): the machines of the runs in
progress are there, machines belong to behaviours that have been activated, and nothing is
registered or installed that the access forbids.
-/

namespace EventVm

/-! ### What hosts have set up -/

section Setting

variable {k : Access} {w w' : World} {d : Deed}

/-- What code does by itself leaves the number of the next behaviour and what the access allows. -/
theorem World.Change.keeps {a : Option MachineRef} (h : w.Change k a d w') (hw : w.Permits k) :
    w'.Permits k ∧ w'.nextId = w.nextId := by
  have hcontinues : ∀ {w'}, w.Continues w' → w'.Permits k ∧ w'.nextId = w.nextId := fun hc =>
    ⟨hw.of_continues hc, hc.nextId⟩
  cases h with
  | noted => exact hcontinues (.note ..)
  | supplied id | hashed id =>
    exact hcontinues (.mapBehaviour w id (fun _ => rfl) fun _ => rfl)
  | hooked id hook permitted =>
    refine ⟨⟨hw.functions, fun id' b' hook' hb' hh => ?_⟩, rfl⟩
    rw [World.behaviour?_mapBehaviour (fun b => { b with hook }) fun _ => rfl] at hb'
    split at hb'
    · obtain ⟨b, hb, rfl⟩ := Option.map_eq_some_iff.1 hb'
      exact permitted hook' hh
    · exact hw.hooks id' b' hook' hb' hh
  | registered signature f permitted => exact ⟨hw.register permitted, rfl⟩
  | shutDown =>
    refine ⟨⟨hw.functions, fun id b' hook hb' hh => ?_⟩, rfl⟩
    rw [World.behaviour?_shutDown] at hb'
    obtain ⟨b, hb, rfl⟩ := Option.map_eq_some_iff.1 hb'
    exact hw.hooks id b hook hb hh
  | aborted | poked | assigned | put | started => exact hcontinues (.mapMachine ..)
  | loaded _ _ hl => exact hcontinues (.loadMachine hl)
  | @begun i _ _ _ _ hc =>
    have hbegin : w.Continues (w.begin i) := (World.Continues.note ..).trans (.mapMachine ..)
    cases hc with
    | alone | called => exact hcontinues (hbegin.trans (.mapMachine ..))
    | lost => exact hcontinues hbegin

namespace Moment

variable {c c' : Moment}

/-- The access allows what has been set up, whatever happens. -/
theorem Step.permits (h : Step k c d c') (hc : c.world.Permits k) : c'.world.Permits k := by
  cases h with
  | change change => exact (change.keeps hc).1
  | @created w host p fresh =>
    refine ⟨hc.functions, fun id b' hook hb' hh => ?_⟩
    rw [World.behaviour?_addBehaviour, Option.or_eq_some_iff] at hb'
    obtain hb' | ⟨-, hb'⟩ := hb'
    · exact hc.hooks id b' hook hb' hh
    · split at hb'
      · cases hb'
        cases hh
      · cases hb'
  | dropped id =>
    refine ⟨hc.functions, fun id' b' hook hb' hh => ?_⟩
    rw [World.behaviour?_dropBehaviour] at hb'
    split at hb'
    · cases hb'
    · exact hc.hooks id' b' hook hb' hh
  | connected => exact hc.of_continues (.of_eq rfl rfl rfl rfl)
  | @put w r _ _ m => exact hc.of_continues (.mapMachine w (fun _ => m) r)
  | loaded direct loaded => exact hc.of_continues (.loadMachine loaded)
  | @activated w rs id b found unloaded => exact hc.of_continues (.beginActivation w b)
  | @disabled w rs id closed =>
    exact hc.of_continues (.mapBehaviour w id (fun _ => rfl) fun _ => rfl)
  | entered => exact hc.of_continues (.enter ..)
  | refused => exact hc.of_continues (.conclude ..)
  | left => exact hc.of_continues (.leaving ..)
  | opened => exact hc
  | stopped => exact hc.of_continues (.mapMachine ..)

/-- Only a host uses up numbers, one for each behaviour that it creates. -/
theorem Step.nextId (h : Step k c d c') (hc : c.world.Permits k) :
    (∃ id, d = .created id ∧ id.number = c.world.nextId ∧
      c'.world.nextId = c.world.nextId + 1) ∨
    (∀ id, d ≠ .created id) ∧ c'.world.nextId = c.world.nextId := by
  cases h with
  | change change =>
    refine .inr ⟨fun id hd => ?_, (change.keeps hc).2⟩
    have hb := change.behaviour_eq
    rw [hd] at hb
    cases hb
  | created => exact .inl ⟨_, rfl, rfl, rfl⟩
  | dropped | connected | disabled | opened => exact .inr ⟨nofun, rfl⟩
  | @activated w rs id b => exact .inr ⟨nofun, (World.Continues.beginActivation w b).nextId⟩
  | entered => exact .inr ⟨nofun, (World.Continues.enter ..).nextId⟩
  | refused => exact .inr ⟨nofun, (World.Continues.conclude ..).nextId⟩
  | left => exact .inr ⟨nofun, (World.Continues.leaving ..).nextId⟩
  | put | stopped => exact .inr ⟨nofun, (World.Continues.mapMachine ..).nextId⟩
  | loaded direct loaded => exact .inr ⟨nofun, (World.Continues.loadMachine loaded).nextId⟩

theorem Step.nextId_le (h : Step k c d c') (hc : c.world.Permits k) :
    c.world.nextId ≤ c'.world.nextId := by
  obtain ⟨-, -, -, hn⟩ | ⟨-, hn⟩ := h.nextId hc <;> omega

end Moment

end Setting

/-! ### Consistent moments -/

namespace Moment

/-- The runs in progress are those of machines that are there, machines belong to behaviours that
have been activated, numbers are not used twice and the access allows what has been set up. -/
structure Consistent (k : Access) (c : Moment) : Prop where
  present : ∀ run ∈ c.runs, ∀ r, run.machine = some r → ∃ m, c.world.machine? r = some m
  runnable : ∀ id address frame, .entry id address frame ∈ c.runs → frame.state.isRunnable = true
  activated : ∀ id m, c.world.machine? (.behaviour id) = some m →
    c.world.state? id ≠ some .unloaded ∧ m.program ≠ none
  known : ∀ id s, c.world.state? id = some s → id.number < c.world.nextId
  permits : c.world.Permits k

theorem consistent_start (k : Access) (o : Options) : (start o).Consistent k where
  present := nofun
  runnable := nofun
  activated := nofun
  known := nofun
  permits := World.permits_new k o

variable {k : Access} {c c' : Moment} {d : Deed}

/-- The runs after a deed were there before, but for one that begins. -/
theorem Step.runs (h : Step k c d c') : ∀ run ∈ c'.runs, run ∈ c.runs ∨
    (∃ r m, d = .opened r ∧ run = .direct r ∧ c.world.machine? r = some m) ∨
    ∃ id address frame m, d = .entered id address ∧ run = .entry id address frame ∧
      c.world.machine? (.behaviour id) = some m ∧ frame.state.isRunnable = true := by
  intro run hrun
  cases h with
  | left | stopped => exact .inl (List.mem_cons_of_mem _ hrun)
  | @entered w rs id b m address found machine runnable =>
    obtain rfl | hrun := List.mem_cons.1 hrun
    · exact .inr (.inr ⟨_, _, _, m, rfl, rfl, World.machine?_of_behaviour? found machine, runnable⟩)
    · exact .inl hrun
  | opened _ found =>
    obtain rfl | hrun := List.mem_cons.1 hrun
    · exact .inr (.inl ⟨_, _, rfl, rfl, found⟩)
    · exact .inl hrun
  | _ => exact .inl hrun

/-- A machine does not go away unless its behaviour is disabled or dropped. -/
theorem Step.present {r : MachineRef} {m : Machine} (h : Step k c d c')
    (hm : c.world.machine? r = some m) (disabled : ∀ id, r = .behaviour id → d ≠ .disabled id)
    (dropped : ∀ id, r = .behaviour id → d ≠ .dropped id) :
    ∃ m', c'.world.machine? r = some m' := by
  have ha := h.alters r
  rw [hm] at ha
  cases hm' : c'.world.machine? r with
  | some m' => exact ⟨m', rfl⟩
  | none =>
    rw [hm'] at ha
    cases ha with
    | disabled own => exact absurd rfl (disabled _ own)
    | dropped own => exact absurd rfl (dropped _ own)

/-- The machine of a run in progress does not go away. -/
theorem Step.present_of_mem {run : OpenRun} {r : MachineRef} {m : Machine} (h : Step k c d c')
    (hrun : run ∈ c.runs) (hr : run.machine = some r) (hm : c.world.machine? r = some m) :
    ∃ m', c'.world.machine? r = some m' := by
  refine h.present hm ?_ ?_
  · rintro id rfl rfl
    cases h with
    | change change => cases change
    | disabled closed => exact closed run hrun hr
  · rintro id rfl rfl
    cases h with
    | change change => cases change
    | dropped => cases hrun

/-- The frame with which a run ends is the one with which it began. -/
theorem Step.frame {id : BehaviourId} {address : UInt32} {frame : World.Frame}
    {x : Except VmError Finish} (h : Step k c (.left id address frame x) c') :
    .entry id address frame ∈ c.runs := by
  cases h with
  | change change => cases change
  | left => exact List.mem_cons_self

/-- A behaviour that has been activated is not put back to where it was before. -/
theorem Step.state?_ne_unloaded {id : BehaviourId} {s : BehaviourState} (h : Step k c d c')
    (hc : c.Consistent k) (hs : c.world.state? id = some s) (hne : s ≠ .unloaded) :
    c'.world.state? id ≠ some .unloaded := by
  have ht := h.turns id
  rw [hs] at ht
  generalize c'.world.state? id = s?' at ht
  cases ht with
  | kept =>
    intro he
    cases he
    exact hne rfl
  | activated | unactivated => exact absurd rfl hne
  | returned =>
    have hf := hc.runnable _ _ _ h.frame
    intro he
    split at he
    · rw [Option.some.inj he] at hf
      cases hf
    · exact hne (Option.some.inj he)
  | _ => nofun

theorem Step.direct_of_loaded {r : MachineRef} {p : Program} {heap : Heap}
    (h : Step k c (.loaded r p heap) c') : k.direct = true := by
  cases h with
  | change change =>
    cases change with
    | loaded direct => exact direct
  | loaded direct => exact direct

/-- Only behaviours that have not been activated are. -/
theorem Step.unloaded_of_activated {id : BehaviourId} {x : Except LoadError Unit}
    (h : Step k c (.activated id x) c') : c.world.state? id = some .unloaded := by
  generalize hd : Deed.activated id x = d at h
  cases h with
  | change change =>
    subst hd
    cases change
  | activated found unloaded =>
    cases hd
    rw [World.state?_of_behaviour? found, unloaded]
  | _ => cases hd

/-- A machine that is there after a deed belongs to a behaviour that has been activated. -/
theorem Step.of_machine? {id : BehaviourId} {m' : Machine} (h : Step k c d c') (hc : c.Consistent k)
    (hm' : c'.world.machine? (.behaviour id) = some m') :
    c'.world.state? id ≠ some .unloaded ∧ m'.program ≠ none := by
  have ha := h.alters (.behaviour id)
  rw [hm'] at ha
  cases hm : c.world.machine? (.behaviour id) with
  | none =>
    rw [hm] at ha
    generalize hd : d = d' at ha
    cases ha with
    | activated own program built =>
      cases own
      rw [(World.buildMachine_ok built).1]
      have ht := h.turns id
      subst hd
      generalize c.world.state? id = s?, c'.world.state? id = s?' at ht
      cases ht with
      | kept other => exact absurd rfl other
      | absent => exact ⟨nofun, nofun⟩
      | activated => exact ⟨nofun, nofun⟩
  | some m =>
    obtain ⟨hs, hp⟩ := hc.activated id m hm
    obtain ⟨s, hs'⟩ := World.state?_of_machine? hm
    rw [hm] at ha
    rw [hs'] at hs
    exact ⟨h.state?_ne_unloaded hc hs' fun he => hs (he ▸ rfl), ha.program hp⟩

/-- Deeds keep moments consistent. -/
theorem Step.consistent (h : Step k c d c') (hc : c.Consistent k) : c'.Consistent k where
  present := by
    intro run hrun r hr
    obtain hrun | ⟨r', m, rfl, rfl, hm⟩ | ⟨id, address, frame, m, rfl, rfl, hm, -⟩ :=
      h.runs run hrun
    · obtain ⟨m, hm⟩ := hc.present run hrun r hr
      exact h.present_of_mem hrun hr hm
    · cases hr
      exact h.present hm nofun nofun
    · cases hr
      exact h.present hm nofun nofun
  runnable := by
    intro id address frame hrun
    obtain hrun | ⟨r', m, rfl, hr, -⟩ | ⟨_, _, _, _, -, hr, -, hf⟩ := h.runs _ hrun
    · exact hc.runnable id address frame hrun
    · cases hr
    · cases hr
      exact hf
  activated := fun id m' hm' => h.of_machine? hc hm'
  known := by
    intro id s' hs'
    have ht := h.turns id
    rw [hs'] at ht
    obtain ⟨id', hd, hid, hn⟩ | ⟨hd, hn⟩ := h.nextId hc.permits
    · rw [hn]
      obtain rfl | ⟨s, hs⟩ := ht.found
      · cases hd
        omega
      · have := hc.known id s hs
        omega
    · rw [hn]
      obtain rfl | ⟨s, hs⟩ := ht.found
      · exact absurd rfl (hd id)
      · exact hc.known id s hs
  permits := h.permits hc.permits

end Moment

end EventVm
