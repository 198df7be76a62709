import EventVm.Proofs.World.Stopping

/-!
# Failed runs are reported once

With built-in functions only and without direct access to machines, the journal holds one report of
a failed run for every behaviour that has ever been faulted, and none for the others
(`reported_once`). The first failure is reported by the run that finds it; the runs of the behaviour
that are still in progress then find its machine faulted, and say nothing.
-/

namespace EventVm

open Moment

/-- No run of the behaviour has failed so far. -/
structure Unfailed (id : BehaviourId) (w : World) : Prop where
  unreported : w.reports id = 0
  state : w.state? id ≠ some .faulted
  sound : ∀ m, w.machine? (.behaviour id) = some m → m.faulted = false

/-- A run of the behaviour has failed, and that has been reported. -/
structure Failed (id : BehaviourId) (w : World) : Prop where
  reported : w.reports id = 1
  stopped : Over id w
  faulted : ∀ m, w.machine? (.behaviour id) = some m →
    m.faulted = true ∧ w.state? id = some .faulted

section Reports

variable {k : Access} {id : BehaviourId} {c c' : Moment} {d : Deed}

theorem Moment.Step.reports (h : Step k c d c') (id : BehaviourId) :
    c'.world.reports id = d.reports id + c.world.reports id := by
  obtain ⟨new, hj, -, hnew, -⟩ := h.wroteFor
  rw [World.reports, hj, List.countP_append, hnew]
  rfl

/-! ### Up to the first failure -/

/-- A run whose end is not reported has reached the end of its program, unless its machine was
faulted already. -/
theorem Machine.MayFinish.of_unreported {m : Machine} {x : Except VmError Finish}
    (h : m.MayFinish k x) (hx : Finish.isReported x = false) (hm : m.faulted = false) :
    x = .ok .reachedHalt := by
  cases h with
  | reachedHalt => rfl
  | aborted => cases hx
  | halted faulted =>
    rw [hm] at faulted
    cases faulted
  | noProgram => cases hx
  | @failed e fault =>
    cases e with
    | halted => exact absurd rfl fault.1
    | _ => cases hx

/-- A run that is not reported has not failed, if no run has before. -/
theorem Moment.Step.returned_of_unreported {address : UInt32} {frame : World.Frame}
    {x : Except VmError Finish} (h : Step k c (.left id address frame x) c') (hc : c.Consistent k)
    (hd : (Deed.left id address frame x).reports id = 0) (hu : Unfailed id c.world) :
    x = .ok .reachedHalt := by
  obtain ⟨m, hm⟩ := hc.present _ h.frame _ rfl
  cases h with
  | change change => cases change
  | left ended =>
    refine ended.of_unreported ?_ ?_
    · simpa [Deed.reports] using hd
    · rw [World.machine_of_machine? hm]
      exact hu.sound m hm

theorem Machine.faulted_leave_returned (frame : World.Frame) (m : Machine) :
    (m.leave frame (.ok .reachedHalt)).faulted = m.faulted :=
  rfl

/-- A deed that reports nothing has found no failure. -/
theorem Moment.Step.unfailed (h : Step k c d c') (hk : k.direct = false) (hc : c.Consistent k)
    (hd : d.reports id = 0) (hu : Unfailed id c.world) : Unfailed id c'.world where
  unreported := by rw [h.reports, hd, hu.unreported]
  state := by
    have ht := h.turns id
    have hs := hu.state
    generalize c.world.state? id = s?, c'.world.state? id = s?' at ht hs
    cases ht with
    | kept => exact hs
    | returned =>
      have hf := hc.runnable _ _ _ h.frame
      intro he
      split at he
      · rw [Option.some.inj he] at hf
        cases hf
      · exact hs he
    | refused => simp [Deed.reports] at hd
    | faulted failed => exact absurd (h.returned_of_unreported hc hd hu) failed
    | _ => simp
  sound := by
    intro m' hm'
    have ha := h.alters (.behaviour id)
    have hsound := hu.sound
    rw [hm'] at ha
    generalize c.world.machine? (.behaviour id) = m? at ha hsound
    cases ha with
    | kept | opened | unactivated => exact hsound m' rfl
    | aborted | assigned | put | started | entered =>
      have hm := hsound _ rfl
      exact hm
    | poked direct | loaded direct | stopped direct =>
      rw [hk] at direct
      cases direct
    | begun own runs frame =>
      rw [frame]
      exact runs.sound
    | refused own =>
      cases own
      simp [Deed.reports] at hd
    | left own =>
      cases own
      rw [h.returned_of_unreported hc hd hu, Machine.faulted_leave_returned]
      exact hsound _ rfl
    | activated own program built => exact (World.buildMachine_ok built).2

/-- A deed that reports a failure of the behaviour is the end of a run that has failed, or of one
that is refused. -/
theorem Deed.failure_of_reports (hd : d.reports id ≠ 0) :
    d.reports id = 1 ∧ ((∃ address, d = .refused id address) ∨
      ∃ address frame x, d = .left id address frame x ∧ x ≠ .ok .reachedHalt) := by
  unfold reports at hd ⊢
  split at hd
  · obtain rfl : _ = id := by simpa using hd
    exact ⟨if_pos rfl, .inl ⟨_, rfl⟩⟩
  · next id' address frame x =>
    have hx : id' = id ∧ Finish.isReported x = true := by simpa using hd
    obtain ⟨rfl, hreported⟩ := hx
    refine ⟨if_pos ⟨rfl, hreported⟩, .inr ⟨_, _, _, rfl, ?_⟩⟩
    rintro rfl
    cases hreported
  · exact absurd rfl hd

/-! ### From the first failure on -/

/-- A deed that reports a failure has found the first one. -/
theorem Moment.Step.failed_of_reports (h : Step k c d c') (hc : c.Consistent k)
    (hd : d.reports id ≠ 0) (hu : Unfailed id c.world) :
    Failed id c'.world ∧ c'.world.state? id = some .faulted := by
  obtain ⟨hone, hstops⟩ := Deed.failure_of_reports hd
  have hreported : c'.world.reports id = 1 := by
    rw [h.reports, hone, hu.unreported]
  have hfaulted : d.Stops id c'.world ∧ c'.world.state? id = some .faulted ∧
      ∃ m, c'.world.machine? (.behaviour id) = some m ∧ m.faulted = true := by
    obtain ⟨address, rfl⟩ | ⟨address, frame, x, rfl, hx⟩ := hstops
    · exact ⟨.refused address, h.faulted_of_refused, h.machine?_of_refused⟩
    · exact ⟨.failed hx, h.faulted_of_failed hc hx, h.machine?_of_failed hc hx⟩
  obtain ⟨hd, hs, m, hm, hf⟩ := hfaulted
  refine ⟨⟨hreported, h.over_of_stops hc hd, fun m' hm' => ?_⟩, hs⟩
  rw [hm] at hm'
  cases hm'
  exact ⟨hf, hs⟩

/-- The end of a run whose machine is faulted is not reported. -/
theorem Machine.MayFinish.unreported_of_faulted {m : Machine} {x : Except VmError Finish}
    (h : m.MayFinish k x) (hf : k.functions = false) (hm : m.faulted = true)
    (hp : m.program ≠ none) : Finish.isReported x = false := by
  have hruns : ¬ m.Runs := Machine.not_runs (.inl hm)
  cases h with
  | reachedHalt => rfl
  | aborted sound =>
    rw [hm] at sound
    cases sound
  | halted => rfl
  | noProgram empty => exact absurd empty hp
  | failed _ runs => exact absurd (runs hf) hruns

/-- Nothing more is reported of a behaviour whose failure has been. -/
theorem Moment.Step.unreported (h : Step k c d c') (hf : k.functions = false) (hc : c.Consistent k)
    (hu : Failed id c.world) : d.reports id = 0 := by
  by_contra hd
  obtain ⟨-, ⟨address, rfl⟩ | ⟨address, frame, x, rfl, -⟩⟩ := Deed.failure_of_reports hd
  · cases h with
    | change change => cases change
    | refused _ found machine runnable =>
      have hs := (hu.faulted _ (World.machine?_of_behaviour? found machine)).2
      rw [World.state?_of_behaviour? found] at hs
      rw [Option.some.inj hs] at runnable
      cases runnable
  · obtain ⟨m, hm⟩ := hc.present _ h.frame _ rfl
    cases h with
    | change change => cases change
    | left ended =>
      rw [World.machine_of_machine? hm] at ended
      have hunreported :=
        ended.unreported_of_faulted hf (hu.faulted m hm).1 (hc.activated id m hm).2
      exact hd (by simp [Deed.reports, hunreported])

/-- A behaviour that is faulted stays so as long as its machine is there. -/
theorem Moment.Step.state_faulted (h : Step k c d c') (hc : c.Consistent k)
    (hu : Failed id c.world) {m' : Machine}
    (hm' : c'.world.machine? (.behaviour id) = some m') :
    c'.world.state? id = some .faulted := by
  have ha := h.alters (.behaviour id)
  have ht := h.turns id
  rw [hm'] at ha
  cases hm : c.world.machine? (.behaviour id) with
  | none =>
    rw [hm] at ha
    generalize hd : d = d' at ha
    cases ha with
    | activated own =>
      cases own
      exact absurd hd (hu.stopped.ne_activated h _)
  | some m =>
    rw [(hu.faulted m hm).2] at ht
    rw [hm] at ha
    generalize c'.world.state? id = s?' at ht
    cases ht with
    | kept | refused | faulted => rfl
    | entered runnable => cases runnable
    | returned => exact absurd rfl (h.failed_of_over hc hu.stopped)
    | disabled | dropped =>
      cases ha with
      | kept other => exact absurd rfl other

/-- After the first failure, none is reported. -/
theorem Moment.Step.failed (h : Step k c d c') (hk : k.direct = false) (hf : k.functions = false)
    (hc : c.Consistent k) (hu : Failed id c.world) : Failed id c'.world where
  reported := by rw [h.reports, h.unreported hf hc hu, hu.reported]
  stopped := h.over hk hc hu.stopped
  faulted := fun _ hm' =>
    ⟨h.faulted hk hc hu.stopped (fun m hm => (hu.faulted m hm).1) hm', h.state_faulted hc hu hm'⟩

theorem unfailed_start (o : Options) (id : BehaviourId) : Unfailed id (start o).world where
  unreported := rfl
  state := fun h => nomatch h
  sound := fun _ h => nomatch h

/-- At the end of an account, one failure has been reported of every behaviour that was faulted at
some moment, and none of the others. -/
theorem Moment.Trace.reports {o : Options} {es : List (Deed × Moment)}
    (h : Trace k [] (start o) es c) (hk : k.direct = false) (hf : k.functions = false)
    (id : BehaviourId) :
    (Unfailed id c.world ∧ ∀ e ∈ es, e.2.world.state? id ≠ some .faulted) ∨
      Failed id c.world ∧ ∃ e ∈ es, e.2.world.state? id = some .faulted := by
  induction h with
  | nil => exact .inl ⟨unfailed_start o id, List.forall_mem_nil _⟩
  | @next es c₁ c₂ d before step within ih =>
    have hc := before.consistent (consistent_start k o)
    obtain ⟨hu, hes⟩ | ⟨hu, e, he, hs⟩ := ih
    · by_cases hd : d.reports id = 0
      · have hu' := step.unfailed hk hc hd hu
        exact .inl ⟨hu', List.forall_mem_cons.2 ⟨hu'.state, hes⟩⟩
      · obtain ⟨hfailed, hs⟩ := step.failed_of_reports hc hd hu
        exact .inr ⟨hfailed, _, List.mem_cons_self, hs⟩
    · exact .inr ⟨step.failed hk hf hc hu, e, List.mem_cons_of_mem _ he, hs⟩

/-- There is an account of every world that a host can reach with built-in functions and without
direct access to machines; and whatever behaviour was ever faulted, the journal holds exactly one
report of its failure, and it holds none for the others. -/
theorem reported_once {o : Options} {w : World} (hk : k.direct = false) (hf : k.functions = false)
    (hw : Reachable k o w) :
    (∃ es rs, Trace k [] (start o) es ⟨w, rs⟩) ∧
    ∀ id es rs, Trace k [] (start o) es ⟨w, rs⟩ →
      w.reports id = if ∃ e ∈ es, e.2.world.state? id = some .faulted then 1 else 0 := by
  refine ⟨hw.account, fun id es rs h => ?_⟩
  obtain ⟨hu, hes⟩ | ⟨hu, hes⟩ := h.reports hk hf id
  · rw [hu.unreported, if_neg]
    rintro ⟨e, he, hs⟩
    exact hes e he hs
  · rw [if_pos hes]
    exact hu.reported

end Reports

/-- A program whose event handler takes an address off the empty stack: the first run of it fails,
and that is reported once, although the event is sent twice. -/
theorem reported_once_pop : ∃ w, Reachable ⟨false, false⟩ .default w ∧
    w.state? ⟨1⟩ = some .faulted ∧ w.reports ⟨1⟩ = 1 := by
  let p := { Program.empty "faulty" with
    code := Instruction.encodeWords .pop none
    entryPoints := .ofList [⟨"_start", 0, .object, true⟩] (by simp) }
  let u := (World.new .default).addBehaviour (.of 100 101) (some p)
  let activate : Run Outcome := World.operate 1 ⟨1⟩ .activate
  let send : Run Outcome := World.operate 3 ⟨1⟩ (.send "_start")
  have hacts : (((activate.after? u).bind send.after?).bind send.after?).any
      (fun w => w.state? ⟨1⟩ = some .faulted) = true := by
    decide +kernel
  obtain ⟨w, hw, hs⟩ := (Option.any_eq_true _ _).1 hacts
  replace hs : w.state? ⟨1⟩ = some .faulted := of_decide_eq_true hs
  obtain ⟨v, hv, hw⟩ := Option.bind_eq_some_iff.1 hw
  obtain ⟨w₀, h₀, hv⟩ := Option.bind_eq_some_iff.1 hv
  obtain ⟨_, h₀⟩ := Run.of_after? h₀
  obtain ⟨_, hv⟩ := Run.of_after? hv
  obtain ⟨_, hw⟩ := Run.of_after? hw
  have hactivate : HostAct ⟨false, false⟩ activate := .operate 1 ⟨1⟩ (.inr rfl)
  have hsend : HostAct ⟨false, false⟩ send := .operate 3 ⟨1⟩ (.inr rfl)
  have hreached : Reachable ⟨false, false⟩ .default w :=
    .between (.act (.act (.act (.act .new (.create (.of 100 101) (some p)) rfl)
      hactivate h₀) hsend hv) hsend hw)
  have honce := reported_once rfl rfl hreached
  obtain ⟨es, rs, h⟩ := honce.1
  refine ⟨w, hreached, hs, ?_⟩
  rw [honce.2 ⟨1⟩ es rs h]
  apply if_pos
  cases h with
  | nil => cases hs
  | next before step within => exact ⟨_, List.mem_cons_self, hs⟩

end EventVm
