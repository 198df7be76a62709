import EventVm.Proofs.World.Stopping

/-!
# Behaviours with a run in progress

Without direct access to machines, a behaviour with a run in progress is executing, unless its
machine is faulted (`Moment.Trace.executing`).
-/

namespace EventVm

open Moment

/-- The behaviour has no machine that is not faulted. -/
def FaultedAt (id : BehaviourId) (w : World) : Prop :=
  ∀ m, w.machine? (.behaviour id) = some m → m.faulted = true

theorem FaultedAt.of_machine? {id : BehaviourId} {w : World} {m : Machine}
    (hm : w.machine? (.behaviour id) = some m) (hf : m.faulted = true) : FaultedAt id w := by
  intro m' hm'
  rw [hm] at hm'
  cases hm'
  exact hf

/-- A run of the behaviour is in progress. -/
def OpenRun.InProgress (id : BehaviourId) (rs : List OpenRun) : Prop :=
  ∃ address frame, .entry id address frame ∈ rs

/-- A behaviour with a run in progress is executing, and its inner runs began when it was, unless
its machine is faulted. -/
structure Moment.Executing (c : Moment) : Prop where
  state : ∀ id, OpenRun.InProgress id c.runs →
    c.world.state? id = some .executing ∨ FaultedAt id c.world
  frames : ∀ id address frame outer, .entry id address frame :: outer <:+ c.runs →
    OpenRun.InProgress id outer → frame.state = .executing ∨ FaultedAt id c.world

section Executing

variable {k : Access} {id : BehaviourId} {c c' : Moment} {d : Deed}

/-- It is over with a behaviour whose machine is faulted while a run is in progress. -/
theorem over_of_faultedAt (hc : c.Consistent k) (hin : OpenRun.InProgress id c.runs)
    (hf : FaultedAt id c.world) : Over id c.world := by
  obtain ⟨address, frame, hrun⟩ := hin
  obtain ⟨m, hm⟩ := hc.present _ hrun _ rfl
  obtain ⟨s, hs⟩ := World.state?_of_machine? hm
  exact ⟨hc.known id s hs, (hc.activated id m hm).1, fun m hm => .inl (hf m hm)⟩

/-- The machine of a behaviour with a run in progress stays faulted. -/
theorem Moment.Step.faultedAt (h : Step k c d c') (hk : k.direct = false) (hc : c.Consistent k)
    (hin : OpenRun.InProgress id c.runs) (hf : FaultedAt id c.world) : FaultedAt id c'.world :=
  fun _ hm' => h.faulted hk hc (over_of_faultedAt hc hin hf) hf hm'

/-- What is done while a run of a behaviour is in progress, and after which one still is, leaves the
behaviour executing. -/
theorem Moment.Step.executing_of_inProgress (h : Step k c d c') (hk : k.direct = false)
    (hc : c.Consistent k) (he : c.Executing) (hin : OpenRun.InProgress id c.runs)
    (hin' : OpenRun.InProgress id c'.runs) :
    c'.world.state? id = some .executing ∨ FaultedAt id c'.world := by
  obtain hs | hf := he.state id hin
  · have ht := h.turns id
    rw [hs] at ht
    generalize hs' : c'.world.state? id = s?' at ht ⊢
    cases ht with
    | kept | entered => exact .inl rfl
    | dropped =>
      obtain ⟨address, frame, hrun⟩ := hin
      cases h with
      | change change => cases change
      | dropped => cases hrun
    | disabled =>
      obtain ⟨address, frame, hrun⟩ := hin
      cases h with
      | change change => cases change
      | disabled closed => exact absurd rfl (closed _ hrun)
    | refused =>
      obtain ⟨m, hm, hfaulted⟩ := h.machine?_of_refused
      exact .inr (.of_machine? hm hfaulted)
    | @returned address frame =>
      have hframe : frame.state = .executing ∨ FaultedAt id c.world := by
        cases h with
        | change change => cases change
        | left => exact he.frames id address frame _ List.suffix_rfl hin'
      exact hframe.imp (congrArg some) (h.faultedAt hk hc hin)
    | faulted failed =>
      obtain ⟨m, hm, hfaulted⟩ := h.machine?_of_failed hc failed
      exact .inr (.of_machine? hm hfaulted)
  · exact .inr (h.faultedAt hk hc hin hf)

/-- Deeds leave behaviours with runs in progress executing. -/
theorem Moment.Step.executing (h : Step k c d c') (hk : k.direct = false) (hc : c.Consistent k)
    (he : c.Executing) : c'.Executing where
  state := by
    intro id hin'
    by_cases hin : OpenRun.InProgress id c.runs
    · exact h.executing_of_inProgress hk hc he hin hin'
    · obtain ⟨address, frame, hrun'⟩ := hin'
      obtain hrun | ⟨_, _, _, hr, -⟩ | ⟨_, _, _, m, rfl, hr, hm, -⟩ := h.runs _ hrun'
      · exact absurd ⟨address, frame, hrun⟩ hin
      · cases hr
      · cases hr
        obtain ⟨s, hs⟩ := World.state?_of_machine? hm
        have ht := h.turns id
        rw [hs] at ht
        generalize c'.world.state? id = s?' at ht ⊢
        cases ht with
        | kept other => exact absurd rfl other
        | entered => exact .inl rfl
  frames := by
    intro id address frame outer hsuffix hin
    have hold : .entry id address frame :: outer <:+ c.runs →
        frame.state = .executing ∨ FaultedAt id c'.world := by
      intro hold
      have hrun := hold.subset List.mem_cons_self
      exact (he.frames id address frame outer hold hin).imp_right
        (h.faultedAt hk hc ⟨address, frame, hrun⟩)
    have hstacks := h.stacks
    generalize hrs : c.runs = rs, hrs' : c'.runs = rs' at hstacks
    rw [hrs] at hold
    rw [hrs'] at hsuffix
    cases hstacks with
    | kept => exact hold hsuffix
    | left | stopped => exact hold (hsuffix.trans (List.suffix_cons ..))
    | opened =>
      obtain heq | hsuffix := List.suffix_cons_iff.1 hsuffix
      · cases heq
      · exact hold hsuffix
    | @entered id' address' b m rs found =>
      obtain heq | hsuffix := List.suffix_cons_iff.1 hsuffix
      · cases heq
        obtain hs | hf := he.state id (hrs ▸ hin)
        · rw [World.state?_of_behaviour? found] at hs
          exact .inl (Option.some.inj hs)
        · exact .inr (h.faultedAt hk hc (hrs ▸ hin) hf)
      · exact hold hsuffix

theorem executing_start (o : Options) : (start o).Executing where
  state := fun _ ⟨_, _, hrun⟩ => nomatch hrun
  frames := fun _ _ _ _ hsuffix _ => nomatch List.suffix_nil.1 hsuffix

/-- At the end of an account that begins in a new world, behaviours with runs in progress are
executing. -/
theorem Moment.Trace.executing {o : Options} {base : List OpenRun} {es : List (Deed × Moment)}
    (h : Trace k base (start o) es c) (hk : k.direct = false) : c.Executing := by
  have hboth := h.induct (P := fun c => c.Consistent k ∧ c.Executing)
    ⟨consistent_start k o, executing_start o⟩
    fun hstep ⟨hc, he⟩ => ⟨hstep.consistent hc, hstep.executing hk hc he⟩
  exact hboth.2

end Executing

end EventVm
