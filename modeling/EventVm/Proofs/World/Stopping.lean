import EventVm.Proofs.World.Accounts
import EventVm.Proofs.World.Journals

/-!
# Nothing runs after a failure

When a run of a behaviour has failed, or an abort has been requested, no further instruction of the
behaviour is begun, not even by the runs that are still in progress. The flags of its machine see to
that: from then on one of them is set whenever an instruction could be due (`Over`).

* `stopped_for_good`: what is true of everything that happens from then on.
-/

namespace EventVm

open Moment

/-! ### Written values -/

/-- What a deed writes on the heap of the machine `r` from outside of the machine's instructions. -/
def Deed.write (r : MachineRef) : Deed → Heap → Heap
  | .assigned id address v, h => if r = .behaviour id then (h.set address v).toOption.getD h else h
  | .put r' address v, h => if r = r' then (h.set address v).toOption.getD h else h
  | _, h => h

/-- The heap of the machine `r` after what an account says was written on it. -/
def replay (r : MachineRef) (es : List (Deed × Moment)) (h : Heap) : Heap :=
  es.foldr (fun e h => e.1.write r h) h

/-- Only deeds about a machine write on its heap. -/
theorem Deed.write_of_ne {d : Deed} {r : MachineRef} (h : d.machine ≠ some r) (heap : Heap) :
    d.write r heap = heap := by
  unfold write
  split
  · rw [if_neg fun hr => h (by rw [hr]; rfl)]
  · rw [if_neg fun hr => h (by rw [hr]; rfl)]
  · rfl

/-- A deed that neither loads a program nor is an instruction of the machine does to its heap what
it writes. -/
theorem Alters.heap_eq {k : Access} {o : Options} {r : MachineRef} {d : Deed} {m m' : Machine}
    (h : Alters k o r d (some m) (some m')) (hbegun : ∀ i, d = .begun i → i.machine ≠ r)
    (hloaded : ∀ p heap, d ≠ .loaded r p heap)
    (hactivated : ∀ id, r = .behaviour id → d ≠ .activated id (.ok ())) :
    m'.heap = d.write r m.heap := by
  cases h with
  | kept other => exact (Deed.write_of_ne other _).symm
  | poked direct heap program => exact heap
  | assigned own written => simp [Deed.write, own, written, Except.toOption]
  | put written => simp [Deed.write, written, Except.toOption]
  | loaded => exact absurd rfl (hloaded _ _)
  | begun own => exact absurd own (hbegun _ rfl)
  | activated own => exact absurd rfl (hactivated _ own)
  | stopped => exact Machine.heap_finish ..
  | left => exact Machine.heap_leave ..
  | _ => rfl

/-! ### Behaviours that have been stopped -/

/-- A deed stops a behaviour: a run of it has failed, or an abort is requested of its machine. The
world is the one to which the deed leads. -/
inductive Deed.Stops (id : BehaviourId) (w : World) : Deed → Prop where
  | failed {address : UInt32} {frame : World.Frame} {x : Except VmError Finish}
    (failed : x ≠ .ok .reachedHalt) : Stops id w (.left id address frame x)
  | refused (address : UInt32) : Stops id w (.refused id address)
  | aborted {m : Machine} (found : w.machine? (.behaviour id) = some m) : Stops id w (.aborted id)

/-- Nothing runs any more on the machine of a behaviour, and no other one can be built. -/
structure Over (id : BehaviourId) (w : World) : Prop where
  known : id.number < w.nextId
  activated : w.state? id ≠ some .unloaded
  flagged : ∀ m, w.machine? (.behaviour id) = some m → m.faulted = true ∨ m.abortRequested = true

section Stopping

variable {k : Access} {id : BehaviourId} {c c' : Moment} {d : Deed}

theorem Machine.faulted_leave {frame : World.Frame} {x : Except VmError Finish}
    (hx : x ≠ .ok .reachedHalt) (m : Machine) : (m.leave frame x).faulted = true := by
  simp [Machine.leave, hx]

theorem Machine.not_runs {m : Machine} (h : m.faulted = true ∨ m.abortRequested = true) :
    ¬ m.Runs := by
  rintro ⟨hf, ha⟩
  simp [hf, ha] at h

/-- Only runs of machines that are there are refused. -/
theorem Moment.Step.machine_of_refused {address : UInt32} (h : Step k c (.refused id address) c') :
    ∃ m, c.world.machine? (.behaviour id) = some m := by
  cases h with
  | change change => cases change
  | refused _ found machine => exact ⟨_, World.machine?_of_behaviour? found machine⟩

/-- A failed run leaves its machine faulted. -/
theorem Moment.Step.machine?_of_failed {address : UInt32} {frame : World.Frame}
    {x : Except VmError Finish} (h : Step k c (.left id address frame x) c') (hc : c.Consistent k)
    (hx : x ≠ .ok .reachedHalt) :
    ∃ m, c'.world.machine? (.behaviour id) = some m ∧ m.faulted = true := by
  have ha := h.alters (.behaviour id)
  obtain ⟨m, hm⟩ := hc.present _ h.frame _ rfl
  rw [hm] at ha
  generalize c'.world.machine? (.behaviour id) = m?' at ha
  cases ha with
  | kept other => exact absurd rfl other
  | left => exact ⟨_, rfl, Machine.faulted_leave hx m⟩

/-- So does a refused one. -/
theorem Moment.Step.machine?_of_refused {address : UInt32}
    (h : Step k c (.refused id address) c') :
    ∃ m, c'.world.machine? (.behaviour id) = some m ∧ m.faulted = true := by
  have ha := h.alters (.behaviour id)
  obtain ⟨m, hm⟩ := h.machine_of_refused
  rw [hm] at ha
  generalize c'.world.machine? (.behaviour id) = m?' at ha
  cases ha with
  | kept other => exact absurd rfl other
  | refused => exact ⟨_, rfl, rfl⟩

/-- When a behaviour is stopped, a flag of its machine is set. -/
theorem Moment.Step.flagged_of_stops (h : Step k c d c') (hc : c.Consistent k)
    (hd : d.Stops id c'.world) : ∃ m, c'.world.machine? (.behaviour id) = some m ∧
      (m.faulted = true ∨ m.abortRequested = true) := by
  cases hd with
  | failed failed =>
    obtain ⟨m, hm, hf⟩ := h.machine?_of_failed hc failed
    exact ⟨m, hm, .inl hf⟩
  | refused address =>
    obtain ⟨m, hm, hf⟩ := h.machine?_of_refused
    exact ⟨m, hm, .inl hf⟩
  | @aborted m found =>
    have ha := h.alters (.behaviour id)
    rw [found] at ha
    generalize c.world.machine? (.behaviour id) = m? at ha
    cases ha with
    | kept other => exact absurd rfl other
    | aborted => exact ⟨_, found, .inr rfl⟩

/-- When a behaviour is stopped, it is over with it. -/
theorem Moment.Step.over_of_stops (h : Step k c d c') (hc : c.Consistent k)
    (hd : d.Stops id c'.world) : Over id c'.world := by
  have hc' := h.consistent hc
  obtain ⟨m, hm, hflag⟩ := h.flagged_of_stops hc hd
  obtain ⟨s, hs⟩ := World.state?_of_machine? hm
  refine ⟨hc'.known id s hs, (hc'.activated id m hm).1, fun m' hm' => ?_⟩
  rw [hm] at hm'
  cases hm'
  exact hflag

/-! ### What happens from then on -/

/-- Numbers of behaviours that there have been are not given out again. -/
theorem Moment.Step.ne_created (h : Step k c d c') (hc : c.Consistent k)
    (hid : id.number < c.world.nextId) : d ≠ .created id := by
  rintro rfl
  obtain ⟨id', hd, hn, -⟩ | ⟨hd, -⟩ := h.nextId hc.permits
  · cases hd
    omega
  · exact hd id rfl

theorem Over.ne_activated (ho : Over id c.world) (h : Step k c d c') (x : Except LoadError Unit) :
    d ≠ .activated id x := by
  rintro rfl
  exact ho.activated h.unloaded_of_activated

/-- Without direct access, the flags of a machine that does not run are not cleared, or it
faults. -/
theorem Moment.Step.flagged (h : Step k c d c') (hk : k.direct = false) (ho : Over id c.world)
    {m' : Machine} (hm' : c'.world.machine? (.behaviour id) = some m') :
    m'.faulted = true ∨ m'.abortRequested = true := by
  have ha := h.alters (.behaviour id)
  have hactivated := ho.ne_activated h
  have hflagged := ho.flagged
  rw [hm'] at ha
  generalize c.world.machine? (.behaviour id) = m? at ha hflagged
  cases ha with
  | kept | opened | unactivated => exact hflagged m' rfl
  | aborted => exact .inr rfl
  | poked direct | loaded direct | stopped direct =>
    rw [hk] at direct
    cases direct
  | assigned | put | started | entered =>
    have hm := hflagged _ rfl
    exact hm
  | begun own runs => exact absurd runs (Machine.not_runs (hflagged _ rfl))
  | refused => exact .inl rfl
  | @left _ address frame x m own ended =>
    by_cases hx : x = .ok .reachedHalt
    · subst hx
      cases ended with
      | reachedHalt runs => exact absurd runs (Machine.not_runs (hflagged _ rfl))
    · exact .inl (Machine.faulted_leave hx m)
  | activated own =>
    cases own
    exact absurd rfl (hactivated _)

/-- It stays over with a behaviour, whatever happens. -/
theorem Moment.Step.over (h : Step k c d c') (hk : k.direct = false) (hc : c.Consistent k)
    (ho : Over id c.world) : Over id c'.world where
  known := Nat.lt_of_lt_of_le ho.known (h.nextId_le hc.permits)
  activated := by
    cases hs : c.world.state? id with
    | some s => exact h.state?_ne_unloaded hc hs fun he => ho.activated (by rw [hs, he])
    | none =>
      have ht := h.turns id
      rw [hs] at ht
      generalize c'.world.state? id = s?' at ht
      cases ht with
      | created => exact absurd rfl (h.ne_created hc ho.known)
      | _ => nofun
  flagged := fun _ hm' => h.flagged hk ho hm'

/-- A machine that is flagged does not run. -/
theorem Over.not_runs {w : World} {m : Machine} (ho : Over id w)
    (hm : w.machine? (.behaviour id) = some m) : ¬ (w.machine (.behaviour id)).Runs := by
  rw [World.machine_of_machine? hm]
  exact Machine.not_runs (ho.flagged m hm)

/-- No instruction is begun of a behaviour with which it is over. -/
theorem Moment.Step.not_begun {i : Begun} (h : Step k c (.begun i) c') (hc : c.Consistent k)
    (ho : Over id c.world) : i.machine ≠ .behaviour id := by
  intro hi
  cases h with
  | change change =>
    cases change with
    | begun own runs =>
      rw [hi] at own runs
      obtain ⟨run, hrun, hr⟩ := OpenRun.mem_of_actor own
      obtain ⟨m, hm⟩ := hc.present run hrun _ hr
      exact ho.not_runs hm runs

/-- A run of a behaviour with which it is over ends with a failure. -/
theorem Moment.Step.failed_of_over {address : UInt32} {frame : World.Frame}
    {x : Except VmError Finish} (h : Step k c (.left id address frame x) c') (hc : c.Consistent k)
    (ho : Over id c.world) : x ≠ .ok .reachedHalt := by
  rintro rfl
  obtain ⟨m, hm⟩ := hc.present _ h.frame _ rfl
  cases h with
  | change change => cases change
  | left ended =>
    cases ended with
    | reachedHalt runs => exact ho.not_runs hm runs

/-- The machine of a behaviour with which it is over stays faulted if it is. -/
theorem Moment.Step.faulted (h : Step k c d c') (hk : k.direct = false) (hc : c.Consistent k)
    (ho : Over id c.world)
    (hfaulted : ∀ m, c.world.machine? (.behaviour id) = some m → m.faulted = true) {m' : Machine}
    (hm' : c'.world.machine? (.behaviour id) = some m') : m'.faulted = true := by
  have ha := h.alters (.behaviour id)
  rw [hm'] at ha
  generalize c.world.machine? (.behaviour id) = m? at ha hfaulted
  generalize hd : d = d' at ha
  cases ha with
  | kept | opened | unactivated => exact hfaulted m' rfl
  | aborted | assigned | put | started | entered =>
    have hm := hfaulted _ rfl
    exact hm
  | poked direct | loaded direct | stopped direct =>
    rw [hk] at direct
    cases direct
  | begun own runs => exact absurd runs (Machine.not_runs (.inl (hfaulted _ rfl)))
  | refused => rfl
  | left own =>
    cases own
    subst hd
    exact Machine.faulted_leave (h.failed_of_over hc ho) _
  | activated own =>
    cases own
    exact absurd hd (ho.ne_activated h _)

/-- A failed run leaves its behaviour faulted. -/
theorem Moment.Step.faulted_of_failed {address : UInt32} {frame : World.Frame}
    {x : Except VmError Finish} (h : Step k c (.left id address frame x) c') (hc : c.Consistent k)
    (hx : x ≠ .ok .reachedHalt) : c'.world.state? id = some .faulted := by
  obtain ⟨m, hm⟩ := hc.present _ h.frame _ rfl
  obtain ⟨s, hs⟩ := World.state?_of_machine? hm
  have ht := h.turns id
  rw [hs] at ht
  generalize c'.world.state? id = s?' at ht
  cases ht with
  | kept other => exact absurd rfl other
  | returned => exact absurd rfl hx
  | faulted => rfl

/-- So does a refused one. -/
theorem Moment.Step.faulted_of_refused {address : UInt32} (h : Step k c (.refused id address) c') :
    c'.world.state? id = some .faulted := by
  obtain ⟨m, hm⟩ := h.machine_of_refused
  obtain ⟨s, hs⟩ := World.state?_of_machine? hm
  have ht := h.turns id
  rw [hs] at ht
  generalize c'.world.state? id = s?' at ht
  cases ht with
  | kept other => exact absurd rfl other
  | refused => rfl

end Stopping

/-! ### The next run -/

namespace World

variable {id : BehaviourId} {w : World}

/-- A machine that is flagged ends its run at once, at the latest when its first instruction is
due. -/
theorem interpretWith_of_flagged {self : Reentry} {r : MachineRef} (fuel : Nat)
    (h : (w.machine r).faulted = true ∨ (w.machine r).abortRequested = true) :
    (interpretWith self (fuel + 1) r).Ends w
      (fun x w' => x ≠ .ok .reachedHalt ∧ w.SameStates w') fun _ => False := by
  refine interpretWith_ends (fun _ => ⟨nofun, .refl w⟩) (fun _ => ⟨nofun, .refl w⟩) fun p _ hf => ?_
  have ha := h.resolve_left (by simp [hf])
  rw [← apply_machine_mapMachine Machine.faulted (fun m => { m with halted := false })
    (fun _ => rfl) w r r] at hf
  rw [← apply_machine_mapMachine Machine.abortRequested (fun m => { m with halted := false })
    (fun _ => rfl) w r r] at ha
  unfold Run.Ends runLoop
  simp only [machine_note, hf, ha, Bool.false_eq_true, if_false, if_true]
  exact ⟨nofun, ⟨fun id => by rw [state?_mapMachine, state?_note, state?_mapMachine]⟩⟩

theorem conclude_of_failed {address : UInt32} {x : Except VmError Finish}
    (hx : x ≠ .ok .reachedHalt) (w : World) : (w.conclude id address x).1 = false := by
  unfold conclude
  split
  · exact absurd rfl hx
  · rfl
  · rfl
  · rfl

/-- What a failed run answers, and how it leaves its behaviour. -/
theorem ended_of_failed (address : UInt32) {x : Except VmError Finish} {s : BehaviourState}
    (hx : x ≠ .ok .reachedHalt) (hs : w.state? id = some s) :
    (w.conclude id address x).1 = false ∧
      (w.conclude id address x).2.state? id = some .faulted := by
  refine ⟨conclude_of_failed hx w, ?_⟩
  rw [state?_conclude, if_pos ⟨rfl, hx⟩, hs, Option.map_some]

/-- The next run of a behaviour with which it is over, if there is one, fails at once. -/
theorem runAt_of_over (ho : Over id w) (fuel : Nat) (address : UInt32) :
    ∃ w', runAt (fuel + 2) id address w = .ok false w' ∧
      ((∃ b m, w.behaviour? id = some b ∧ b.machine = some m ∧ b.state.isRunnable = true) →
        w'.state? id = some .faulted) := by
  have h : (runAtWith (interpretWith (reentry (fuel + 1)) (fuel + 1)) id address).Ends w
      (fun halted w' => halted = false ∧
        ((∃ b m, w.behaviour? id = some b ∧ b.machine = some m ∧ b.state.isRunnable = true) →
          w'.state? id = some .faulted)) fun _ => False := by
    refine runAtWith_ends ?_ ?_ ?_
    · refine fun hidle => ⟨rfl, ?_⟩
      rintro ⟨b, m, hb, hm, hr⟩
      rw [hidle b m hb hm] at hr
      cases hr
    · intro b m hb _ _ _
      have hended := ended_of_failed address
        (x := .error (.recursionLimit w.options.maxNestingDepth)) nofun (state?_of_behaviour? hb)
      exact ⟨hended.1, fun _ => hended.2⟩
    · intro b m hb hm _ _
      have hflag := ho.flagged m (machine?_of_behaviour? hb hm)
      have hentered : (w.enter id address).machine (.behaviour id) = { m with pc := address } := by
        apply machine_of_machine?
        rw [machine?_enter, if_pos rfl, machine?_of_behaviour? hb hm, Option.map_some]
      have hflag' : ((w.enter id address).machine (.behaviour id)).faulted = true ∨
          ((w.enter id address).machine (.behaviour id)).abortRequested = true := by
        rwa [hentered]
      refine (interpretWith_of_flagged fuel hflag').mono ?_ fun _ h => h
      rintro x w' ⟨hx, hsame⟩
      have hs : (w'.leave id (w.frame b m)).state? id = some b.state := by
        rw [state?_leave, if_pos rfl, hsame.state?_eq, state?_enter, if_pos rfl,
          state?_of_behaviour? hb]
        rfl
      have hended := ended_of_failed address hx hs
      exact ⟨hended.1, fun _ => hended.2⟩
  unfold Run.Ends at h
  split at h
  · next halted w' hrun =>
    obtain ⟨rfl, hfaulted⟩ := h
    exact ⟨w', hrun, hfaulted⟩
  · exact h.elim

end World

/-! ### From then on -/

section Since

variable {k : Access} {id : BehaviourId} {base : List OpenRun} {c c' : Moment}
  {es : List (Deed × Moment)}

/-- It is over with the behaviour at the end of an account if it was at its beginning. -/
theorem Moment.Trace.over (h : Trace k base c es c') (hk : k.direct = false) (hc : c.Consistent k)
    (ho : Over id c.world) : c'.Consistent k ∧ Over id c'.world :=
  h.induct (P := fun c => c.Consistent k ∧ Over id c.world) ⟨hc, ho⟩ fun hstep hco =>
    ⟨hstep.consistent hco.1, hstep.over hk hco.1 hco.2⟩

/-- It was over with the behaviour whenever something was done. -/
theorem Moment.Trace.over_of_mem (h : Trace k base c es c') (hk : k.direct = false)
    (hc : c.Consistent k) (ho : Over id c.world) {e : Deed × Moment} (he : e ∈ es) :
    ∃ c₁, Step k c₁ e.1 e.2 ∧ c₁.Consistent k ∧ Over id c₁.world := by
  obtain ⟨later, earlier, rfl⟩ := List.append_of_mem he
  obtain ⟨c₁, hbefore, hstep, -⟩ := h.split
  exact ⟨c₁, hstep, hbefore.over hk hc ho⟩

/-- The heap of a behaviour with which it is over holds what it held, but for what was written. -/
theorem Moment.Trace.heap_of_over (h : Trace k base c es c') (hk : k.direct = false)
    (hc : c.Consistent k) (ho : Over id c.world) :
    ∀ m', c'.world.machine? (.behaviour id) = some m' → ∃ m,
      c.world.machine? (.behaviour id) = some m ∧ m'.heap = replay (.behaviour id) es m.heap := by
  induction h with
  | nil => exact fun m hm => ⟨m, hm, rfl⟩
  | @next es c₁ c₂ d before step within ih =>
    intro m₂ hm₂
    obtain ⟨hc₁, ho₁⟩ := before.over hk hc ho
    have ha := step.alters (.behaviour id)
    rw [hm₂] at ha
    cases hm₁ : c₁.world.machine? (.behaviour id) with
    | none =>
      rw [hm₁] at ha
      generalize hd : d = d' at ha
      cases ha with
      | activated own =>
        cases own
        exact absurd hd (ho₁.ne_activated step _)
    | some m₁ =>
      rw [hm₁] at ha
      obtain ⟨m, hm, hheap⟩ := ih m₁ hm₁
      refine ⟨m, hm, ?_⟩
      rw [replay, List.foldr_cons, ← replay, ← hheap]
      refine ha.heap_eq ?_ ?_ ?_
      · rintro i rfl
        exact step.not_begun hc₁ ho₁
      · rintro p heap rfl
        rw [step.direct_of_loaded] at hk
        cases hk
      · rintro id' hr
        cases hr
        exact ho₁.ne_activated step _

/-- The entries that an account adds to the journal are those of its deeds. -/
theorem Moment.Trace.journal (h : Trace k base c es c') : ∃ new,
    c'.world.journal = new ++ c.world.journal ∧
      ∀ i, .begun i ∈ new → ∃ e ∈ es, e.1 = .begun i := by
  induction h with
  | nil => exact ⟨[], rfl, nofun⟩
  | next before step within ih =>
    obtain ⟨new, hj, hnew⟩ := ih
    obtain ⟨new', hj', hnew', -⟩ := step.wroteFor
    refine ⟨new' ++ new, by rw [hj', hj, List.append_assoc], fun i hi => ?_⟩
    obtain hi | hi := List.mem_append.1 hi
    · exact ⟨_, List.mem_cons_self, hnew' i hi⟩
    · obtain ⟨e, he, hd⟩ := hnew i hi
      exact ⟨e, List.mem_cons_of_mem _ he, hd⟩

/-- What is true in the world `w` of a behaviour that was stopped at the moment `c`, after the deeds
that an account lists for the time since. -/
structure StoppedSince (id : BehaviourId) (c : Moment) (later : List (Deed × Moment)) (w : World) :
    Prop where
  /-- No run of the behaviour, not even one that was in progress, has begun an instruction. -/
  begun : ∀ e ∈ later, ∀ i, e.1 = .begun i → i.machine ≠ .behaviour id
  journal : ∃ new, w.journal = new ++ c.world.journal ∧
    ∀ i, .begun i ∈ new → i.machine ≠ .behaviour id
  /-- Its heap holds what it held, but for written variables and what was left to write for a
  function that had been called. -/
  heap : ∀ m', w.machine? (.behaviour id) = some m' → ∃ m,
    c.world.machine? (.behaviour id) = some m ∧ m'.heap = replay (.behaviour id) later m.heap
  /-- Runs that were in progress have failed when they ended. -/
  failed : ∀ e ∈ later, ∀ address frame x, e.1 = .left id address frame x →
    x ≠ .ok .reachedHalt ∧ e.2.world.state? id = some .faulted
  /-- Runs that began since have failed too. -/
  refused : ∀ e ∈ later, ∀ address, e.1 = .refused id address →
    e.2.world.state? id = some .faulted
  /-- The next run, if the behaviour can run, fails at once. -/
  next : ∀ fuel address, ∃ w', World.runAt (fuel + 2) id address w = .ok false w' ∧
    ((∃ b m, w.behaviour? id = some b ∧ b.machine = some m ∧ b.state.isRunnable = true) →
      w'.state? id = some .faulted)

/-- There is an account of every world that a host can reach without direct access to machines; and
from the moment on when a run of a behaviour fails or is refused, or an abort of its machine is
requested, it is over with the behaviour. -/
theorem stopped_for_good {o : Options} {w : World} (hk : k.direct = false)
    (hw : Reachable k o w) :
    (∃ es rs, Trace k [] (start o) es ⟨w, rs⟩) ∧
    ∀ id later d c earlier rs, Trace k [] (start o) (later ++ (d, c) :: earlier) ⟨w, rs⟩ →
      d.Stops id c.world → StoppedSince id c later w := by
  refine ⟨hw.account, fun id later d c earlier rs htrace hd => ?_⟩
  obtain ⟨c₀, hbefore, hstep, hlater⟩ := htrace.split
  have hc₀ := hbefore.consistent (consistent_start k o)
  have hc := hstep.consistent hc₀
  have ho := hstep.over_of_stops hc₀ hd
  have hbegun : ∀ e ∈ later, ∀ i, e.1 = .begun i → i.machine ≠ .behaviour id := by
    intro e he i hi
    obtain ⟨c₁, hstep, hc₁, ho₁⟩ := hlater.over_of_mem hk hc ho he
    rw [hi] at hstep
    exact hstep.not_begun hc₁ ho₁
  refine ⟨hbegun, ?_, hlater.heap_of_over hk hc ho, ?_, ?_, ?_⟩
  · obtain ⟨new, hj, hnew⟩ := hlater.journal
    refine ⟨new, hj, fun i hi => ?_⟩
    obtain ⟨e, he, hd⟩ := hnew i hi
    exact hbegun e he i hd
  · intro e he address frame x hx
    obtain ⟨c₁, hstep, hc₁, ho₁⟩ := hlater.over_of_mem hk hc ho he
    rw [hx] at hstep
    have hfailed := hstep.failed_of_over hc₁ ho₁
    exact ⟨hfailed, hstep.faulted_of_failed hc₁ hfailed⟩
  · intro e he address hx
    obtain ⟨c₁, hstep, -⟩ := hlater.over_of_mem hk hc ho he
    rw [hx] at hstep
    exact hstep.faulted_of_refused
  · exact fun fuel address => World.runAt_of_over (hlater.over hk hc ho).2 fuel address

end Since

/-- An abort that is requested of an idle behaviour: the next run fails. -/
theorem stopped_for_good_abort :
    ∃ w w', Reachable ⟨false, false⟩ .default w ∧ World.runAt 2 ⟨1⟩ 0 w = .ok false w' ∧
      w'.state? ⟨1⟩ = some .faulted := by
  have hhosted : ∃ u, History ⟨false, false⟩ .default u ∧ ∃ b m, u.behaviour? ⟨1⟩ = some b ∧
      b.machine = some m ∧ b.state.isRunnable = true := by
    refine ⟨_, .act (.act .new (.create (.of 100 101) (some (Program.empty "idle"))) rfl)
      (.operate 1 ⟨1⟩ (show Operation.Permitted _ .activate from .inr rfl)) rfl, ?_⟩
    exact ⟨_, _, rfl, rfl, rfl⟩
  obtain ⟨u, hu, b, m, hb, hm, hr⟩ := hhosted
  obtain ⟨es, hes⟩ := hu.account
  have hw : Reachable ⟨false, false⟩ .default (u.requestAbort ⟨1⟩) :=
    .between (.act hu (.operate 0 ⟨1⟩ (show Operation.Permitted _ .abort from .inr rfl)) rfl)
  have hb' : (u.requestAbort ⟨1⟩).behaviour? ⟨1⟩ =
      some (b.mapMachine fun m => { m with abortRequested := true }) := by
    rw [World.requestAbort, World.behaviour?_mapMachine, if_pos rfl, hb, Option.map_some]
  have hm' : (b.mapMachine fun m => { m with abortRequested := true }).machine =
      some { m with abortRequested := true } := by
    rw [Behaviour.mapMachine, hm, Option.map_some]
  have hstep : Step ⟨false, false⟩ ⟨u, []⟩ (.aborted ⟨1⟩) ⟨u.requestAbort ⟨1⟩, []⟩ :=
    .change (.aborted ⟨1⟩)
  have hsince := (stopped_for_good rfl hw).2 ⟨1⟩ [] _ _ es [] (hes.next hstep List.suffix_rfl)
    (.aborted (World.machine?_of_behaviour? hb' hm'))
  obtain ⟨w', hrun, hfaulted⟩ := hsince.next 0 0
  exact ⟨_, w', hw, hrun, hfaulted ⟨_, _, hb', hm', hr⟩⟩

end EventVm
