import EventVm.Proofs.World.Lifecycle

/-!
# Moments and accounts

A moment is a world with the runs that are in progress in it. `Step k c d c'` says that the deed `d`
leads from the moment `c` to the moment `c'`; an account of what happened (`Trace`) is a list of
deeds with the moments to which they led. Unlike the definition of a run, an account can be cut
anywhere: "from then on" is the part of it that is newer than a deed.
-/

namespace EventVm

/-- A run in progress. -/
inductive OpenRun where
  /-- A run at an entry point, with what it will restore. -/
  | entry (id : BehaviourId) (address : UInt32) (frame : World.Frame)
  /-- A machine that is run past its behaviour. -/
  | direct (r : MachineRef)
  /-- A run that waits for the function that it has called. -/
  | waiting

namespace OpenRun

/-- The machine that the run moves. -/
def machine : OpenRun → Option MachineRef
  | entry id _ _ => some (.behaviour id)
  | direct r => some r
  | waiting => none

/-- The machine that the innermost run moves. -/
def actor (runs : List OpenRun) : Option MachineRef :=
  runs.head?.bind machine

theorem mem_of_actor {rs : List OpenRun} {r : MachineRef} (h : actor rs = some r) :
    ∃ run ∈ rs, run.machine = some r := by
  obtain ⟨run, hrun, hr⟩ := Option.bind_eq_some_iff.1 h
  exact ⟨run, List.mem_of_mem_head? hrun, hr⟩

end OpenRun

/-- A world in the midst of runs, the innermost run first. -/
structure Moment where
  world : World
  runs : List OpenRun

namespace Moment

/-- The moment at which a host begins. -/
def start (o : Options) : Moment :=
  ⟨.new o, []⟩

/-- A deed leads from one moment to the next. -/
inductive Step (k : Access) : Moment → Deed → Moment → Prop where
  | change {w w' : World} {rs : List OpenRun} {d : Deed}
    (change : w.Change k (OpenRun.actor rs) d w') : Step k ⟨w, rs⟩ d ⟨w', rs⟩
  | created {w : World} (host : HostObjects) (p : Option Program)
    (fresh : w.behaviour? ⟨w.nextId⟩ = none) :
    Step k ⟨w, []⟩ (.created ⟨w.nextId⟩) ⟨w.addBehaviour host p, []⟩
  | dropped {w : World} (id : BehaviourId) : Step k ⟨w, []⟩ (.dropped id) ⟨w.dropBehaviour id, []⟩
  | connected {w : World} : Step k ⟨w, []⟩ .arranged ⟨{ w with relay := true }, []⟩
  | put {w : World} {r : MachineRef} {address : UInt32} {v : Value} {m : Machine}
    (direct : k.direct = true) (written : (w.machine r).write address v = .ok m) :
    Step k ⟨w, []⟩ (.put r address v) ⟨w.mapMachine (fun _ => m) r, []⟩
  | loaded {w w' : World} {r : MachineRef} {p : Program} {heap : Heap} (direct : k.direct = true)
    (loaded : w.loadMachine r p heap = .ok w') : Step k ⟨w, []⟩ (.loaded r p heap) ⟨w', []⟩
  | activated {w : World} {rs : List OpenRun} {id : BehaviourId} {b : Behaviour}
    (found : w.behaviour? id = some b) (unloaded : b.state = .unloaded) :
    Step k ⟨w, rs⟩ (.activated id (w.beginActivation b).1) ⟨(w.beginActivation b).2, rs⟩
  /-- Runs of a behaviour that is being activated have ended when its hook ends. -/
  | disabled {w : World} {rs : List OpenRun} {id : BehaviourId}
    (closed : ∀ run ∈ rs, run.machine ≠ some (.behaviour id)) :
    Step k ⟨w, rs⟩ (.disabled id) ⟨w.disable id, rs⟩
  | entered {w : World} {rs : List OpenRun} {id : BehaviourId} {b : Behaviour} {m : Machine}
    (address : UInt32) (found : w.behaviour? id = some b) (machine : b.machine = some m)
    (runnable : b.state.isRunnable = true) (room : w.nesting < w.options.maxNestingDepth) :
    Step k ⟨w, rs⟩ (.entered id address)
      ⟨w.enter id address, .entry id address (w.frame b m) :: rs⟩
  | refused {w : World} {rs : List OpenRun} {id : BehaviourId} {b : Behaviour} {m : Machine}
    (address : UInt32) (found : w.behaviour? id = some b) (machine : b.machine = some m)
    (runnable : b.state.isRunnable = true) (full : w.options.maxNestingDepth ≤ w.nesting) :
    Step k ⟨w, rs⟩ (.refused id address)
      ⟨(w.conclude id address (.error (.recursionLimit w.options.maxNestingDepth))).2, rs⟩
  | left {w : World} {rs : List OpenRun} {id : BehaviourId} {address : UInt32}
    {frame : World.Frame} {x : Except VmError Finish}
    (ended : (w.machine (.behaviour id)).MayFinish k x) :
    Step k ⟨w, .entry id address frame :: rs⟩ (.left id address frame x)
      ⟨(((w.mapMachine (Machine.finish x) (.behaviour id)).leave id frame).conclude id address x).2,
        rs⟩
  | opened {w : World} {rs : List OpenRun} {r : MachineRef} {m : Machine}
    (direct : k.direct = true) (found : w.machine? r = some m) :
    Step k ⟨w, rs⟩ (.opened r) ⟨w, .direct r :: rs⟩
  | stopped {w : World} {rs : List OpenRun} {r : MachineRef} {x : Except VmError Finish}
    (direct : k.direct = true) (ended : (w.machine r).MayFinish k x) :
    Step k ⟨w, .direct r :: rs⟩ (.stopped r x) ⟨w.mapMachine (Machine.finish x) r, rs⟩

/-- An account of what happened from a moment on, the newest deed first, each with the moment to
which it led. The runs of `base` have gone on all the time. -/
inductive Trace (k : Access) (base : List OpenRun) (c : Moment) :
    List (Deed × Moment) → Moment → Prop where
  | nil (within : base <:+ c.runs) : Trace k base c [] c
  | next {es : List (Deed × Moment)} {c' c'' : Moment} {d : Deed} (before : Trace k base c es c')
    (step : Step k c' d c'') (within : base <:+ c''.runs) : Trace k base c ((d, c'') :: es) c''

namespace Trace

variable {k : Access} {base base' : List OpenRun} {c c' c'' : Moment}
  {es es' : List (Deed × Moment)} {d : Deed}

/-- An account of one deed. -/
theorem single (h : Step k c d c') (hc : base <:+ c.runs) (hc' : base <:+ c'.runs) :
    Trace k base c [(d, c')] c' :=
  .next (.nil hc) h hc'

theorem trans (h : Trace k base c es c') (h' : Trace k base c' es' c'') :
    Trace k base c (es' ++ es) c'' := by
  induction h' with
  | nil => exact h
  | next _ step within ih => exact .next ih step within

/-- If all runs of an account have gone on, so have the outer ones. -/
theorem mono (h : Trace k base c es c') (hb : base' <:+ base) : Trace k base' c es c' := by
  induction h with
  | nil within => exact .nil (hb.trans within)
  | next _ step within ih => exact .next ih step (hb.trans within)

/-- An account can be cut before any deed. -/
theorem split {later earlier : List (Deed × Moment)} {e : Deed × Moment}
    (h : Trace k base c (later ++ e :: earlier) c'') :
    ∃ c', Trace k base c earlier c' ∧ Step k c' e.1 e.2 ∧ Trace k base e.2 later c'' := by
  induction later generalizing c'' with
  | nil =>
    cases h with
    | next before step within => exact ⟨_, before, step, .nil within⟩
  | cons e' later ih =>
    cases h with
    | next before step within =>
      obtain ⟨c', hc, hstep, hlater⟩ := ih before
      exact ⟨c', hc, hstep, .next hlater step within⟩

/-- What every deed keeps holds to the end of an account. -/
theorem induct {P : Moment → Prop} (h : Trace k base c es c') (start : P c)
    (step : ∀ {c d c'}, Step k c d c' → P c → P c') : P c' := by
  induction h with
  | nil => exact start
  | next _ hstep _ ih => exact step hstep ih

end Trace

end Moment

end EventVm
