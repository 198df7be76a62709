import EventVm.Proofs.World.Consistency

/-!
# Chronicles

An account tells which deeds were done. A chronicle also tells what belongs together: a request to
the network is handed over by a call that sends an event over it, and what comes of that call
follows. Between, all deeds are plain (`Deed.Plain`), but for those of a host that touches a machine
while nothing runs.

Every chronicle is an account (`Chronicle.trace`), and there is one of whatever runs and activations
do (`chronicled_reentry`), which is proved by induction on the fuel.
-/

namespace EventVm

namespace Moment

/-- What happens when a call hands a request to the network: the hash of the program is known, there
is a message, and the request is made. -/
def handing (u : World) (rs : List OpenRun) (b : Behaviour) (p : Program) (target : NetworkTarget)
    (event : String) : List (Deed × Moment) :=
  let hashed := u.mapBehaviour b.id Behaviour.computeHash
  [(.noted (.relayed (World.relayRequest b p target event)), ⟨u.relayFrom b p target event, rs⟩),
    (.noted (.log (.relaying b.id event target)), ⟨hashed.log (.relaying b.id event target), rs⟩),
    (.arranged, ⟨hashed, rs⟩)]

/-- A chronicle of what happened from a moment on, the newest deed first, each with the moment to
which it led. The runs of `base` have gone on all the time. -/
inductive Chronicle (k : Access) :
    List OpenRun → Moment → List (Deed × Moment) → Moment → Prop where
  | nil {base : List OpenRun} {c : Moment} (within : base <:+ c.runs) : Chronicle k base c [] c
  | next {base : List OpenRun} {es : List (Deed × Moment)} {c c' c'' : Moment} {d : Deed}
    (before : Chronicle k base c es c') (step : Step k c' d c'')
    (plain : d.Plain c'.world c''.world ∨ c'.runs = [] ∧ ∃ r, d = .poked r)
    (within : base <:+ c''.runs) : Chronicle k base c ((d, c'') :: es) c''
  /-- A call that begins in `u` hands a request to the network and then gets to `c'`. -/
  | call {base : List OpenRun} {es es' : List (Deed × Moment)} {c : Moment} {u : World}
    {rs : List OpenRun} {c' : Moment} {fuel : Nat} {id : BehaviourId} {target : NetworkTarget}
    {event : String} {b : Behaviour} {p : Program}
    (before : Chronicle k base c es ⟨u, rs⟩) (permitted : u.MayRelay id event b p)
    (connected : u.relay = true)
    (inside : Chronicle k rs ⟨u.relayFrom b p target event, rs⟩ es' c')
    (reached : (World.sendNetworkEvent (World.reentry fuel) id target event).Reaches u c'.world) :
    Chronicle k base c (es' ++ (handing u rs b p target event ++ es)) c'

namespace Chronicle

variable {k : Access} {base base' : List OpenRun} {c c' c'' : Moment}
  {es es' : List (Deed × Moment)} {d : Deed}

theorem within (h : Chronicle k base c es c') : base <:+ c'.runs := by
  induction h with
  | nil within => exact within
  | next _ _ _ within => exact within
  | call _ _ _ _ _ before inside => exact before.trans inside

theorem single (h : Step k c d c')
    (plain : d.Plain c.world c'.world ∨ c.runs = [] ∧ ∃ r, d = .poked r) (hc : base <:+ c.runs)
    (hc' : base <:+ c'.runs) : Chronicle k base c [(d, c')] c' :=
  .next (.nil hc) h plain hc'

theorem trans (h : Chronicle k base c es c') (h' : Chronicle k base c' es' c'') :
    Chronicle k base c (es' ++ es) c'' := by
  induction h' with
  | nil => exact h
  | next _ step plain within ih => exact .next (ih h) step plain within
  | call _ permitted connected inside reached ih =>
    rw [List.append_assoc, List.append_assoc]
    exact .call (ih h) permitted connected inside reached

/-- If all runs of a chronicle have gone on, so have the outer ones. -/
theorem mono (h : Chronicle k base c es c') (hb : base' <:+ base) :
    Chronicle k base' c es c' := by
  induction h with
  | nil within => exact .nil (hb.trans within)
  | next _ step plain within ih => exact .next (ih hb) step plain (hb.trans within)
  | call _ permitted connected inside reached ih =>
    exact .call (ih hb) permitted connected inside reached

theorem trace_handing {u : World} {rs : List OpenRun} (hr : u.relay = true) (b : Behaviour)
    (p : Program) (target : NetworkTarget) (event : String) :
    Trace k rs ⟨u, rs⟩ (handing u rs b p target event) ⟨u.relayFrom b p target event, rs⟩ := by
  let hashed := u.mapBehaviour b.id Behaviour.computeHash
  have hbegins : Step k ⟨u, rs⟩ .arranged ⟨hashed, rs⟩ := .change (.hashed b.id)
  have hlogged : Step k ⟨hashed, rs⟩ (.noted (.log (.relaying b.id event target)))
      ⟨hashed.log (.relaying b.id event target), rs⟩ := .change (.noted rfl)
  have hhanded : Step k ⟨hashed.log (.relaying b.id event target), rs⟩
      (.noted (.relayed (World.relayRequest b p target event)))
      ⟨u.relayFrom b p target event, rs⟩ := by
    rw [World.relayFrom, if_pos hr]
    exact .change (.noted rfl)
  have htrace := (Trace.single hbegins List.suffix_rfl List.suffix_rfl).next hlogged
    (List.suffix_refl rs)
  exact htrace.next hhanded List.suffix_rfl

/-- Every chronicle is an account. -/
theorem trace (h : Chronicle k base c es c') : Trace k base c es c' := by
  induction h with
  | nil within => exact .nil within
  | next _ step _ within ih => exact .next ih step within
  | @call _ _ _ _ _ _ _ _ _ target event b p before _ connected _ _ ih inside =>
    have hhanded := ih.trans ((trace_handing connected b p target event).mono before.within)
    exact hhanded.trans (inside.mono before.within)

end Chronicle

end Moment

open Moment

/-- There is a chronicle of how a computation got from a world to another one, in the midst of the
same runs. -/
def Chronicled (k : Access) (rs : List OpenRun) (w w' : World) : Prop :=
  ∃ es, Chronicle k rs ⟨w, rs⟩ es ⟨w', rs⟩

/-- There is a chronicle of how a computation got to where it is out of fuel, perhaps in the midst
of more runs. -/
def BegunChronicled (k : Access) (rs : List OpenRun) (w w' : World) : Prop :=
  ∃ es rs', Chronicle k rs ⟨w, rs⟩ es ⟨w', rs'⟩

section Chronicled

variable {k : Access} {rs : List OpenRun} {u v w w' : World} {d : Deed}

theorem Moment.Trace.consistent {base : List OpenRun} {c c' : Moment} {es : List (Deed × Moment)}
    (h : Trace k base c es c') (hc : c.Consistent k) : c'.Consistent k :=
  h.induct hc fun hstep hc => hstep.consistent hc

namespace Chronicled

theorem of_step (h : Step k ⟨w, rs⟩ d ⟨w', rs⟩)
    (plain : d.Plain w w' ∨ rs = [] ∧ ∃ r, d = .poked r) : Chronicled k rs w w' :=
  ⟨_, .single h plain List.suffix_rfl List.suffix_rfl⟩

theorem refl (w : World) : Chronicled k rs w w :=
  ⟨[], .nil List.suffix_rfl⟩

theorem trans (h : Chronicled k rs u v) (h' : Chronicled k rs v w) : Chronicled k rs u w := by
  obtain ⟨es, h⟩ := h
  obtain ⟨es', h'⟩ := h'
  exact ⟨_, h.trans h'⟩

theorem before (h : Chronicled k rs u v) (h' : BegunChronicled k rs v w) :
    BegunChronicled k rs u w := by
  obtain ⟨es, h⟩ := h
  obtain ⟨es', rs', h'⟩ := h'
  exact ⟨_, rs', h.trans h'⟩

theorem consistent (h : Chronicled k rs w w') (hc : Consistent k ⟨w, rs⟩) :
    Consistent k ⟨w', rs⟩ := by
  obtain ⟨es, h⟩ := h
  exact h.trace.consistent hc

/-- A run inside the runs in progress is chronicled if its beginning, its course and its end are. -/
theorem of_run {run : OpenRun} {d' : Deed} (begins : Step k ⟨u, rs⟩ d ⟨v, run :: rs⟩)
    (hd : d.Plain u v) (runs : Chronicled k (run :: rs) v w)
    (ends : Step k ⟨w, run :: rs⟩ d' ⟨w', rs⟩) (hd' : d'.Plain w w') : Chronicled k rs u w' := by
  obtain ⟨es, h⟩ := runs
  have hcons : rs <:+ run :: rs := List.suffix_cons ..
  exact ⟨_, ((Chronicle.single begins (.inl hd) List.suffix_rfl hcons).trans (h.mono hcons)).trans
    (.single ends (.inl hd') hcons List.suffix_rfl)⟩

/-- The same for a run that is out of fuel. -/
theorem of_begun_run {run : OpenRun} (begins : Step k ⟨u, rs⟩ d ⟨v, run :: rs⟩) (hd : d.Plain u v)
    (runs : BegunChronicled k (run :: rs) v w) : BegunChronicled k rs u w := by
  obtain ⟨es, rs', h⟩ := runs
  have hcons : rs <:+ run :: rs := List.suffix_cons ..
  exact ⟨_, rs', (Chronicle.single begins (.inl hd) List.suffix_rfl hcons).trans (h.mono hcons)⟩

end Chronicled

/-- Plain deeds of the innermost run's machine are chronicled, and so are sequences. -/
theorem steady_chronicled (k : Access) (rs : List OpenRun) :
    Steady k (OpenRun.actor rs) (fun w => Consistent k ⟨w, rs⟩) (Chronicled k rs)
      (BegunChronicled k rs) where
  permits := fun hc => hc.permits
  keeps := fun hc h => h.consistent hc
  refl := .refl
  trans := .trans
  short := fun _ => ⟨[], rs, .nil List.suffix_rfl⟩
  before := Chronicled.before
  deed := fun h plain => .of_step (.change h) (.inl plain)

end Chronicled

/-! ### Runs and activations -/

/-- Runs, activations and events over the network that code begins are chronicled, whatever runs are
in progress. -/
def Reentry.ChronicledFor (k : Access) (runs : Reentry) : Prop :=
  ∀ rs, runs.RespectsWithin k (fun w => Consistent k ⟨w, rs⟩) (Chronicled k rs)
    (BegunChronicled k rs)

section Runs

variable {k : Access} {self : Reentry} (hself : self.ChronicledFor k) {rs : List OpenRun}

include hself

/-- A run at an entry point is chronicled if the runs are that it begins. -/
theorem chronicled_runAt (fuel : Nat) (id : BehaviourId) (address : UInt32) :
    (World.runAtWith (World.interpretWith self fuel) id address).RespectsIf
      (fun w => Consistent k ⟨w, rs⟩) (Chronicled k rs) (BegunChronicled k rs) := by
  intro w hw
  refine World.runAtWith_ends (fun _ => .refl w) ?_ ?_
  · intro b m hb hm hr hn
    exact .of_step (.refused address hb hm hr hn) (.inl ⟨rfl, nofun⟩)
  · intro b m hb hm hr hn
    have hentered : Step k ⟨w, rs⟩ (.entered id address)
        ⟨w.enter id address, .entry id address (w.frame b m) :: rs⟩ := .entered address hb hm hr hn
    have hinner := (steady_chronicled k (.entry id address (w.frame b m) :: rs)).interpretWith
      (hself _) fuel (hentered.consistent hw)
    refine hinner.mono ?_ fun _ hcut => Chronicled.of_begun_run hentered ⟨rfl, nofun⟩ hcut
    rintro x w' ⟨v, hv, hx, rfl⟩
    exact .of_run hentered ⟨rfl, nofun⟩ hv (.left hx) ⟨rfl, nofun⟩

/-- A machine that is run past its behaviour is chronicled if the runs are that it begins. -/
theorem chronicled_interpret (hk : k.direct = true) (fuel : Nat) {r : MachineRef} {w : World}
    {m : Machine} (hw : Consistent k ⟨w, rs⟩) (hm : w.machine? r = some m) :
    (World.interpretWith self fuel r).Ends w (fun _ => Chronicled k rs w)
      (BegunChronicled k rs w) := by
  have hopened : Step k ⟨w, rs⟩ (.opened r) ⟨w, .direct r :: rs⟩ := .opened hk hm
  have hinner := (steady_chronicled k (.direct r :: rs)).interpretWith (hself _) fuel
    (hopened.consistent hw)
  refine hinner.mono ?_ fun _ hcut => Chronicled.of_begun_run hopened ⟨rfl, nofun⟩ hcut
  rintro x w' ⟨v, hv, hx, rfl⟩
  exact .of_run hopened ⟨rfl, nofun⟩ hv (.stopped hk hx) ⟨rfl, nofun⟩

omit hself in
/-- A behaviour that has not been activated has no run in progress. -/
theorem closed_of_unloaded {w : World} {id : BehaviourId} {b : Behaviour}
    (hw : Consistent k ⟨w, rs⟩) (hb : w.behaviour? id = some b) (hs : b.state = .unloaded) :
    ∀ run ∈ rs, run.machine ≠ some (.behaviour id) := by
  intro run hrun hr
  obtain ⟨m, hm⟩ := hw.present run hrun _ hr
  refine (hw.activated id m hm).1 ?_
  rw [World.state?_of_behaviour? hb, hs]

/-- An activation is chronicled if the runs are that its hook begins. -/
theorem chronicled_activate (id : BehaviourId) :
    (World.activateWith self id).RespectsIf (fun w => Consistent k ⟨w, rs⟩) (Chronicled k rs)
      (BegunChronicled k rs) := by
  intro w hw
  refine World.activateWith_ends (fun _ => .refl w) ?_ ?_
  · intro b e w' hb hs hfailed
    have hstep : Step k ⟨w, rs⟩ (.activated id (w.beginActivation b).1)
        ⟨(w.beginActivation b).2, rs⟩ := .activated hb hs
    rw [hfailed] at hstep
    exact .of_step hstep (.inl ⟨rfl, nofun⟩)
  · intro b w' hb hs hloaded
    have hstep : Step k ⟨w, rs⟩ (.activated id (w.beginActivation b).1)
        ⟨(w.beginActivation b).2, rs⟩ := .activated hb hs
    rw [hloaded] at hstep
    have hbegun : Chronicled k rs w w' := .of_step hstep (.inl ⟨rfl, nofun⟩)
    have hhook := (steady_chronicled k rs).takeHook (hself rs) id w' (hbegun.consistent hw)
    refine hhook.mono (fun failure v hv => ?_) fun _ hcut => hbegun.before hcut
    refine (hbegun.trans hv).trans ?_
    cases failure with
    | none => exact .of_step (.change (.noted rfl)) (.inl ⟨rfl, nofun⟩)
    | some text =>
      obtain rfl := World.id_of_behaviour? hb
      exact (Chronicled.of_step (.disabled (closed_of_unloaded hw hb hs)) (.inl ⟨rfl, nofun⟩)).trans
        (.of_step (.change (.noted rfl)) (.inl ⟨rfl, nofun⟩))

omit hself in
/-- An event that is sent over the network is chronicled as one call, if the runs are that it
begins. -/
theorem chronicled_network (fuel : Nat) {w : World} {id : BehaviourId} {event : String}
    {b : Behaviour} {p : Program}
    (hrun : ∀ id address, ((World.reentry fuel).runAt id address).RespectsIf
      (fun w => Consistent k ⟨w, rs⟩) (Chronicled k rs) (BegunChronicled k rs))
    (hw : Consistent k ⟨w, rs⟩) (permitted : w.MayRelay id event b p) (connected : w.relay = true)
    (target : NetworkTarget) :
    (World.sendNetworkEvent (World.reentry fuel) id target event).Ends w
      (fun _ => Chronicled k rs w) (BegunChronicled k rs w) := by
  have hconsistent : Consistent k ⟨w.relayFrom b p target event, rs⟩ :=
    (Chronicle.trace_handing connected b p target event).consistent hw
  have hsteady := steady_chronicled k rs
  have hinside : (World.sendNetworkEvent (World.reentry fuel) id target event).Ends w
      (fun _ => Chronicled k rs (w.relayFrom b p target event))
      (BegunChronicled k rs (w.relayFrom b p target event)) := by
    unfold Run.Ends
    rw [World.sendNetworkEvent_of_mayRelay permitted]
    by_cases hrun' : target = .all ∨ w.relay = false
    · rw [if_pos hrun']
      exact hsteady.sendEvent_of_runAt hrun id event _ hconsistent
    · rw [if_neg hrun']
      exact Chronicled.refl _
  refine hinside.reached.mono ?_ ?_
  · rintro _ w' ⟨⟨es, h⟩, hreached⟩
    exact ⟨_, .call (.nil List.suffix_rfl) permitted connected h hreached⟩
  · rintro w' ⟨⟨es, rs', h⟩, hreached⟩
    exact ⟨_, rs', .call (.nil List.suffix_rfl) permitted connected h hreached⟩

end Runs

/-- However much fuel there is, runs, activations and events over the network are chronicled. -/
theorem chronicled_reentry (k : Access) (fuel : Nat) : (World.reentry fuel).ChronicledFor k := by
  induction fuel with
  | zero =>
    intro rs
    have h := steady_chronicled k rs
    exact ⟨fun _ _ => h.exhausted, fun _ _ w _ _ _ => h.short w, fun _ => h.exhausted,
      fun hw hmay hr => chronicled_network 0 (fun _ _ => h.exhausted) hw hmay hr⟩
  | succ fuel ih =>
    intro rs
    exact ⟨chronicled_runAt ih fuel, fun hk _ w _ hw hm => chronicled_interpret ih hk fuel hw hm,
      chronicled_activate ih,
      fun hw hmay hr => chronicled_network (fuel + 1) (chronicled_runAt ih fuel) hw hmay hr⟩

end EventVm
