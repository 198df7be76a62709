import EventVm.Proofs.World.Respect
import Mathlib.Data.List.Nodup

/-!
# The lifecycle of behaviours

Nothing runs any more on a behaviour that has faulted or is disabled. States are written when runs
begin and end and during activations, and a hook may begin runs of the very behaviour that is being
activated. `Next w w'` lists what can happen next in a world, also in the middle of a run, of an
activation or of the script of a host function.

* `reentry_ages`: how runs and activations change states, by induction on the fuel.
* `ended_stays`: whatever happens next, a behaviour that has faulted or is disabled stays so, with
  one exception: if the hook of a behaviour makes it fault and then fails, the behaviour becomes
  disabled.
-/

namespace EventVm

namespace BehaviourState

/-- Whether nothing is ever to run again. -/
def isEnded : BehaviourState → Bool
  | faulted | disabled => true
  | unloaded | loading | ready | executing => false

/-- What has become of a state when a run or an activation has ended: a behaviour that can run may
have faulted, one that had not been activated may be in any state. -/
inductive Becomes : BehaviourState → BehaviourState → Prop where
  | same (s : BehaviourState) : Becomes s s
  | faults {s : BehaviourState} (runnable : s.isRunnable = true) : Becomes s faulted
  | activated (s : BehaviourState) : Becomes unloaded s

theorem Becomes.trans {s t u : BehaviourState} (h : s.Becomes t) (h' : t.Becomes u) :
    s.Becomes u := by
  cases h with
  | same => exact h'
  | activated => exact .activated u
  | faults hs =>
    cases h' with
    | same => exact .faults hs
    | faults h => cases h

theorem Becomes.eq_of_isEnded {s t : BehaviourState} (h : s.Becomes t) (hs : s.isEnded = true) :
    t = s := by
  cases h with
  | same => rfl
  | faults h => cases s <;> cases hs <;> cases h
  | activated => cases hs

/-- A behaviour that can run is as it was or has faulted. -/
theorem Becomes.of_isRunnable {s t : BehaviourState} (h : s.Becomes t)
    (hs : s.isRunnable = true) : t = s ∨ t = faulted := by
  cases h with
  | same => exact .inl rfl
  | faults => exact .inr rfl
  | activated => cases hs

end BehaviourState

namespace World

/-- A later world: states have become what runs and activations make of them. -/
def Ages (w w' : World) : Prop :=
  ∀ id s, w.state? id = some s → ∃ t, w'.state? id = some t ∧ s.Becomes t

/-- The behaviours that have faulted or are disabled stay as they are. -/
def KeepsEnded (w w' : World) : Prop :=
  ∀ id s, s.isEnded = true → w.state? id = some s → w'.state? id = some s

section Ages

variable {u v w w' : World}

theorem Ages.keepsEnded (h : w.Ages w') : w.KeepsEnded w' := by
  intro id s he hs
  obtain ⟨t, ht, hst⟩ := h id s hs
  rwa [hst.eq_of_isEnded he] at ht

theorem SameStates.ages (h : w.SameStates w') : w.Ages w' :=
  fun id s hs => ⟨s, by rwa [h.state?_eq], .same s⟩

theorem SameStates.keepsEnded (h : w.SameStates w') : w.KeepsEnded w' :=
  h.ages.keepsEnded

theorem KeepsEnded.trans (h : u.KeepsEnded v) (h' : v.KeepsEnded w) : u.KeepsEnded w :=
  fun id s he hs => h' id s he (h id s he hs)

theorem lasting_ages : Lasting Ages KeepsEnded where
  same := SameStates.ages
  trans := by
    intro u v w h h' id s hs
    obtain ⟨t, ht, hst⟩ := h id s hs
    obtain ⟨t', ht', htt⟩ := h' id t ht
    exact ⟨t', ht', hst.trans htt⟩
  short := fun _ _ _ _ hs => hs
  before := fun h h' => h.keepsEnded.trans h'

end Ages

/-! ### Runs at entry points -/

section Runs

variable {w w' : World} {id : BehaviourId} {address : UInt32} {b : Behaviour}

/-- The end of a run makes its behaviour fault unless it reached the halt address. -/
theorem state?_conclude (w : World) (id : BehaviourId) (address : UInt32)
    (x : Except VmError Finish) (id' : BehaviourId) :
    (w.conclude id address x).2.state? id' =
      if id' = id ∧ x ≠ .ok .reachedHalt then (w.state? id').map fun _ => .faulted
      else w.state? id' := by
  have hfault : ∀ v : World, (v.fault id).state? id' =
      if id' = id then (v.state? id').map fun _ => .faulted else v.state? id' := by
    intro v
    unfold fault refuseRuns
    rw [state?_setState, state?_mapMachine]
  unfold conclude
  split
  · simp
  · simp [hfault, World.log]
  · simp [hfault]
  · next e _ => simp [hfault, World.log]

/-- A run that begins leaves ended behaviours alone: it is none of theirs. -/
theorem keepsEnded_enter (hb : w.behaviour? id = some b) (hr : b.state.isRunnable = true)
    (address : UInt32) : w.KeepsEnded (w.enter id address) := by
  intro id' s he hs
  rw [state?_enter, if_neg, hs]
  rintro rfl
  rw [state?_of_behaviour? hb] at hs
  cases hs
  cases hstate : b.state <;> rw [hstate] at he hr <;> cases he <;> cases hr

/-- In a run that has been going on, the behaviour is running or has faulted. -/
theorem state?_of_entered (hb : w.behaviour? id = some b) (h : (w.enter id address).Ages w') :
    w'.state? id = some .executing ∨ w'.state? id = some .faulted := by
  have hentered : (w.enter id address).state? id = some .executing := by
    rw [state?_enter, if_pos rfl, state?_of_behaviour? hb, Option.map_some]
  obtain ⟨t, ht, hbecomes⟩ := h id .executing hentered
  obtain rfl | rfl := hbecomes.of_isRunnable rfl
  · exact .inl ht
  · exact .inr ht

/-- A run that ends leaves ended behaviours alone: its own can only have faulted. -/
theorem keepsEnded_leave (hb : w.behaviour? id = some b) (h : (w.enter id address).Ages w')
    (frame : Frame) (x : Except VmError Finish) :
    w'.KeepsEnded ((w'.leave id frame).conclude id address x).2 := by
  intro id' s he hs
  rw [state?_conclude, state?_leave]
  by_cases hid : id' = id
  · subst hid
    obtain hs' | hs' := state?_of_entered hb h
    · rw [hs'] at hs
      cases hs
      cases he
    · rw [hs'] at hs
      cases hs
      simp [hs']
  · rw [if_neg fun h => hid h.1, if_neg hid, hs]

/-- Closing the frame of a run puts its behaviour back into the state it was in, unless it has
faulted. -/
theorem state?_leave_of_entered (m : Machine) (hb : w.behaviour? id = some b)
    (h : (w.enter id address).Ages w') :
    (w'.leave id (w.frame b m)).state? id = some b.state ∨
      (w'.leave id (w.frame b m)).state? id = some .faulted := by
  rw [state?_leave, if_pos rfl]
  obtain hs | hs := state?_of_entered hb h
  · exact .inl (by rw [hs]; rfl)
  · exact .inr (by rw [hs]; rfl)

/-- A run as a whole keeps the state of its behaviour or makes it fault. -/
theorem ages_leave (m : Machine) (hb : w.behaviour? id = some b) (hr : b.state.isRunnable = true)
    (h : (w.enter id address).Ages w') (x : Except VmError Finish) :
    w.Ages ((w'.leave id (w.frame b m)).conclude id address x).2 := by
  intro id' s hs
  rw [state?_conclude]
  by_cases hid : id' = id
  · subst hid
    rw [state?_of_behaviour? hb] at hs
    cases hs
    obtain hleft | hleft := state?_leave_of_entered m hb h
    all_goals rw [hleft]
    · split
      · exact ⟨_, rfl, .faults hr⟩
      · exact ⟨_, rfl, .same _⟩
    · split <;> exact ⟨_, rfl, .faults hr⟩
  · rw [if_neg fun h => hid h.1, state?_leave, if_neg hid]
    exact h id' s (by rw [state?_enter, if_neg hid, hs])

theorem runAtWith_ages {interpret : MachineRef → Run (Except VmError Finish)}
    (h : ∀ r, (interpret r).Respects Ages KeepsEnded) (id : BehaviourId) (address : UInt32) :
    (runAtWith interpret id address).Respects Ages KeepsEnded := by
  intro w
  refine runAtWith_ends (fun _ => lasting_ages.refl w) ?_ ?_
  · intro b m hb _ hr _ ended id' s hs
    rw [state?_conclude]
    split
    · next hid =>
      obtain ⟨rfl, -⟩ := hid
      rw [state?_of_behaviour? hb] at hs ⊢
      cases hs
      exact ⟨_, rfl, .faults hr⟩
    · exact ⟨s, hs, .same s⟩
  · intro b m hb _ hr _
    refine (h _ (w.enter id address)).mono (fun x w' hin => ?_) fun w' hin => ?_
    · exact ages_leave m hb hr hin x
    · exact (keepsEnded_enter hb hr address).trans hin

end Runs

/-! ### Activations -/

/-- What an activation does before the hook: it loads the program of the behaviour, which makes the
behaviour ready or disables it. -/
def beginActivation (w : World) (b : Behaviour) : Except LoadError Unit × World :=
  match (w.setState b.id .loading).loadBehaviour b with
  | (.error e, w) => (.error e, (w.setState b.id .disabled).log (.loadFailed b.id e))
  | (.ok (), w) => (.ok (), w.setState b.id .ready)

/-- What an activation does after the hook, which may have failed. -/
def endActivation (w : World) (b : Behaviour) : Option String → Except LoadError Unit × World
  | some text => (.error (.hook text), (w.disable b.id).log (.hookFailed b.id (.hook text)))
  | none => (.ok (), w.log (.ready b.id ((b.program.map Program.name).getD "")))

section Activations

variable {self : Reentry} {w w' : World} {id : BehaviourId} {b : Behaviour}

/-- An activation is refused, fails before the hook, or ends after it. -/
theorem activateWith_ends {done : Except LoadError Unit → World → Prop} {cut : World → Prop}
    (refused : (∀ b, w.behaviour? id = some b → b.state ≠ .unloaded) →
      done (.error .alreadyInitialized) w)
    (failed : ∀ b e w', w.behaviour? id = some b → b.state = .unloaded →
      w.beginActivation b = (.error e, w') → done (.error e) w')
    (loaded : ∀ b w', w.behaviour? id = some b → b.state = .unloaded →
      w.beginActivation b = (.ok (), w') → (takeHook self id).Ends w' (fun failure v =>
        let ended := v.endActivation b failure
        done ended.1 ended.2) cut) :
    (activateWith self id).Ends w done cut := by
  unfold activateWith
  rw [Run.ends_bind, Run.ends_behaviour?]
  cases hb : w.behaviour? id with
  | none =>
    refine refused fun b hb' => ?_
    rw [hb] at hb'
    cases hb'
  | some b =>
    obtain rfl := id_of_behaviour? hb
    by_cases hs : b.state = .unloaded
    · dsimp only
      rw [if_neg (not_not_intro hs)]
      simp only [Run.ends_bind, Run.ends_change, Run.ends_world, Run.ends_put]
      cases hl : (w.setState b.id .loading).loadBehaviour b with
      | mk x v =>
        cases x with
        | error e =>
          simp only [Run.ends_bind, Run.ends_change, Run.ends_pure]
          exact failed b e _ hb hs (by unfold beginActivation; rw [hl])
        | ok u =>
          simp only [Run.ends_bind, Run.ends_change]
          have h := loaded b _ hb hs (by unfold beginActivation; rw [hl])
          refine h.mono (fun failure v' h => ?_) fun _ h => h
          cases failure with
          | none => exact h
          | some text => exact h
    · dsimp only
      rw [if_pos hs]
      refine refused fun b' hb' => ?_
      rw [hb] at hb'
      cases hb'
      exact hs

/-- Loading a program leaves the states alone. -/
theorem sameStates_loadBehaviour (w : World) (b : Behaviour) :
    w.SameStates (w.loadBehaviour b).2 := by
  have hlogs : ∀ (events : List LogEvent) (v : World), v.SameStates (events.foldl log v) := by
    intro events
    induction events with
    | nil => exact .refl
    | cons e events ih => exact fun v => (SameStates.note v (.log e)).trans (ih _)
  unfold loadBehaviour
  cases b.program with
  | none => exact .refl w
  | some p =>
    dsimp only
    have hsupplied := (hlogs (supplyAll b p).2.2.reverse w).trans
      (.mapBehaviour _ b.id (f := fun b' => { b' with supplied := (supplyAll b p).2.1 })
        (fun _ => rfl) fun _ => rfl)
    cases buildMachine _ b p (supplyAll b p).1 with
    | error e => exact hsupplied
    | ok m => exact hsupplied.trans (.mapBehaviour _ b.id (fun _ => rfl) fun _ => rfl)

/-- The part of an activation before the hook is about its own behaviour only. -/
theorem state?_beginActivation (w : World) (b : Behaviour) (id : BehaviourId) :
    (w.beginActivation b).2.state? id =
      if id = b.id then (w.state? id).map fun _ =>
        match (w.beginActivation b).1 with
        | .error _ => .disabled
        | .ok () => .ready
      else w.state? id := by
  have h := (sameStates_loadBehaviour (w.setState b.id .loading) b).state?_eq id
  rw [state?_setState] at h
  unfold beginActivation
  cases hl : (w.setState b.id .loading).loadBehaviour b with
  | mk x v =>
    rw [hl] at h
    cases x with
    | error e =>
      dsimp only
      rw [World.log, state?_note, state?_setState, h]
      split
      · rw [Option.map_map]
        rfl
      · rfl
    | ok u =>
      dsimp only
      rw [state?_setState, h]
      split
      · rw [Option.map_map]
        rfl
      · rfl

/-- The part of an activation after the hook is about its own behaviour only, and about that only if
the hook failed. -/
theorem state?_endActivation (w : World) (b : Behaviour) (failure : Option String)
    (id : BehaviourId) :
    (w.endActivation b failure).2.state? id =
      if id = b.id ∧ failure.isSome then (w.state? id).map fun _ => .disabled
      else w.state? id := by
  cases failure with
  | none => simp [endActivation, World.log]
  | some text =>
    unfold endActivation disable
    simp only [World.log, state?_note, Option.isSome_some, and_true]
    unfold state?
    rw [behaviour?_mapBehaviour (fun b => { b with state := .disabled, machine := none })
      fun _ => rfl]
    split
    · cases w.behaviour? id <;> rfl
    · rfl

/-- An activation that begins leaves ended behaviours alone: it is none of theirs. -/
theorem keepsEnded_begin (hb : w.behaviour? id = some b) (hs : b.state = .unloaded) :
    w.KeepsEnded (w.beginActivation b).2 := by
  intro id' s he hs'
  rw [state?_beginActivation, if_neg, hs']
  rintro rfl
  obtain rfl := id_of_behaviour? hb
  rw [state?_of_behaviour? hb, hs] at hs'
  cases hs'
  cases he

/-- When the hook has ended, the behaviour that is being activated is ready or has faulted. -/
theorem state?_of_begun (hb : w.behaviour? id = some b)
    (hok : (w.beginActivation b).1 = .ok ()) (h : (w.beginActivation b).2.Ages w') :
    w'.state? b.id = some .ready ∨ w'.state? b.id = some .faulted := by
  obtain rfl := id_of_behaviour? hb
  have hready : (w.beginActivation b).2.state? b.id = some .ready := by
    rw [state?_beginActivation, if_pos rfl, state?_of_behaviour? hb, hok, Option.map_some]
  obtain ⟨t, ht, hbecomes⟩ := h b.id .ready hready
  obtain rfl | rfl := hbecomes.of_isRunnable rfl
  · exact .inl ht
  · exact .inr ht

/-- An activation that ends leaves ended behaviours alone, but for its own one if that has faulted
and the hook fails. -/
theorem state?_endActivation_of_begun {id' : BehaviourId} {s : BehaviourState}
    (hb : w.behaviour? id = some b) (hok : (w.beginActivation b).1 = .ok ())
    (h : (w.beginActivation b).2.Ages w') (failure : Option String) (he : s.isEnded = true)
    (hs : w'.state? id' = some s) :
    (w'.endActivation b failure).2.state? id' = some s ∨
      s = .faulted ∧ (w'.endActivation b failure).2.state? id' = some .disabled ∧
        ∃ text, (w'.endActivation b failure).2.journal =
          .log (.hookFailed id' (.hook text)) :: w'.journal := by
  rw [state?_endActivation]
  by_cases hfailed : id' = b.id ∧ failure.isSome
  · obtain ⟨rfl, hsome⟩ := hfailed
    obtain ⟨text, rfl⟩ := Option.isSome_iff_exists.1 hsome
    rw [if_pos ⟨rfl, rfl⟩, hs]
    obtain hs' | hs' := state?_of_begun hb hok h
    all_goals
      rw [hs'] at hs
      cases hs
    · cases he
    · exact .inr ⟨rfl, rfl, text, rfl⟩
  · rw [if_neg hfailed]
    exact .inl hs

/-- An activation as a whole changes the state of its own behaviour only, apart from what its hook
does. -/
theorem ages_endActivation {failure : Option String} (hb : w.behaviour? id = some b)
    (hs : b.state = .unloaded) (hok : (w.beginActivation b).1 = .ok ())
    (h : (w.beginActivation b).2.Ages w') : w.Ages (w'.endActivation b failure).2 := by
  intro id' s hs'
  rw [state?_endActivation]
  by_cases hid : id' = b.id
  · subst hid
    have hend := state?_of_begun hb hok h
    obtain rfl := id_of_behaviour? hb
    rw [state?_of_behaviour? hb, hs] at hs'
    cases hs'
    split
    · obtain hend | hend := hend
      all_goals
        rw [hend]
        exact ⟨_, rfl, .activated _⟩
    · obtain hend | hend := hend
      all_goals exact ⟨_, hend, .activated _⟩
  · rw [if_neg fun h => hid h.1]
    exact h id' s (by rw [state?_beginActivation, if_neg hid, hs'])

theorem activateWith_ages (hself : self.Respects Ages KeepsEnded) (id : BehaviourId) :
    (activateWith self id).Respects Ages KeepsEnded := by
  intro w
  refine activateWith_ends (fun _ => lasting_ages.refl w) ?_ ?_
  · intro b e w' hb hs hfailed id' s hs'
    have h := state?_beginActivation w b id'
    rw [hfailed] at h
    obtain rfl := id_of_behaviour? hb
    split at h
    · next hid =>
      subst hid
      rw [state?_of_behaviour? hb] at h hs'
      rw [hs] at hs'
      cases hs'
      exact ⟨_, h, .activated _⟩
    · exact ⟨s, h.trans hs', .same s⟩
  · intro b w' hb hs hloaded
    have hw' : w' = (w.beginActivation b).2 := by rw [hloaded]
    have hok : (w.beginActivation b).1 = .ok () := by rw [hloaded]
    subst hw'
    refine (lasting_ages.takeHook hself id _).mono (fun failure v hv => ?_) fun v hv => ?_
    · exact ages_endActivation hb hs hok hv
    · exact (keepsEnded_begin hb hs).trans hv

end Activations

/-- However much fuel there is, runs and activations make of states what they may become. -/
theorem reentry_ages (fuel : Nat) : (reentry fuel).Respects Ages KeepsEnded := by
  induction fuel with
  | zero =>
    exact ⟨fun _ _ => lasting_ages.exhausted, fun _ => lasting_ages.exhausted,
      fun _ => lasting_ages.exhausted⟩
  | succ fuel ih =>
    have hinterpret := lasting_ages.interpretWith ih fuel
    exact ⟨runAtWith_ages hinterpret, hinterpret, activateWith_ages ih⟩

/-! ### Whatever happens next -/

/-- What can happen next in a world, whatever is in progress in it. What is begun gets anywhere that
its fuel takes it. -/
inductive Next : World → World → Prop where
  | create (w : World) (host : HostObjects) (p : Option Program) : Next w (w.addBehaviour host p)
  | register (w : World) (signature : String) (f : HostFunction) :
    Next w { w with functions := w.functions.register signature f }
  | connect (w : World) : Next w { w with relay := true }
  | shutDown (w : World) : Next w w.shutDown
  /-- A host does something to a behaviour, or a hook does. -/
  | operation {fuel : Nat} {id : BehaviourId} {op : Operation} {w w' : World}
    (reached : (operate fuel id op).Reaches w w') : Next w w'
  /-- A machine runs from where it stands. -/
  | machine {fuel : Nat} {r : MachineRef} {w w' : World}
    (reached : (interpret fuel r).Reaches w w') : Next w w'
  /-- A machine carries out an instruction. -/
  | instruction {fuel : Nat} {r : MachineRef} {code : Bytes} {pc : UInt32} {w w' : World}
    (reached : (step (reentry fuel) r code pc).Reaches w w') : Next w w'
  /-- Code calls a host function. -/
  | function {fuel : Nat} {call : Invocation} {f : HostFunction} {w w' : World}
    (reached : (f.run (reentry fuel) call).run.Reaches w w') : Next w w'
  /-- The script of a host function takes a step. -/
  | action {fuel : Nat} {call : Invocation} {a : HostAction} {w w' : World}
    (reached : (HostAction.run (reentry fuel) call a).run.Reaches w w') : Next w w'
  /-- A run at an entry point begins. -/
  | enter {w : World} {id : BehaviourId} {b : Behaviour} (address : UInt32)
    (found : w.behaviour? id = some b) (runnable : b.state.isRunnable = true) :
    Next w (w.enter id address)
  /-- A run at an entry point ends that began in `u`. -/
  | leave {fuel : Nat} {u w : World} {id : BehaviourId} {b : Behaviour} {address : UInt32}
    {x : Except VmError Finish} (m : Machine) (found : u.behaviour? id = some b)
    (runnable : b.state.isRunnable = true)
    (ran : interpret fuel (.behaviour id) (u.enter id address) = .ok x w) :
    Next w ((w.leave id (u.frame b m)).conclude id address x).2
  /-- An activation begins. -/
  | load {w : World} {id : BehaviourId} {b : Behaviour} (found : w.behaviour? id = some b)
    (unloaded : b.state = .unloaded) : Next w (w.beginActivation b).2
  /-- An activation ends that began in `u`, its hook having ended with or without a failure. -/
  | hooked {fuel : Nat} {u w : World} {id : BehaviourId} {b : Behaviour} {failure : Option String}
    (found : u.behaviour? id = some b) (loaded : (u.beginActivation b).1 = .ok ())
    (ended : takeHook (reentry fuel) id (u.beginActivation b).2 = .ok failure w) :
    Next w (w.endActivation b failure).2

theorem keepsEnded_of_reaches {c : Run α} {w w' : World} (hc : c.Respects Ages KeepsEnded)
    (h : c.Reaches w w') : w.KeepsEnded w' :=
  ((hc w).mono (fun _ _ h => h.keepsEnded) fun _ h => h).of_reaches h

theorem state?_addBehaviour {w : World} {id : BehaviourId} {s : BehaviourState}
    (host : HostObjects) (p : Option Program) (hs : w.state? id = some s) :
    (w.addBehaviour host p).state? id = some s := by
  obtain ⟨b, hb, rfl⟩ := Option.map_eq_some_iff.1 hs
  have h : (w.addBehaviour host p).behaviour? id = some b := by
    unfold behaviour? addBehaviour
    rw [List.find?_append]
    unfold behaviour? at hb
    rw [hb, Option.some_or]
  rw [state?_of_behaviour? h]

/-- Faulted and disabled are final: whatever happens next in whatever world, a behaviour in one of
these states stays in it. The exception is a behaviour that its own hook has made fault: if that
hook then fails, the behaviour becomes disabled. -/
theorem ended_stays {w w' : World} {id : BehaviourId} {s : BehaviourState} (h : Next w w')
    (he : s.isEnded = true) (hs : w.state? id = some s) :
    w'.state? id = some s ∨
      s = .faulted ∧ w'.state? id = some .disabled ∧
        ∃ text, w'.journal = .log (.hookFailed id (.hook text)) :: w.journal := by
  cases h with
  | create => exact .inl (state?_addBehaviour _ _ hs)
  | register | connect => exact .inl hs
  | shutDown => exact .inl ((SameStates.shutDown w).keepsEnded id s he hs)
  | @operation fuel id' op _ _ reached =>
    have hop := lasting_ages.perform (reentry_ages fuel) id' op
    exact .inl (keepsEnded_of_reaches hop reached id s he hs)
  | @machine fuel r _ _ reached =>
    have hrun := (reentry_ages fuel).interpret r
    exact .inl (keepsEnded_of_reaches hrun reached id s he hs)
  | @instruction fuel r code pc _ _ reached =>
    have hstep := lasting_ages.step (reentry_ages fuel) r code pc
    exact .inl (keepsEnded_of_reaches hstep reached id s he hs)
  | @function fuel call f _ _ reached =>
    have hcall := lasting_ages.function (reentry_ages fuel) call f
    exact .inl (keepsEnded_of_reaches hcall reached id s he hs)
  | @action fuel call a _ _ reached =>
    have haction := lasting_ages.action (reentry_ages fuel) call a
    exact .inl (keepsEnded_of_reaches haction reached id s he hs)
  | enter address found runnable =>
    exact .inl (keepsEnded_enter found runnable address id s he hs)
  | @leave fuel u _ id' b address x m found runnable ran =>
    have hin := ((reentry_ages fuel).interpret (.behaviour id') _).of_ok ran
    exact .inl (keepsEnded_leave found hin _ x id s he hs)
  | load found unloaded => exact .inl (keepsEnded_begin found unloaded id s he hs)
  | @hooked fuel u _ id' b failure found loaded ended =>
    have hhook := (lasting_ages.takeHook (reentry_ages fuel) id' _).of_ok ended
    exact state?_endActivation_of_begun found loaded hhook failure he hs

/-! ### Hooks that make their behaviour fault -/

/-- The worlds before and after the end of an activation that begins in `u` and reaches its hook. -/
def hookedAt? (fuel : Nat) (u : World) (id : BehaviourId) : Option (World × World) :=
  (u.behaviour? id).bind fun b =>
    match (u.beginActivation b).1, takeHook (reentry fuel) id (u.beginActivation b).2 with
    | .ok (), .ok failure w => some (w, (w.endActivation b failure).2)
    | _, _ => none

theorem next_of_hookedAt? {fuel : Nat} {u w w' : World} {id : BehaviourId}
    (h : hookedAt? fuel u id = some (w, w')) : Next w w' := by
  obtain ⟨b, hb, h⟩ := Option.bind_eq_some_iff.1 h
  split at h
  · next hloaded hended =>
    cases h
    exact .hooked hb hloaded hended
  · cases h

/-- The activation indeed ends there. -/
theorem activate_of_hookedAt? {fuel : Nat} {u w w' : World} {id : BehaviourId}
    (hs : u.state? id = some .unloaded) (h : hookedAt? fuel u id = some (w, w')) :
    ∃ x, activate (fuel + 1) id u = .ok x w' := by
  obtain ⟨b, hb, h⟩ := Option.bind_eq_some_iff.1 h
  rw [state?_of_behaviour? hb] at hs
  have hends : (activate (fuel + 1) id).Ends u (fun _ v => v = w') fun _ => False := by
    refine activateWith_ends (fun hnone => ?_) ?_ ?_
    · exact absurd (Option.some.inj hs) (hnone b hb)
    · intro b' e v hb' _ hfailed
      cases hb.symm.trans hb'
      rw [hfailed] at h
      cases h
    · intro b' v hb' _ hloaded
      cases hb.symm.trans hb'
      rw [hloaded] at h
      dsimp only at h
      split at h
      · next hended =>
        cases h
        unfold Run.Ends
        rw [hended]
      · cases h
  unfold Run.Ends at hends
  split at hends
  · next x v hx => exact ⟨x, hends ▸ hx⟩
  · exact hends.elim

/-- A world in which behaviour 1 is to be activated. Its event handler takes an address off the
empty stack, and its hook raises the event before it ends with or without a failure. -/
def hooking (failure : Option String) : World :=
  let p := { Program.empty "faulty" with
    code := Instruction.encodeWords .pop none ++ Instruction.encodeWords .jump (some haltAddress)
    entryPoints := .ofList [⟨"_start", 0, .object, true⟩] (List.nodup_singleton "_start") }
  let w := (new .default).addBehaviour (.of 100 101) (some p)
  w.mapBehaviour ⟨1⟩ fun b => { b with hook := some ⟨[.dispatch "_start"], failure⟩ }

/-- A hook that makes its behaviour fault and does not fail: the behaviour stays as it is. -/
theorem ended_stays_hooked :
    ∃ w w', Next w w' ∧ w.state? ⟨1⟩ = some .faulted ∧ w'.state? ⟨1⟩ = some .faulted := by
  have hrun : (hookedAt? 3 (hooking none) ⟨1⟩).any (fun r =>
      r.1.state? ⟨1⟩ = some .faulted ∧ r.2.state? ⟨1⟩ ≠ some .disabled) = true := by
    decide +kernel
  obtain ⟨⟨w, w'⟩, hr, hstates⟩ := (Option.any_eq_true _ _).1 hrun
  obtain ⟨hs, hs'⟩ := of_decide_eq_true hstates
  have hnext := next_of_hookedAt? hr
  obtain h | ⟨-, h, -⟩ := ended_stays hnext rfl hs
  · exact ⟨w, w', hnext, hs, h⟩
  · exact absurd h hs'

/-- A hook that makes its behaviour fault and then fails: the behaviour becomes disabled, and that
is how the activation ends. -/
theorem failing_hook_disables_faulted :
    ∃ w w' x, Next w w' ∧ w.state? ⟨1⟩ = some .faulted ∧ w'.state? ⟨1⟩ = some .disabled ∧
      activate 4 ⟨1⟩ (hooking (some "x")) = .ok x w' := by
  have hrun : (hookedAt? 3 (hooking (some "x")) ⟨1⟩).any (fun r =>
      r.1.state? ⟨1⟩ = some .faulted ∧ r.2.state? ⟨1⟩ = some .disabled) = true := by
    decide +kernel
  obtain ⟨⟨w, w'⟩, hr, hstates⟩ := (Option.any_eq_true _ _).1 hrun
  obtain ⟨hs, hs'⟩ := of_decide_eq_true hstates
  obtain ⟨x, hx⟩ := activate_of_hookedAt? rfl hr
  exact ⟨w, w', x, next_of_hookedAt? hr, hs, hs', hx⟩

end World

end EventVm
