import EventVm.Proofs.World.Stopping

/-!
# What an activation answers

An activation answers before anybody looks at the behaviour again. If its hook has let a run of the
behaviour fail, the behaviour has faulted; but unless the hook fails as well, the activation answers
that it succeeded, and reports that the behaviour is ready.

* `Moment.Trace.not_faulted`, `Moment.Trace.ended`: in an account, a behaviour faults exactly if a
  run of it fails, and then it has ended;
* `activate_answers`: how an activation ends;
* `activate_reports`: the answer tells the truth exactly if it is a failure or no run has failed;
* `hook_fault_reported_ready`: an answer that does not.
-/

namespace EventVm

open Moment

/-! ### Runs that fail -/

/-- With the deed a run of the behaviour fails: it is refused, or it ends otherwise than at the halt
address. -/
def Deed.Fails (id : BehaviourId) : Deed → Prop
  | refused id' _ => id' = id
  | left id' _ _ x => id' = id ∧ x ≠ .ok .reachedHalt
  | _ => False

/-- The behaviour has ended or is gone, and no other one will have its number. -/
structure Ended (id : BehaviourId) (w : World) : Prop where
  known : id.number < w.nextId
  state : ∀ s, w.state? id = some s → s.isEnded = true

section Failing

variable {k : Access} {id : BehaviourId} {c c' : Moment} {d : Deed} {base : List OpenRun}
  {es : List (Deed × Moment)}

/-- A run that fails makes its behaviour fault. -/
theorem Moment.Step.faulted_of_fails (h : Step k c d c') (hc : c.Consistent k) (hd : d.Fails id) :
    c'.world.state? id = some .faulted := by
  unfold Deed.Fails at hd
  split at hd
  · subst hd
    exact h.faulted_of_refused
  · obtain ⟨rfl, hx⟩ := hd
    exact h.faulted_of_failed hc hx
  · exact hd.elim

/-- Nothing else does. -/
theorem Moment.Step.not_faulted (h : Step k c d c') (hc : c.Consistent k) (hd : ¬ d.Fails id)
    (hs : c.world.state? id ≠ some .faulted) : c'.world.state? id ≠ some .faulted := by
  have ht := h.turns id
  generalize c.world.state? id = s?, c'.world.state? id = s?' at ht hs
  cases ht with
  | kept => exact hs
  | refused => exact absurd rfl hd
  | faulted failed => exact absurd ⟨rfl, failed⟩ hd
  | returned =>
    have hf := hc.runnable _ _ _ h.frame
    intro he
    split at he
    · rw [Option.some.inj he] at hf
      cases hf
    · exact hs he
  | _ => nofun

/-- A behaviour that has ended does not start again. -/
theorem Moment.Step.ended (h : Step k c d c') (hc : c.Consistent k) (he : Ended id c.world) :
    Ended id c'.world where
  known := Nat.lt_of_lt_of_le he.known (h.nextId_le hc.permits)
  state := by
    intro s' hs'
    have ht := h.turns id
    have hended := he.state
    rw [hs'] at ht
    generalize c.world.state? id = s? at ht hended
    cases ht with
    | kept => exact hended s' rfl
    | created => exact absurd rfl (h.ne_created hc he.known)
    | activated | unactivated => cases hended _ rfl
    | disabled | refused | faulted => rfl
    | @entered address s runnable => cases s <;> cases runnable <;> cases hended _ rfl
    | returned =>
      split
      · next he =>
        subst he
        cases hended _ rfl
      · exact hended _ rfl

/-- A behaviour no run of which fails does not fault. -/
theorem Moment.Trace.not_faulted (h : Trace k base c es c') (hc : c.Consistent k)
    (hes : ∀ e ∈ es, ¬ e.1.Fails id) (hs : c.world.state? id ≠ some .faulted) :
    c'.world.state? id ≠ some .faulted := by
  induction h with
  | nil => exact hs
  | next before step _ ih =>
    obtain ⟨he, hes⟩ := List.forall_mem_cons.1 hes
    exact step.not_faulted (before.consistent hc) he (ih hes)

/-- A behaviour a run of which has failed has ended, whatever happened since. -/
theorem Moment.Trace.ended (h : Trace k base c es c') (hc : c.Consistent k)
    (hes : ∃ e ∈ es, e.1.Fails id) : Ended id c'.world := by
  induction h with
  | nil =>
    obtain ⟨e, he, -⟩ := hes
    cases he
  | next before step _ ih =>
    have hbefore := before.consistent hc
    obtain ⟨e, he, hfails⟩ := hes
    obtain rfl | he := List.mem_cons.1 he
    · have hs := step.faulted_of_fails hbefore hfails
      refine ⟨(step.consistent hbefore).known id _ hs, fun s hs' => ?_⟩
      rw [hs] at hs'
      cases hs'
      rfl
    · exact step.ended hbefore (ih ⟨e, he, hfails⟩)

end Failing

/-! ### Activations -/

namespace World

/-- How an activation of `b` ends that was not refused. One that succeeds reports in the end that
the behaviour is ready, though it may have faulted. One that fails reports the failure, and the
behaviour is disabled. -/
inductive Answers (b : Behaviour) : Except LoadError Unit → World → Prop where
  | ok {w : World}
    (reported : w.journal.head? =
      some (.log (.ready b.id ((b.program.map Program.name).getD ""))))
    (state : w.state? b.id = some .ready ∨ w.state? b.id = some .faulted) : Answers b (.ok ()) w
  | error {e : LoadError} {w : World}
    (reported : w.journal.head? = some (.log (.loadFailed b.id e)) ∨
      w.journal.head? = some (.log (.hookFailed b.id e)))
    (state : w.state? b.id = some .disabled) : Answers b (.error e) w

variable {k : Access} {rs : List OpenRun} {w w' : World} {id : BehaviourId} {b : Behaviour}
  {fuel : Nat} {x : Except LoadError Unit}

/-- An activation that fails before the hook reports that last. -/
theorem reported_of_unactivated {e : LoadError} (h : w.beginActivation b = (.error e, w')) :
    w'.journal.head? = some (.log (.loadFailed b.id e)) := by
  unfold beginActivation at h
  split at h <;> cases h
  rfl

theorem activate_answers (hb : w.behaviour? id = some b) (hs : b.state = .unloaded)
    (hrun : activate fuel id w = .ok x w') : Answers b x w' := by
  obtain rfl := id_of_behaviour? hb
  cases fuel with
  | zero => cases hrun
  | succ fuel =>
    suffices h : (activateWith (reentry fuel) b.id).Ends w (Answers b) fun _ => True from
      h.of_ok hrun
    refine activateWith_ends (fun h => absurd hs (h b hb)) ?_ ?_
    · intro b' e v hb' _ hfailed
      cases hb.symm.trans hb'
      have hstate := state?_beginActivation w b b.id
      rw [hfailed, if_pos rfl, state?_of_behaviour? hb] at hstate
      exact .error (.inl (reported_of_unactivated hfailed)) hstate
    · intro b' v hb' _ hloaded
      cases hb.symm.trans hb'
      have hok : (w.beginActivation b).1 = .ok () := by rw [hloaded]
      obtain rfl : (w.beginActivation b).2 = v := by rw [hloaded]
      refine (lasting_ages.takeHook (reentry_ages fuel) b.id _).mono (fun failure v hv => ?_)
        fun _ _ => trivial
      have hbefore := state?_of_begun hb hok hv
      have hstate := state?_endActivation v b failure b.id
      cases failure with
      | none =>
        rw [if_neg (by simp)] at hstate
        exact .ok rfl (hstate ▸ hbefore)
      | some text =>
        rw [if_pos ⟨rfl, rfl⟩] at hstate
        refine .error (.inr rfl) (hstate.trans ?_)
        obtain hbefore | hbefore := hbefore <;> rw [hbefore] <;> rfl

/-- For every behaviour that has not been activated, in the midst of whatever runs: when an
activation of it ends, the answer is success exactly if the last message says that the behaviour is
ready, and failure exactly if the behaviour is disabled. If the behaviour is ready, the answer is
success. The converse holds exactly if no run of the behaviour has failed that the hook began,
directly or not; after a failure of the hook itself it does not matter. -/
theorem activate_reports (hw : Consistent k ⟨w, rs⟩) (hb : w.behaviour? id = some b)
    (hs : b.state = .unloaded) (hrun : activate fuel id w = .ok x w') :
    (x = .ok () ↔
      w'.journal.head? = some (.log (.ready id ((b.program.map Program.name).getD "")))) ∧
    ((∃ e, x = .error e) ↔ w'.state? id = some .disabled) ∧
    (w'.state? id = some .ready → x = .ok ()) ∧
    (∃ es, Trace k rs ⟨w, rs⟩ es ⟨w', rs⟩) ∧
    ∀ es, Trace k rs ⟨w, rs⟩ es ⟨w', rs⟩ →
      ((x = .ok () ↔ w'.state? id = some .ready) ↔ (x = .ok () → ∀ e ∈ es, ¬ e.1.Fails id)) := by
  have hanswers := activate_answers hb hs hrun
  have haccount := ((accounted_reentry k fuel rs).activate id w hw).of_ok hrun
  obtain rfl := id_of_behaviour? hb
  have hunloaded := state?_of_behaviour? hb
  rw [hs] at hunloaded
  cases hanswers with
  | error reported state =>
    refine ⟨⟨nofun, fun h => ?_⟩, ⟨fun _ => state, fun _ => ⟨_, rfl⟩⟩, fun h => ?_, haccount,
      fun es _ => ?_⟩
    · obtain reported | reported := reported <;> cases reported.symm.trans h
    · cases state.symm.trans h
    · simp [state]
  | ok reported state =>
    refine ⟨⟨fun _ => reported, fun _ => rfl⟩, ⟨nofun, fun h => ?_⟩, fun _ => rfl, haccount,
      fun es hes => ?_⟩
    · obtain state | state := state <;> cases state.symm.trans h
    · constructor
      · intro hready _ e he hfails
        cases (hes.ended hw ⟨e, he, hfails⟩).state _ (hready.1 rfl)
      · intro hnone
        have hsound := hes.not_faulted hw (hnone rfl) (by rw [hunloaded]; nofun)
        exact ⟨fun _ => state.resolve_right hsound, fun _ => rfl⟩

/-! ### A hook that makes its behaviour fault -/

/-- A host can set up a behaviour whose hook makes it fault. -/
theorem history_hooking (failure : Option String) : History .full .default (hooking failure) :=
  .act (.act .new (.create (.of 100 101) (some _)) rfl)
    (.operate 0 ⟨1⟩ (show Operation.Permitted .full (.hook [.dispatch "_start"] failure) from
      .inl rfl)) rfl

/-- The hook of that behaviour ends well, after its event handler has failed. -/
theorem activate_hooking : ∃ w', activate 4 ⟨1⟩ (hooking none) = .ok (.ok ()) w' ∧
    w'.state? ⟨1⟩ = some .faulted := by
  have hends : (activate 4 ⟨1⟩).Ends (hooking none)
      (fun x w' => x.isOk = true ∧ w'.state? ⟨1⟩ = some .faulted) fun _ => False := by
    decide +kernel
  obtain ⟨x, w', hrun, hx, hfaulted⟩ := hends.exists_ok
  cases x with
  | ok => exact ⟨w', hrun, hfaulted⟩
  | error => cases hx

/-- The behaviour is not ready although the activation succeeds: a run of it has failed. -/
theorem activate_reports_hooking : ∃ w w' es, History .full .default w ∧
    activate 4 ⟨1⟩ w = .ok (.ok ()) w' ∧ Trace .full [] ⟨w, []⟩ es ⟨w', []⟩ ∧
    ∃ e ∈ es, e.1.Fails ⟨1⟩ := by
  obtain ⟨w', hrun, hfaulted⟩ := activate_hooking
  have hhistory := history_hooking none
  obtain ⟨_, hbefore⟩ := hhistory.account
  have hw := hbefore.consistent (consistent_start .full .default)
  obtain ⟨-, -, -, ⟨es, hes⟩, hreports⟩ := activate_reports hw rfl rfl hrun
  refine ⟨_, w', es, hhistory, hrun, hes, ?_⟩
  by_contra hnone
  have hready := ((hreports es hes).2 fun _ e he hfails => hnone ⟨e, he, hfails⟩).1 rfl
  cases hready.symm.trans hfaulted

/-- An activation that succeeds, and in the end reports that the behaviour is ready, which has
faulted. -/
theorem hook_fault_reported_ready : ∃ w w', History .full .default w ∧
    w.state? ⟨1⟩ = some .unloaded ∧ activate 4 ⟨1⟩ w = .ok (.ok ()) w' ∧
    w'.journal.head? = some (.log (.ready ⟨1⟩ "faulty")) ∧ w'.state? ⟨1⟩ = some .faulted := by
  obtain ⟨w', hrun, hfaulted⟩ := activate_hooking
  obtain ⟨reported, -⟩ := activate_answers rfl rfl hrun
  exact ⟨_, w', history_hooking none, rfl, hrun, reported, hfaulted⟩

end World

end EventVm
