import EventVm.Proofs.World.Calls
import EventVm.Proofs.World.History

/-!
# Balance of the execution context

A run at an entry point leaves the execution context as it found it: program counters, the running
behaviour and the number of runs in progress are what they were, and a behaviour whose state has
changed has faulted for good. The relation `Settled` says so of two worlds; the program counters of
the machines in `moved` may differ, which is what holds inside a run of these machines.

* `settled_runAt`: every run at an entry point is settled, by induction on the fuel.
* `runAt_balanced`: what this means for the behaviour that runs.
-/

namespace EventVm

/-- An entry as balanced runs write it: no more runs in progress than `limit`, and the machine that
takes instructions is the one of the running behaviour. -/
def Entry.Balanced (limit : Nat) : Entry → Prop
  | .entered _ _ nesting => nesting ≤ limit
  | .boundary b => b.nesting ≤ limit ∧ ∃ id, b.machine = .behaviour id ∧ b.current = some id
  | .begun i => ∃ id, i.machine = .behaviour id ∧ i.current = some id
  | .log _ | .call _ | .hooked .. | .relayed _ => True

namespace World

/-- The machine of a behaviour is there and refuses to run. -/
def RefusesRuns (w : World) (id : BehaviourId) : Prop :=
  ∃ m, w.machine? (.behaviour id) = some m ∧ m.faulted = true

/-- A later world with the same execution context, but for the program counters of the machines in
`moved` and for behaviours that have faulted. -/
structure Settled (moved : MachineRef → Prop) (w w' : World) : Prop where
  options : w'.options = w.options
  functions : w'.functions = w.functions
  current : w'.current = w.current
  nesting : w'.nesting = w.nesting
  machines : ∀ r m, w.machine? r = some m → ∃ m', w'.machine? r = some m' ∧
    m'.program = m.program ∧ (m.faulted = true → m'.faulted = true) ∧ (¬ moved r → m'.pc = m.pc)
  states : ∀ id s, w.state? id = some s →
    w'.state? id = some s ∨ (w'.state? id = some .faulted ∧ w'.RefusesRuns id)
  wrote : w.Wrote (Entry.Balanced w.options.maxNestingDepth) w'

namespace Settled

variable {moved : MachineRef → Prop} {u v w w' : World}

theorem refusesRuns (h : Settled moved v w) {id : BehaviourId} (hv : v.RefusesRuns id) :
    w.RefusesRuns id := by
  obtain ⟨m, hm, hf⟩ := hv
  obtain ⟨m', hm', -, hf', -⟩ := h.machines _ m hm
  exact ⟨m', hm', hf' hf⟩

theorem refl (w : World) : Settled moved w w where
  options := rfl
  functions := rfl
  current := rfl
  nesting := rfl
  machines := fun _ m hm => ⟨m, hm, rfl, id, fun _ => rfl⟩
  states := fun _ _ hs => .inl hs
  wrote := .refl w

theorem trans (h : Settled moved u v) (h' : Settled moved v w) : Settled moved u w where
  options := h'.options.trans h.options
  functions := h'.functions.trans h.functions
  current := h'.current.trans h.current
  nesting := h'.nesting.trans h.nesting
  machines := by
    intro r m hm
    obtain ⟨m', hm', hp, hf, hpc⟩ := h.machines r m hm
    obtain ⟨m'', hm'', hp', hf', hpc'⟩ := h'.machines r m' hm'
    exact ⟨m'', hm'', hp'.trans hp, fun hm => hf' (hf hm), fun hr => (hpc' hr).trans (hpc hr)⟩
  states := by
    intro id s hs
    obtain hs | ⟨hs, hr⟩ := h.states id s hs
    · exact h'.states id s hs
    · obtain hs' | hs' := h'.states id _ hs
      · exact .inr ⟨hs', h'.refusesRuns hr⟩
      · exact .inr hs'
  wrote := h.wrote.trans (h.options ▸ h'.wrote)

theorem mono {moved' : MachineRef → Prop} (h : Settled moved v w) (hm : ∀ r, moved r → moved' r) :
    Settled moved' v w where
  __ := h
  machines := by
    intro r m hr
    obtain ⟨m', hm', hp, hf, hpc⟩ := h.machines r m hr
    exact ⟨m', hm', hp, hf, fun hn => hpc fun h => hn (hm r h)⟩

theorem note {e : Entry} (he : e.Balanced w.options.maxNestingDepth) :
    Settled moved w (w.note e) where
  __ := (refl w : Settled moved w w)
  wrote := .note he w

theorem log (w : World) (e : LogEvent) : Settled moved w (w.log e) :=
  note (e := .log e) trivial

theorem hash (w : World) (id : BehaviourId) :
    Settled moved w (w.mapBehaviour id Behaviour.computeHash) where
  __ := (refl w : Settled moved w w)
  machines := by
    intro r m hm
    rw [machine?_computeHash]
    exact ⟨m, hm, rfl, fun hf => hf, fun _ => rfl⟩
  states := by
    intro id' s hs
    rw [state?_computeHash]
    exact .inl hs
  wrote := .of_eq rfl

theorem mapMachine {f : Machine → Machine} {r : MachineRef}
    (hf : ∀ m, w.machine? r = some m → (f m).program = m.program ∧
      (m.faulted = true → (f m).faulted = true) ∧ (¬ moved r → (f m).pc = m.pc)) :
    Settled moved w (w.mapMachine f r) where
  options := options_mapMachine ..
  functions := functions_mapMachine ..
  current := current_mapMachine ..
  nesting := nesting_mapMachine ..
  machines := by
    intro r' m hm
    rw [machine?_mapMachine]
    split
    · next h =>
      subst h
      exact ⟨f m, by rw [hm, Option.map_some], hf m hm⟩
    · exact ⟨m, hm, rfl, id, fun _ => rfl⟩
  states := fun id s hs => .inl (by rwa [state?_mapMachine])
  wrote := .of_eq (journal_mapMachine ..)

/-- The machine is put in the place of one with the same program. -/
theorem setMachine {m : Machine} {r : MachineRef} (hp : m.program = (w.machine r).program)
    (hf : (w.machine r).faulted = true → m.faulted = true)
    (hpc : ¬ moved r → m.pc = (w.machine r).pc) :
    Settled moved w (w.mapMachine (fun _ => m) r) := by
  refine mapMachine fun m₀ h₀ => ?_
  rw [← machine_of_machine? h₀]
  exact ⟨hp, hf, hpc⟩

/-- Built-in functions keep the context. -/
theorem respected : BuiltIn.Respected (Settled moved) where
  refl := refl
  trans := trans
  log := fun w e _ => log w e
  hash := hash
  relayed := fun _ _ => note trivial
  write := by
    intro w r address v m hm
    obtain ⟨heap, -, hm⟩ := bind_eq_ok.1 hm
    cases hm
    exact setMachine rfl id fun _ => rfl

theorem builtInsOnly (h : Settled moved v w) (hv : v.BuiltInsOnly) : w.BuiltInsOnly := by
  unfold BuiltInsOnly
  rwa [h.functions]

end Settled

/-! ### Inside a run -/

section Running

variable {self : Reentry} {w : World} {id : BehaviourId} {code : Bytes}

/-- The runs that running code begins are settled. -/
def SettledRuns (self : Reentry) : Prop :=
  ∀ w id address, w.BuiltInsOnly →
    (self.runAt id address).Ends w (fun _ => Settled (fun _ => False) w)
      (w.Wrote (Entry.Balanced w.options.maxNestingDepth))

theorem settled_begin {i : Begun} (hi : i.machine = .behaviour id) (hc : i.current = some id) :
    Settled (· = .behaviour id) w (w.begin i) := by
  have hnote : (Entry.begun i).Balanced w.options.maxNestingDepth := ⟨id, hi, hc⟩
  refine Settled.trans (.note hnote) (.mapMachine fun m _ => ⟨rfl, fun h => h, fun hn => ?_⟩)
  exact absurd hi hn

theorem settled_callFunction (hself : SettledRuns self) (hw : w.BuiltInsOnly) (operand : UInt32) :
    (callFunction self (.behaviour id) operand).Ends w
      (fun _ => Settled (· = .behaviour id) w)
      (w.Wrote (Entry.Balanced w.options.maxNestingDepth)) := by
  refine callFunction_ends (fun _ _ => .refl w) (fun _ => .refl w) (fun _ _ _ => .refl w) ?_
  intro signature f args stack hf _
  obtain ⟨b, rfl⟩ := hw signature f hf
  have hpopped : Settled (· = .behaviour id) w
      (w.mapMachine (fun m => { m with stack }) (.behaviour id)) :=
    .mapMachine fun _ _ => ⟨rfl, fun h => h, fun _ => rfl⟩
  refine (BuiltIn.run_ends (Settled.respected.from _) ?_ b).mono
    (fun _ _ h => hpopped.trans h.respects) fun _ h => h
  intro v id' b' event address hv _ _ _
  have hwv := hpopped.trans hv
  refine (hself v id' address (hwv.builtInsOnly hw)).mono (fun _ _ h => h.mono ?_) fun v' h => ?_
  · exact fun _ h => h.elim
  · rw [hwv.options] at h
    exact hwv.wrote.trans h

theorem settled_step (hself : SettledRuns self) (hw : w.BuiltInsOnly) (hc : w.current = some id)
    (pc : UInt32) :
    (step self (.behaviour id) code pc).Ends w (fun _ => Settled (· = .behaviour id) w)
      (w.Wrote (Entry.Balanced w.options.maxNestingDepth)) := by
  have hbegin : ∀ op operand, Settled (· = .behaviour id) w
      (w.begin ⟨.behaviour id, pc, op, operand, w.current⟩) := fun op operand =>
    settled_begin rfl hc
  refine step_ends (fun _ _ => .refl w) ?_ ?_
  · intro op operand x m _ _ w' he
    refine (hbegin op operand).trans (.setMachine he.program_eq ?_ fun hn => absurd rfl hn)
    rw [he.faulted_eq]
    exact fun h => h
  · intro operand _
    have h := hbegin .call operand
    refine (settled_callFunction hself (h.builtInsOnly hw) operand).mono
      (fun _ _ h' => h.trans h') fun v h' => ?_
    rw [h.options] at h'
    exact h.wrote.trans h'

/-- A run of the machine of the running behaviour is settled but for its program counter, and has
not reached the halt address if the machine has faulted. -/
theorem settled_interpretWith (hself : SettledRuns self) (hw : w.BuiltInsOnly)
    (hc : w.current = some id) (hn : w.nesting ≤ w.options.maxNestingDepth) (fuel : Nat) :
    (interpretWith self fuel (.behaviour id)).Ends w
      (fun x w' => Settled (· = .behaviour id) w w' ∧
        (x = .ok .reachedHalt → (w'.machine (.behaviour id)).faulted = false))
      (w.Wrote (Entry.Balanced w.options.maxNestingDepth)) := by
  refine interpretWith_ends (fun _ => ⟨.refl w, fun h => nomatch h⟩)
    (fun _ => ⟨.refl w, fun h => nomatch h⟩) fun p _ _ => ?_
  have hboundary : ∀ v, Settled (· = .behaviour id) w v →
      Settled (· = .behaviour id) w (v.note (.boundary (v.boundary (.behaviour id) p.code))) := by
    intro v hv
    have hb : (Entry.boundary (v.boundary (.behaviour id) p.code)).Balanced
        v.options.maxNestingDepth := by
      refine ⟨?_, id, rfl, hv.current.trans hc⟩
      rw [hv.options]
      exact Nat.le_trans (Nat.le_of_eq hv.nesting) hn
    exact hv.trans (.note hb)
  refine runLoop_ends (Settled (· = .behaviour id) w) ?_ ?_ ?_ ?_ (fun _ hv => hv.wrote) fuel ?_
  · exact fun v hv _ => ⟨hboundary v hv, fun h => nomatch h⟩
  · refine fun v hv _ => ⟨(hboundary v hv).trans ?_, fun h => nomatch h⟩
    exact .mapMachine fun _ _ => ⟨rfl, fun h => h, fun _ => rfl⟩
  · refine fun v hv hf _ => ⟨(hboundary v hv).trans ?_, fun _ => ?_⟩
    · exact .mapMachine fun _ _ => ⟨rfl, fun h => h, fun _ => rfl⟩
    · have h := apply_machine_mapMachine Machine.faulted (fun m => { m with halted := true })
        (fun _ => rfl) (v.note (.boundary (v.boundary (.behaviour id) p.code))) (.behaviour id)
        (.behaviour id)
      rw [h, machine_note]
      exact hf.sound
  · intro v hv _ _
    have hb := hboundary v hv
    refine (settled_step hself (hb.builtInsOnly hw) (hb.current.trans hc) _).mono ?_ fun v' h => ?_
    · intro x v' h
      have h := hb.trans h
      cases x with
      | ok _ => exact h
      | error e =>
        refine ⟨h.trans ?_, fun h => nomatch h⟩
        exact .mapMachine fun _ _ => ⟨rfl, fun _ => rfl, fun _ => rfl⟩
    · rw [hb.options] at h
      exact hb.wrote.trans h
  · exact .mapMachine fun _ _ => ⟨rfl, fun h => h, fun _ => rfl⟩

end Running

/-! ### Around a run -/

section Entering

variable {w w' : World} {id : BehaviourId} {address : UInt32} {b : Behaviour} {m : Machine}

theorem wrote_enter (hn : w.nesting < w.options.maxNestingDepth) :
    w.Wrote (Entry.Balanced w.options.maxNestingDepth) (w.enter id address) := by
  have h : (Entry.entered id address (w.nesting + 1)).Balanced w.options.maxNestingDepth := hn
  exact (Wrote.note h w).trans (.of_eq rfl)

theorem settled_fault (hm : w.machine? (.behaviour id) = some m) :
    Settled (fun _ => False) w (w.fault id) where
  options := options_mapMachine ..
  functions := functions_mapMachine ..
  current := current_mapMachine ..
  nesting := nesting_mapMachine ..
  machines := by
    intro r m' hm'
    unfold fault refuseRuns
    rw [machine?_setState, machine?_mapMachine]
    split
    · rw [hm', Option.map_some]
      exact ⟨{ m' with faulted := true }, rfl, rfl, fun _ => rfl, fun _ => rfl⟩
    · exact ⟨m', hm', rfl, fun h => h, fun _ => rfl⟩
  states := by
    intro id' s hs
    unfold fault refuseRuns RefusesRuns
    simp only [machine?_setState, state?_setState, state?_mapMachine]
    split
    · next h =>
      subst h
      rw [hs, machine?_mapMachine_self, hm]
      exact .inr ⟨rfl, _, rfl, rfl⟩
    · exact .inl hs
  wrote := .of_eq (journal_mapMachine ..)

theorem state?_fault {s : BehaviourState} (hs : w.state? id = some s) :
    (w.fault id).state? id = some .faulted := by
  unfold fault refuseRuns
  rw [state?_setState, if_pos rfl, state?_mapMachine, hs, Option.map_some]

/-- What the end of a run means for its behaviour: nothing if the run reached the halt address, and
else a fault. -/
theorem settled_conclude {s : BehaviourState} (hm : w.machine? (.behaviour id) = some m)
    (hs : w.state? id = some s) (address : UInt32) (x : Except VmError Finish) :
    Settled (fun _ => False) w (w.conclude id address x).2 ∧
      ((w.conclude id address x).1 = true ↔ x = .ok .reachedHalt) ∧
      (w.conclude id address x).2.state? id =
        some (if (w.conclude id address x).1 then s else .faulted) := by
  unfold conclude
  split
  · exact ⟨.refl w, by simp, hs⟩
  · refine ⟨.trans (.log ..) (settled_fault (m := m) ?_), by simp, state?_fault (s := s) hs⟩
    exact (machine?_note ..).trans hm
  · exact ⟨settled_fault hm, by simp, state?_fault hs⟩
  · refine ⟨.trans (.log ..) (settled_fault (m := m) ?_), by simp, state?_fault (s := s) hs⟩
    exact (machine?_note ..).trans hm

theorem RefusesRuns.leave {id' : BehaviourId} (h : w.RefusesRuns id') (id : BehaviourId)
    (frame : Frame) : (w.leave id frame).RefusesRuns id' := by
  obtain ⟨m, hm, hf⟩ := h
  unfold RefusesRuns
  rw [machine?_leave, hm]
  split
  · exact ⟨frame.close m, rfl, hf⟩
  · exact ⟨m, rfl, hf⟩

theorem RefusesRuns.of_leave {id : BehaviourId} {frame : Frame}
    (h : (w.leave id frame).RefusesRuns id) : w.RefusesRuns id := by
  obtain ⟨m, hm, hf⟩ := h
  rw [machine?_leave, if_pos rfl] at hm
  obtain ⟨m₀, h₀, rfl⟩ := Option.map_eq_some_iff.1 hm
  exact ⟨m₀, h₀, hf⟩

/-- What holds inside a frame, but for the machine that runs, holds after it altogether. -/
theorem settled_leave (hb : w.behaviour? id = some b) (hm : b.machine = some m)
    (hn : w.nesting < w.options.maxNestingDepth)
    (h : Settled (· = .behaviour id) (w.enter id address) w') :
    Settled (fun _ => False) w (w'.leave id (w.frame b m)) where
  options := h.options
  functions := h.functions
  current := rfl
  nesting := by
    rw [nesting_leave, h.nesting, nesting_enter]
    omega
  machines := by
    intro r m₀ h₀
    have hw := machine?_of_behaviour? hb hm
    by_cases hr : r = .behaviour id
    · subst hr
      rw [hw] at h₀
      cases h₀
      obtain ⟨m', hm', hp, hf, -⟩ := h.machines (.behaviour id) { m with pc := address } (by
        rw [machine?_enter, if_pos rfl, hw, Option.map_some])
      refine ⟨(w.frame b m).close m', ?_, hp, hf, fun _ => rfl⟩
      rw [machine?_leave, if_pos rfl, hm', Option.map_some]
    · obtain ⟨m', hm', hp, hf, hpc⟩ := h.machines r m₀ (by rw [machine?_enter, if_neg hr, h₀])
      exact ⟨m', by rw [machine?_leave, if_neg hr, hm'], hp, hf, fun _ => hpc hr⟩
  states := by
    intro id' s hs
    rw [state?_leave]
    by_cases hid : id' = id
    · subst hid
      rw [if_pos rfl]
      have hexecuting : (w.enter id' address).state? id' = some .executing := by
        rw [state?_enter, if_pos rfl, hs, Option.map_some]
      rw [state?_of_behaviour? hb] at hs
      obtain h' | ⟨h', hr⟩ := h.states id' .executing hexecuting
      · exact .inl (by rw [h', Option.map_some, if_pos rfl]; exact hs)
      · exact .inr ⟨by rw [h']; rfl, hr.leave ..⟩
    · rw [if_neg hid]
      obtain h' | ⟨h', hr⟩ := h.states id' s (by rw [state?_enter, if_neg hid, hs])
      · exact .inl h'
      · exact .inr ⟨h', hr.leave ..⟩
  wrote := (wrote_enter hn).trans h.wrote

end Entering

/-! ### Runs at entry points -/

/-- A run at an entry point is settled. Whether it reached the halt address says in which state its
behaviour is left, if that was ready to run. -/
def SettledRun (w : World) (id : BehaviourId) (halted : Bool) (w' : World) : Prop :=
  Settled (fun _ => False) w w' ∧
    ∀ b m, w.behaviour? id = some b → b.machine = some m → b.state.isRunnable = true →
      w'.state? id = some (if halted then b.state else .faulted)

theorem settled_runAtWith {self : Reentry} (hself : SettledRuns self) {fuel : Nat} {w : World}
    (hw : w.BuiltInsOnly) (id : BehaviourId) (address : UInt32) :
    (runAtWith (interpretWith self fuel) id address).Ends w (SettledRun w id)
      (w.Wrote (Entry.Balanced w.options.maxNestingDepth)) := by
  refine runAtWith_ends ?_ ?_ ?_
  · intro hidle
    refine ⟨.refl w, fun b m hb hm hs => ?_⟩
    rw [hidle b m hb hm] at hs
    cases hs
  · intro b m hb hm hs _
    have h := settled_conclude (machine?_of_behaviour? hb hm) (state?_of_behaviour? hb) address
      (.error (.recursionLimit w.options.maxNestingDepth))
    refine ⟨h.1, fun b' m' hb' _ _ => ?_⟩
    rw [hb] at hb'
    cases hb'
    exact h.2.2
  · intro b m hb hm hs hn
    refine (settled_interpretWith hself (w := w.enter id address) hw rfl hn fuel).mono ?_ ?_
    · rintro x w' ⟨hinner, hhalt⟩
      have houter := settled_leave hb hm hn hinner
      obtain ⟨m', hm', -⟩ := houter.machines _ m (machine?_of_behaviour? hb hm)
      obtain hs' | ⟨hs', hr⟩ := houter.states id b.state (state?_of_behaviour? hb)
      · have hend := settled_conclude hm' hs' address x
        refine ⟨houter.trans hend.1, fun b' _ hb' _ _ => ?_⟩
        rw [hb] at hb'
        cases hb'
        exact hend.2.2
      · have hend := settled_conclude hm' hs' address x
        refine ⟨houter.trans hend.1, fun b' _ hb' _ _ => ?_⟩
        have hx : x ≠ .ok .reachedHalt := by
          intro hx
          obtain ⟨m₀, h₀, hf⟩ := hr.of_leave
          have hnot := hhalt hx
          rw [machine_of_machine? h₀, hf] at hnot
          cases hnot
        have hfalse : ¬ ((w'.leave id (w.frame b m)).conclude id address x).1 = true :=
          fun h => hx (hend.2.1.1 h)
        rw [if_neg hfalse, hend.2.2, if_neg hfalse]
    · exact fun w' h => (wrote_enter hn).trans h

/-- Every run at an entry point is settled. -/
theorem settled_runAt (fuel : Nat) {w : World} (hw : w.BuiltInsOnly) (id : BehaviourId)
    (address : UInt32) :
    (runAt fuel id address).Ends w (SettledRun w id)
      (w.Wrote (Entry.Balanced w.options.maxNestingDepth)) := by
  induction fuel generalizing w id address with
  | zero => exact .refl w
  | succ fuel ih =>
    refine settled_runAtWith (fun v id address hv => ?_) hw id address
    exact (ih hv id address).mono (fun _ _ h => h.1) fun _ h => h

/-- The execution context is balanced on every path, whatever runs are nested inside: when a run at
an entry point of a runnable behaviour returns, the program counter, the running behaviour and the
number of runs in progress are what they were, and the behaviour is in its previous state if the run
reached the halt address and has faulted otherwise. All that time, and however long the run takes,
there are never more runs in progress than allowed, and the instructions that are begun are those of
the running behaviour. -/
theorem runAt_balanced (fuel : Nat) (w : World) (id : BehaviourId) (address : UInt32)
    (b : Behaviour) (m : Machine) (hw : w.BuiltInsOnly) (hb : w.behaviour? id = some b)
    (hm : b.machine = some m) (hs : b.state.isRunnable = true) :
    (runAt fuel id address).Ends w
      (fun halted w' =>
        (w'.machine? (.behaviour id)).map Machine.pc = some m.pc ∧
        w'.current = w.current ∧
        w'.nesting = w.nesting ∧
        w'.state? id = some (if halted then b.state else .faulted) ∧
        w.Wrote (Entry.Balanced w.options.maxNestingDepth) w')
      (w.Wrote (Entry.Balanced w.options.maxNestingDepth)) := by
  refine (settled_runAt fuel hw id address).mono ?_ fun _ h => h
  rintro halted w' ⟨h, hstate⟩
  obtain ⟨m', hm', -, -, hpc⟩ := h.machines _ m (machine?_of_behaviour? hb hm)
  refine ⟨?_, h.current, h.nesting, hstate b m hb hm hs, h.wrote⟩
  rw [hm', Option.map_some, hpc fun h => h]

/-- A run with another run of the behaviour inside. -/
theorem runAt_balanced_reentrant :
    reentrantWorld.BuiltInsOnly ∧ ∃ w', runAt 17 ⟨1⟩ 0 reentrantWorld = .ok true w' ∧
      w'.journal.filterMap Entry.entered? = [(⟨1⟩, 72, 2), (⟨1⟩, 0, 1)] ∧
      (w'.machine? (.behaviour ⟨1⟩)).map Machine.pc = some 0 ∧ w'.current = none ∧
      w'.nesting = 0 ∧ w'.state? ⟨1⟩ = some .ready ∧
      reentrantWorld.Wrote (Entry.Balanced reentrantWorld.options.maxNestingDepth) w' := by
  have h := runAt_balanced 17 reentrantWorld ⟨1⟩ 0 _ _ (builtInsOnly_solo _) rfl rfl rfl
  obtain ⟨_, w', hw', rfl, hentered⟩ := ends_reentrant.exists_ok
  obtain ⟨hpc, hcurrent, hnesting, hstate, hwrote⟩ := h.of_ok hw'
  exact ⟨builtInsOnly_solo _, w', hw', hentered, hpc, hcurrent, hnesting, hstate, hwrote⟩

end World

end EventVm
