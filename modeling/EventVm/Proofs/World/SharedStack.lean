import EventVm.Proofs.World.Calls
import EventVm.Proofs.World.History

/-!
# The operand stack around a run

All runs on a machine share its operand stack. A run may take addresses off that an outer run has
put there; closing its frame only cuts the stack, so these addresses are lost to the outer run.

* `endStack`: the stack that a run ends with, before its frame is closed.
* `lowest_runAt`: some part of the stack stays untouched, and at some moment of the run or at its
  end nothing else is on the stack, by induction on the fuel.
* `runAt_stack`: the stack after a run is the one from before exactly if that is at the bottom of
  the stack that the run ended with; a run that never stands lower than where it began loses
  nothing.
-/

namespace EventVm

/-- An entry of runs that leave at least `depth` addresses on the stack of a machine whenever one of
its instructions is due. -/
def Entry.Above (r : MachineRef) (depth : Nat) : Entry → Prop
  | .boundary b => b.machine = r → depth ≤ b.stack.length
  | .log _ | .entered .. | .begun _ | .call _ | .hooked .. | .relayed _ => True

namespace World

variable {r r' : MachineRef} {u v w w' : World} {id : BehaviourId}

/-- The operand stack of a machine, the top first. -/
def stackOf (w : World) (r : MachineRef) : List UInt32 :=
  (w.machine r).stack.entries

/-- A change of a machine that does something to its stack. A machine that is not there has an empty
one. -/
theorem stackOf_of_map (g : List UInt32 → List UInt32) {f : Machine → Machine}
    (h : w'.machine? r = (w.machine? r).map f) (hf : ∀ m, (f m).stack.entries = g m.stack.entries)
    (hg : g [] = []) : w'.stackOf r = g (w.stackOf r) := by
  unfold stackOf
  rw [machine_eq, machine_eq, h]
  cases w.machine? r with
  | none => exact hg.symm
  | some m => exact hf m

theorem stackOf_of_eq (h : w'.machine? r = w.machine? r) : w'.stackOf r = w.stackOf r :=
  stackOf_of_map (fun s => s) (f := fun m => m) (by rw [h, Option.map_id']) (fun _ => rfl) rfl

theorem stackOf_mapMachine (f : Machine → Machine) (hf : ∀ m, (f m).stack = m.stack) (w : World)
    (r r' : MachineRef) : (w.mapMachine f r).stackOf r' = w.stackOf r' :=
  apply_machine_mapMachine (fun m => m.stack.entries) f (fun m => by rw [hf]) w r r'

/-- The stack of a changed machine is the one that the change gives it, unless another machine is
meant or the machine is not there. -/
theorem stackOf_mapMachine_or (w : World) (f : Machine → Machine) (r r' : MachineRef) :
    (w.mapMachine f r).stackOf r' = w.stackOf r' ∨
      r' = r ∧ (w.mapMachine f r).stackOf r' = (f (w.machine r)).stack.entries := by
  by_cases h : r' = r
  · subst h
    cases hm : w.machine? r' with
    | none =>
      left
      apply stackOf_of_eq
      rw [machine?_mapMachine_self, hm, Option.map_none]
    | some m =>
      right
      refine ⟨rfl, ?_⟩
      unfold stackOf
      rw [machine_of_machine? hm, machine_of_map (machine?_mapMachine_self w f r') hm]
  · exact .inl (stackOf_of_eq (machine?_mapMachine_of_ne w _ h))

@[simp]
theorem stackOf_note (w : World) (e : Entry) : (w.note e).stackOf r = w.stackOf r := by
  unfold stackOf
  rw [machine_note]

@[simp]
theorem stackOf_begin (w : World) (i : Begun) : (w.begin i).stackOf r = w.stackOf r := by
  unfold begin
  rw [stackOf_mapMachine (fun m => { m with pc := i.pc + i.opcode.size }) fun _ => rfl]
  exact stackOf_note ..

@[simp]
theorem stackOf_enter (w : World) (id : BehaviourId) (address : UInt32) :
    (w.enter id address).stackOf r = w.stackOf r := by
  by_cases h : r = .behaviour id
  · subst h
    have hm := (machine?_enter w id address (.behaviour id)).trans (if_pos rfl)
    exact stackOf_of_map (fun s => s) hm (fun _ => rfl) rfl
  · exact stackOf_of_eq (by rw [machine?_enter, if_neg h])

/-- Closing the frame of a run cuts the stack. -/
theorem stackOf_leave (w : World) (id : BehaviourId) (frame : Frame) :
    (w.leave id frame).stackOf (.behaviour id) = (w.stackOf (.behaviour id)).drop
      ((w.stackOf (.behaviour id)).length - frame.depth) := by
  have hm := (machine?_leave w id frame (.behaviour id)).trans (if_pos rfl)
  exact stackOf_of_map (fun s => s.drop (s.length - frame.depth)) hm
    (fun m => m.stack.truncate_entries frame.depth) List.drop_nil

theorem stackOf_leave_of_ne (frame : Frame) (h : r ≠ .behaviour id) :
    (w.leave id frame).stackOf r = w.stackOf r :=
  stackOf_of_eq (by rw [machine?_leave, if_neg h])

@[simp]
theorem stackOf_fault (w : World) (id : BehaviourId) : (w.fault id).stackOf r = w.stackOf r := by
  unfold fault refuseRuns
  rw [stackOf_of_eq (machine?_setState ..),
    stackOf_mapMachine (fun m => { m with faulted := true }) fun _ => rfl]

@[simp]
theorem stackOf_conclude (w : World) (id : BehaviourId) (address : UInt32)
    (x : Except VmError Finish) : (w.conclude id address x).2.stackOf r = w.stackOf r := by
  unfold conclude log
  split <;> simp only [stackOf_fault, stackOf_note]

/-! ### The stack at the end of a run -/

/-- The operand stack that a run at an entry point ends with, before its frame is closed. A run that
would be nested too deeply does not begin. -/
def endStack (fuel : Nat) (w : World) (id : BehaviourId) (address : UInt32) : List UInt32 :=
  match fuel with
  | 0 => w.stackOf (.behaviour id)
  | fuel + 1 =>
    if w.options.maxNestingDepth ≤ w.nesting then w.stackOf (.behaviour id)
    else
      match interpretWith (reentry fuel) fuel (.behaviour id) (w.enter id address) with
      | .ok _ w' | .error _ w' => w'.stackOf (.behaviour id)

/-- The depth that a run notes is the depth of the stack. -/
theorem depth_frame {b : Behaviour} {m : Machine} (hb : w.behaviour? id = some b)
    (hm : b.machine = some m) : (w.frame b m).depth = (w.stackOf (.behaviour id)).length := by
  unfold stackOf
  rw [machine_of_machine? (machine?_of_behaviour? hb hm)]
  exact m.stack.depth_eq

/-- After a run, the stack that it ended with is cut to the depth noted at its beginning. -/
theorem stackOf_runAt (fuel : Nat) (address : UInt32) {b : Behaviour} {m : Machine}
    (hb : w.behaviour? id = some b) (hm : b.machine = some m) (hs : b.state.isRunnable = true) :
    (runAt fuel id address).Ends w
      (fun _ w' => w'.stackOf (.behaviour id) = (endStack fuel w id address).drop
        ((endStack fuel w id address).length - (w.stackOf (.behaviour id)).length))
      (fun _ => True) := by
  cases fuel with
  | zero => trivial
  | succ fuel =>
    refine runAtWith_ends ?_ ?_ ?_
    · intro hidle
      rw [hidle b m hb hm] at hs
      cases hs
    · intro _ _ _ _ _ hn
      dsimp only
      rw [stackOf_conclude, endStack, if_pos hn, Nat.sub_self, List.drop_zero]
    · intro b' m' hb' hm' _ hn
      have hdepth := depth_frame hb' hm'
      have hend : endStack (fuel + 1) w id address =
          match interpretWith (reentry fuel) fuel (.behaviour id) (w.enter id address) with
          | .ok _ w' | .error _ w' => w'.stackOf (.behaviour id) := if_neg (Nat.not_le.2 hn)
      rw [hend]
      unfold Run.Ends
      cases interpretWith (reentry fuel) fuel (.behaviour id) (w.enter id address) with
      | error _ w' => trivial
      | ok x w' =>
        dsimp only
        rw [stackOf_conclude, stackOf_leave, hdepth]

/-! ### What stays at the bottom -/

/-- An instruction of the machine is due while the given addresses are on its stack. -/
def DueAt (r : MachineRef) (stack : List UInt32) (e : Entry) : Prop :=
  ∃ b, e = .boundary b ∧ b.machine = r ∧ b.stack = stack

/-- Between two worlds the addresses `bottom` stay on the stack of a machine, and at some moment
when an instruction is due or in the end nothing else is on it. -/
structure Lowest (r : MachineRef) (w w' : World) (bottom : List UInt32) : Prop where
  before : bottom <:+ w.stackOf r
  after : bottom <:+ w'.stackOf r
  attained : bottom = w'.stackOf r ∨ ∃ new e, w'.journal = new ++ w.journal ∧ e ∈ new ∧
    DueAt r bottom e

/-- Between two worlds the stack of a machine has a lowest part, and no function is registered. -/
structure HasLowest (r : MachineRef) (w w' : World) : Prop where
  functions : w'.functions = w.functions
  wrote : w.Wrote (fun _ => True) w'
  lowest : ∃ bottom, Lowest r w w' bottom

namespace HasLowest

theorem builtInsOnly (h : HasLowest r w w') (hw : w.BuiltInsOnly) : w'.BuiltInsOnly := by
  unfold BuiltInsOnly
  rwa [h.functions]

/-- Taking addresses off the stack. -/
theorem of_suffix (hf : w'.functions = w.functions) (hj : w.Wrote (fun _ => True) w')
    (h : w'.stackOf r <:+ w.stackOf r) : HasLowest r w w' :=
  ⟨hf, hj, _, h, List.suffix_rfl, .inl rfl⟩

theorem of_eq (hf : w'.functions = w.functions) (hj : w.Wrote (fun _ => True) w')
    (h : w'.stackOf r = w.stackOf r) : HasLowest r w w' :=
  of_suffix hf hj (h ▸ List.suffix_rfl)

theorem refl (w : World) : HasLowest r w w :=
  of_eq rfl (.refl w) rfl

/-- Of two lowest parts on one stack one is the lower. -/
theorem trans (h : HasLowest r u v) (h' : HasLowest r v w) : HasLowest r u w := by
  obtain ⟨hf, ⟨new, hj, hn⟩, t, ht⟩ := h
  obtain ⟨hf', ⟨new', hj', hn'⟩, t', ht'⟩ := h'
  have hjw : w.journal = (new' ++ new) ++ u.journal := by rw [hj', hj, List.append_assoc]
  have hlater : ∀ bottom, (bottom = w.stackOf r ∨ ∃ n e, w.journal = n ++ v.journal ∧ e ∈ n ∧
      DueAt r bottom e) → bottom = w.stackOf r ∨ ∃ n e, w.journal = n ++ u.journal ∧ e ∈ n ∧
      DueAt r bottom e := by
    rintro bottom (h | ⟨n, e, hne, he, hd⟩)
    · exact .inl h
    · refine .inr ⟨n ++ new, e, by rw [hne, hj, List.append_assoc], ?_, hd⟩
      exact List.mem_append_left _ he
  refine ⟨hf'.trans hf, ⟨_, hjw, fun _ _ => trivial⟩, ?_⟩
  obtain hle | hle := List.suffix_or_suffix_of_suffix ht.after ht'.before
  · refine ⟨t, ht.before, hle.trans ht'.after, ?_⟩
    obtain h | ⟨n, e, hne, he, hd⟩ := ht.attained
    · have heq : t = t' := hle.eq_of_length_le (by rw [h]; exact ht'.before.length_le)
      subst heq
      exact hlater t ht'.attained
    · refine .inr ⟨new' ++ n, e, by rw [hj', hne, List.append_assoc], ?_, hd⟩
      exact List.mem_append_right _ he
  · exact ⟨t', hle.trans ht.before, ht'.after, hlater t' ht'.attained⟩

/-- What is pushed when an instruction is due goes on top of what was there. -/
theorem of_push {b : Boundary} {address : UInt32} {new : List Entry} (hm : b.machine = r)
    (hb : b.stack = w.stackOf r) (hf : w'.functions = w.functions)
    (hj : w'.journal = new ++ .boundary b :: w.journal)
    (hs : w'.stackOf r = address :: w.stackOf r) : HasLowest r w w' := by
  have hj' : w'.journal = (new ++ [.boundary b]) ++ w.journal := by rw [hj, List.append_assoc]; rfl
  refine ⟨hf, ⟨_, hj', fun _ _ => trivial⟩, w.stackOf r, List.suffix_rfl, ?_, ?_⟩
  · rw [hs]
    exact List.suffix_cons ..
  · exact .inr ⟨_, _, hj', List.mem_append_right _ (List.mem_singleton_self _), b, rfl, hm, hb⟩

theorem note (w : World) (e : Entry) : HasLowest r w (w.note e) :=
  of_eq rfl (.note trivial w) (stackOf_note w e)

/-- A change that leaves the stacks of machines alone. -/
theorem mapMachine (f : Machine → Machine) (hf : ∀ m, (f m).stack = m.stack) (w : World)
    (r' : MachineRef) : HasLowest r w (w.mapMachine f r') :=
  of_eq (functions_mapMachine ..) (.of_eq (journal_mapMachine ..)) (stackOf_mapMachine f hf w r' r)

theorem begin (w : World) (i : Begun) : HasLowest r w (w.begin i) :=
  (note w _).trans (mapMachine (fun m => { m with pc := i.pc + i.opcode.size }) (fun _ => rfl) ..)

/-- A change that takes addresses off the stack of a machine. -/
theorem mapMachine_suffix {f : Machine → Machine}
    (h : (f (w.machine r')).stack.entries <:+ w.stackOf r') :
    HasLowest r w (w.mapMachine f r') := by
  refine of_suffix (functions_mapMachine ..) (.of_eq (journal_mapMachine ..)) ?_
  obtain hs | ⟨rfl, hs⟩ := stackOf_mapMachine_or w f r' r
  · exact hs ▸ List.suffix_rfl
  · exact hs ▸ h

theorem respected : BuiltIn.Respected (HasLowest r) where
  refl := refl
  trans := trans
  log := fun _ _ _ => note ..
  hash := fun w id => .of_eq rfl (.of_eq rfl)
    (stackOf_of_eq (machine?_computeHash ..))
  relayed := fun _ _ => note ..
  write := by
    intro w r' address v m hm
    obtain ⟨heap, -, hm⟩ := bind_eq_ok.1 hm
    cases hm
    exact mapMachine_suffix List.suffix_rfl

end HasLowest

/-! ### Inside a run -/

section Running

variable {self : Reentry} {code : Bytes}

/-- Between the beginning and the end of the runs that running code begins, the stack of a machine
has a lowest part. -/
def LowestRuns (self : Reentry) (r : MachineRef) : Prop :=
  ∀ w id address, w.BuiltInsOnly →
    (self.runAt id address).Ends w (fun _ => HasLowest r w) fun _ => True

theorem lowest_callFunction (hself : LowestRuns self r) (hw : w.BuiltInsOnly) (operand : UInt32) :
    (callFunction self r' operand).Ends w (fun _ => HasLowest r w) fun _ => True := by
  refine callFunction_ends (fun _ _ => .refl w) (fun _ => .refl w) (fun _ _ _ => .refl w) ?_
  intro signature f args stack hf hpop
  obtain ⟨b, rfl⟩ := hw signature f hf
  have hpopped : HasLowest r w (w.mapMachine (fun m => { m with stack }) r') := by
    refine .mapMachine_suffix ?_
    rw [show stack.entries = _ from (OperandStack.popMany_ok hpop).2]
    exact List.drop_suffix ..
  refine (BuiltIn.run_ends (HasLowest.respected.from _) ?_ b).mono
    (fun _ _ h => hpopped.trans h.respects) fun _ h => h
  intro v id' _ _ address hv _ _ _
  exact hself v id' address ((hpopped.trans hv).builtInsOnly hw)

/-- An instruction that is due takes addresses off the stack of its machine, pushes one, or calls.
-/
theorem lowest_step (hself : LowestRuns self r) (hw : w.BuiltInsOnly) (pc : UInt32) :
    (step self r' code pc).Ends (w.note (.boundary (w.boundary r' code)))
      (fun _ => HasLowest r w) fun _ => True := by
  have hdue : HasLowest r w (w.note (.boundary (w.boundary r' code))) := .note ..
  have hbegun : ∀ i, HasLowest r w ((w.note (.boundary (w.boundary r' code))).begin i) := fun i =>
    hdue.trans (.begin ..)
  refine step_ends (fun _ _ => hdue) ?_ ?_
  · intro op operand x m _ _ v he
    have hstack : v.stackOf r' = w.stackOf r' := by simp [v]
    obtain ⟨-, hpush⟩ | ⟨k, hpop⟩ := he.stack_entries
    · obtain hs | ⟨rfl, hs⟩ := stackOf_mapMachine_or v (fun _ => m) r' r
      · have hwrote : v.Wrote (fun _ => True) (v.mapMachine (fun _ => m) r') :=
          .of_eq (journal_mapMachine ..)
        exact (hbegun _).trans (.of_eq (functions_mapMachine ..) hwrote hs)
      · have hj : (v.mapMachine (fun _ => m) r).journal =
            [.begun ⟨r, pc, op, operand, w.current⟩] ++
              .boundary (w.boundary r code) :: w.journal := by
          rw [journal_mapMachine]
          exact journal_mapMachine ..
        have hs' : (v.mapMachine (fun _ => m) r).stackOf r = operand :: w.stackOf r := by
          rw [hs, hpush, ← hstack]
          rfl
        refine .of_push (b := w.boundary r code) rfl rfl ?_ hj hs'
        exact (functions_mapMachine ..).trans (functions_mapMachine ..)
    · refine (hbegun _).trans (.mapMachine_suffix ?_)
      rw [hpop]
      exact List.drop_suffix ..
  · intro operand _
    exact (lowest_callFunction hself ((hbegun _).builtInsOnly hw) operand).mono
      (fun _ _ h => (hbegun _).trans h) fun _ h => h

theorem lowest_interpretWith (hself : LowestRuns self r) (hw : w.BuiltInsOnly) (fuel : Nat) :
    (interpretWith self fuel r').Ends w (fun _ => HasLowest r w) fun _ => True := by
  refine interpretWith_ends (fun _ => .refl w) (fun _ => .refl w) fun p _ _ => ?_
  have hend : ∀ v (f : Machine → Machine), HasLowest r w v → (∀ m, (f m).stack = m.stack) →
      HasLowest r w (v.mapMachine f r') := fun v f hv hf => hv.trans (.mapMachine f hf ..)
  refine runLoop_ends (HasLowest r w) ?_ ?_ ?_ ?_ (fun _ _ => trivial) fuel ?_
  · exact fun v hv _ => hv.trans (.note ..)
  · exact fun v hv _ => hend _ (fun m => { m with abortRequested := false }) (hv.trans (.note ..))
      fun _ => rfl
  · exact fun v hv _ _ => hend _ (fun m => { m with halted := true }) (hv.trans (.note ..))
      fun _ => rfl
  · intro v hv _ _
    refine (lowest_step hself (hv.builtInsOnly hw) _).mono ?_ fun _ h => h
    intro x v' h
    cases x with
    | ok _ => exact hv.trans h
    | error e => exact hend _ (fun m => { m with faulted := true }) (hv.trans h) fun _ => rfl
  · exact .mapMachine (fun m => { m with halted := false }) (fun _ => rfl) ..

end Running

/-! ### Around a run -/

theorem HasLowest.enter (w : World) (id : BehaviourId) (address : UInt32) :
    HasLowest r w (w.enter id address) :=
  .of_eq rfl ((Wrote.note trivial w).trans (.of_eq rfl)) (stackOf_enter ..)

theorem HasLowest.fault (w : World) (id : BehaviourId) : HasLowest r w (w.fault id) :=
  (mapMachine (fun m => { m with faulted := true }) (fun _ => rfl) w (.behaviour id)).trans
    (.of_eq rfl (.of_eq rfl) (stackOf_of_eq (machine?_setState ..)))

theorem HasLowest.conclude (w : World) (id : BehaviourId) (address : UInt32)
    (x : Except VmError Finish) : HasLowest r w (w.conclude id address x).2 := by
  unfold World.conclude
  split
  · exact refl w
  · exact (note ..).trans (fault ..)
  · exact fault ..
  · exact (note ..).trans (fault ..)

/-- Closing a frame leaves the part of the stack alone that is as deep as the frame notes. -/
theorem HasLowest.leave {frame : Frame} (h : HasLowest r w w')
    (hd : r = .behaviour id → (w.stackOf r).length ≤ frame.depth) :
    HasLowest r w (w'.leave id frame) := by
  obtain ⟨hf, hj, t, ht⟩ := h
  by_cases hr : r = .behaviour id
  · subst hr
    have hle : t.length ≤ frame.depth := Nat.le_trans ht.before.length_le (hd rfl)
    have hcut := stackOf_leave w' id frame
    refine ⟨hf, hj, t, ht.before, ?_, ht.attained.imp_left fun h => ?_⟩
    · refine List.suffix_of_suffix_length_le ht.after (hcut ▸ List.drop_suffix ..) ?_
      have hle' := ht.after.length_le
      rw [hcut, List.length_drop]
      omega
    · rw [hcut, Nat.sub_eq_zero_of_le (h ▸ hle), List.drop_zero]
      exact h
  · have hs := stackOf_leave_of_ne (w := w') frame hr
    exact ⟨hf, hj, t, ht.before, hs ▸ ht.after, hs ▸ ht.attained⟩

/-- Whatever a run at an entry point does, the stack of each machine has a lowest part. -/
theorem lowest_runAt (fuel : Nat) (r : MachineRef) (hw : w.BuiltInsOnly) (id : BehaviourId)
    (address : UInt32) :
    (runAt fuel id address).Ends w (fun _ => HasLowest r w) fun _ => True := by
  induction fuel generalizing w id address with
  | zero => trivial
  | succ fuel ih =>
    refine runAtWith_ends (fun _ => .refl w) (fun _ _ _ _ _ _ => .conclude ..) ?_
    intro b m hb hm _ _
    have hself : LowestRuns (reentry fuel) r := fun v id address hv => ih hv id address
    refine (lowest_interpretWith hself (w := w.enter id address) hw fuel).mono ?_ fun _ h => h
    intro x w' h
    refine (((HasLowest.enter w id address).trans h).leave ?_).trans (.conclude ..)
    rintro rfl
    exact Nat.le_of_eq (depth_frame hb hm).symm

/-! ### Runs that leave the stack of the outer run alone -/

/-- A lowest part that is as deep as the stack in the beginning is that stack. -/
theorem HasLowest.suffix (h : HasLowest r w w')
    (habove : w.Wrote (Entry.Above r (w.stackOf r).length) w')
    (hend : (w.stackOf r).length ≤ (w'.stackOf r).length) : w.stackOf r <:+ w'.stackOf r := by
  obtain ⟨-, -, t, ht⟩ := h
  have hle : (w.stackOf r).length ≤ t.length := by
    obtain ht | ⟨new, e, hj, he, b, rfl, hb, rfl⟩ := ht.attained
    · rwa [ht]
    · obtain ⟨new', hj', hn⟩ := habove
      rw [hj] at hj'
      have hnew : new = new' := List.append_cancel_right hj'
      subst hnew
      exact hn _ he hb
  have heq : t = w.stackOf r := ht.before.eq_of_length_le hle
  exact heq ▸ ht.after

/-- What a run leaves of the operand stack. The stack is the one from before exactly if that one is
still at the bottom of the stack that the run ended with. If only built-in functions can be called,
it is so whenever the depth has been restored and the stack has never been less deep since. -/
theorem runAt_stack (fuel : Nat) (w : World) (id : BehaviourId) (address : UInt32) (b : Behaviour)
    (m : Machine) (hb : w.behaviour? id = some b) (hm : b.machine = some m)
    (hs : b.state.isRunnable = true) :
    (runAt fuel id address).Ends w
      (fun _ w' =>
        let before := w.stackOf (.behaviour id)
        let after := w'.stackOf (.behaviour id)
        (after = before ↔ before <:+ endStack fuel w id address) ∧
        (w.BuiltInsOnly → w.Wrote (Entry.Above (.behaviour id) before.length) w' →
          after.length = before.length → after = before))
      (fun _ => True) := by
  unfold Run.Ends
  split
  · next halted w' h =>
    have hcut := (stackOf_runAt fuel address hb hm hs).of_ok h
    refine ⟨?_, fun hw habove hdepth => ?_⟩
    · rw [hcut, List.suffix_iff_eq_drop]
      exact eq_comm
    · have hlow := (lowest_runAt fuel (.behaviour id) hw id address).of_ok h
      exact ((hlow.suffix habove (Nat.le_of_eq hdepth.symm)).eq_of_length hdepth.symm).symm
  · trivial

/-- A run with another run of the behaviour inside, both of which leave addresses on the stack. -/
theorem runAt_stack_reentrant : endStack 17 reentrantWorld ⟨1⟩ 0 = [5, 0] ∧
    ∃ w', runAt 17 ⟨1⟩ 0 reentrantWorld = .ok true w' ∧
      w'.journal.filterMap Entry.entered? = [(⟨1⟩, 72, 2), (⟨1⟩, 0, 1)] ∧
      w'.stackOf (.behaviour ⟨1⟩) = [0] := by
  have h := runAt_stack 17 reentrantWorld ⟨1⟩ 0 _ _ rfl rfl rfl
  obtain ⟨_, w', hw', rfl, hentered⟩ := ends_reentrant.exists_ok
  have hend : endStack 17 reentrantWorld ⟨1⟩ 0 = [5, 0] := by decide +kernel
  exact ⟨hend, w', hw', hentered, (h.of_ok hw').1.2 (hend ▸ List.suffix_cons ..)⟩

/-- A run that pops an address of the outer run before it jumps to the halt address does not: the
stack stays one address short. -/
theorem runAt_pop_shortens_stack :
    let code := Instruction.encodeWords .pop none ++
      Instruction.encodeWords .jump (some haltAddress)
    let w := solo (soloMachine { Program.empty "solo" with code } [0])
    w.stackOf (.behaviour ⟨1⟩) = [0] ∧
      ∃ w', runAt 4 ⟨1⟩ 0 w = .ok true w' ∧ w'.stackOf (.behaviour ⟨1⟩) = [] := by
  intro code w
  exact ⟨rfl, _, rfl, rfl⟩

end World

end EventVm
