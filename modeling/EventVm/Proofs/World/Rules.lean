import EventVm.Proofs.Machine.Effect
import EventVm.Proofs.World.Ends

/-!
# Rules for runs

How an instruction, a loop of instructions, a machine and an entry point end, each from how its
parts end. The rule for loops (`runLoop_ends`) is the induction over the instructions of a run;
every other proof about runs gives it an invariant.
-/

namespace EventVm

namespace Machine

/-- The machine goes on when an instruction is due, unless it is at the halt address. -/
structure Runs (m : Machine) : Prop where
  sound : m.faulted = false
  wanted : m.abortRequested = false

theorem Runs.congr {m m' : Machine} (h : m.Runs) (hf : m'.faulted = m.faulted)
    (ha : m'.abortRequested = m.abortRequested) : m'.Runs :=
  ⟨hf.trans h.sound, ha.trans h.wanted⟩

end Machine

namespace World

variable {self : Reentry} {r : MachineRef} {code : Bytes} {w : World} {cut : World → Prop}

/-! ### Instructions -/

/-- The world in which an instruction takes effect: it is in the journal and the program counter
stands behind it. -/
def begin (w : World) (i : Begun) : World :=
  (w.note (.begun i)).mapMachine (fun m => { m with pc := i.pc + i.opcode.size }) i.machine

section Instructions

variable {done : Except VmError Unit → World → Prop}

/-- A host call ends with a fault before it reaches the function, or as the function does. -/
theorem callFunction_ends {operand : UInt32}
    (read : ∀ e, (w.machine r).readAs .string Value.string? operand = .error e → done (.error e) w)
    (unknown : ∀ signature, done (.error (.unknownFunction signature)) w)
    (pop : ∀ n e, (w.machine r).stack.popMany n = .error e → done (.error e) w)
    (call : ∀ signature f args stack, w.functions.get? signature = some f →
      (w.machine r).stack.popMany f.arity = .ok (args, stack) →
      (f.run self ⟨r, signature, args⟩).run.Ends (w.mapMachine (fun m => { m with stack }) r)
        (fun x => done (x.mapError (.function signature))) cut) :
    (callFunction self r operand).Ends w done cut := by
  unfold Run.Ends callFunction
  cases hr : (w.machine r).readAs .string Value.string? operand with
  | error e =>
    dsimp only
    exact read e hr
  | ok signature =>
    dsimp only
    cases hf : w.functions.get? signature with
    | none =>
      dsimp only
      exact unknown signature
    | some f =>
      dsimp only
      cases hp : (w.machine r).stack.popMany f.arity with
      | error e =>
        dsimp only
        exact pop _ e hp
      | ok popped =>
        obtain ⟨args, stack⟩ := popped
        dsimp only
        have h := call signature f args stack hf hp
        unfold Run.Ends at h
        split at h
        · next x w' hx =>
          simp only [hx]
          cases x <;> exact h
        · next w' hx =>
          simp only [hx]
          exact h

theorem act_eq (w : World) (r : MachineRef) (a : Machine.Action α) :
    w.act r a =
      ((a.outcome (w.machine r)).1, w.mapMachine (fun _ => (a.outcome (w.machine r)).2) r) := by
  unfold act Machine.Action.outcome
  cases a.run (w.machine r) <;> rfl

/-- An instruction ends with a fault in fetching it, with its effect on the machine, or as the host
call that it makes. -/
theorem step_ends {pc : UInt32}
    (fetch : ∀ e, Machine.fetch code pc = .error e → done (.error e) w)
    (plain : ∀ op operand x m, Machine.fetch code pc = .ok (op, operand) → op ≠ .call →
      let w' := w.begin ⟨r, pc, op, operand, w.current⟩
      Machine.Effect operand (w'.machine r) op x m → done x (w'.mapMachine (fun _ => m) r))
    (call : ∀ operand, Machine.fetch code pc = .ok (.call, operand) →
      (callFunction self r operand).Ends (w.begin ⟨r, pc, .call, operand, w.current⟩) done cut) :
    (step self r code pc).Ends w done cut := by
  unfold Run.Ends step
  cases hf : Machine.fetch code pc with
  | error e => exact fetch e hf
  | ok fetched =>
    obtain ⟨op, operand⟩ := fetched
    by_cases hc : op = .call
    · subst hc
      simp only [if_true]
      exact call operand hf
    · simp only [if_neg hc]
      have h := plain op operand _ _ hf hc (Machine.effect_execute op operand _)
      rw [act_eq]
      exact h

end Instructions

/-! ### Loops -/

section Loops

variable {done : Except VmError Finish → World → Prop}

/-- An instruction of the machine `r` is due. -/
def Due (r : MachineRef) (w : World) : Prop :=
  (w.machine r).Runs ∧ (w.machine r).pc ≠ haltAddress

/-- The worlds in which the instructions of a loop are due, in order. -/
def course (self : Reentry) (r : MachineRef) (code : Bytes) : (fuel : Nat) → World → List World
  | 0, _ => []
  | fuel + 1, w =>
    if (w.machine r).faulted || (w.machine r).abortRequested || (w.machine r).pc == haltAddress then
      []
    else
      w :: match step self r code (w.machine r).pc (w.note (.boundary (w.boundary r code))) with
        | .ok (.ok ()) w' => course self r code fuel w'
        | _ => []

theorem course_of_not_due (h : ¬ w.Due r) (fuel : Nat) : course self r code fuel w = [] := by
  cases fuel with
  | zero => rfl
  | succ fuel =>
    rw [course, if_pos]
    by_contra hends
    simp only [Bool.or_eq_true, beq_iff_eq, not_or, Bool.not_eq_true] at hends
    exact h ⟨⟨hends.1.1, hends.1.2⟩, hends.2⟩

theorem course_of_due (h : w.Due r) (fuel : Nat) : course self r code (fuel + 1) w =
    w :: match step self r code (w.machine r).pc (w.note (.boundary (w.boundary r code))) with
      | .ok (.ok ()) w' => course self r code fuel w'
      | _ => [] := by
  rw [course, if_neg (by simp [h.1.sound, h.1.wanted, h.2])]

/-- What every instruction keeps holds all along the course of a loop. -/
theorem course_induct {inv : World → Prop} {fuel : Nat} (start : inv w)
    (next : ∀ u u', inv u → u.Due r →
      step self r code (u.machine r).pc (u.note (.boundary (u.boundary r code))) = .ok (.ok ()) u' →
      inv u') : ∀ u ∈ course self r code fuel w, inv u := by
  induction fuel generalizing w with
  | zero => exact fun u hu => nomatch hu
  | succ fuel ih =>
    intro u hu
    by_cases hdue : w.Due r
    · rw [course_of_due hdue] at hu
      obtain rfl | hu := List.mem_cons.1 hu
      · exact start
      · split at hu
        · next w' hstep => exact ih (next w w' start hdue hstep) u hu
        · cases hu
    · rw [course_of_not_due hdue] at hu
      cases hu

theorem runLoop_of_due (h : w.Due r) (fuel : Nat) : runLoop self r code (fuel + 1) w =
    match step self r code (w.machine r).pc (w.note (.boundary (w.boundary r code))) with
    | .error x w' => .error x w'
    | .ok (.error e) w' => .ok (.error e) (w'.mapMachine (fun m => { m with faulted := true }) r)
    | .ok (.ok ()) w' => runLoop self r code fuel w' := by
  rcases hstep : step self r code (w.machine r).pc (w.note (.boundary (w.boundary r code))) with
    ⟨e | _, w'⟩ | ⟨x, w'⟩ <;>
  simp only [runLoop, machine_note, h.1.sound, h.1.wanted, h.2, hstep, Bool.false_eq_true, if_false]

/-- A loop of instructions ends well if some invariant holds whenever an instruction is due that
belongs to its course. -/
theorem runLoop_ends_of_course (inv : World → Prop) (fuel : Nat)
    (faulted : ∀ w, inv w → (w.machine r).faulted = true →
      done (.error .halted) (w.note (.boundary (w.boundary r code))))
    (aborted : ∀ w, inv w → (w.machine r).faulted = false ∧ (w.machine r).abortRequested = true →
      done (.ok .aborted) ((w.note (.boundary (w.boundary r code))).mapMachine
        (fun m => { m with abortRequested := false }) r))
    (halted : ∀ w, inv w → (w.machine r).Runs → (w.machine r).pc = haltAddress →
      done (.ok .reachedHalt) ((w.note (.boundary (w.boundary r code))).mapMachine
        (fun m => { m with halted := true }) r))
    (next : ∀ u ∈ course self r code fuel w, inv u → u.Due r →
      (step self r code (u.machine r).pc).Ends (u.note (.boundary (u.boundary r code)))
        (fun x w' => match x with
          | .ok () => inv w'
          | .error e => done (.error e) (w'.mapMachine (fun m => { m with faulted := true }) r))
        cut)
    (short : ∀ w, inv w → cut w) (h : inv w) :
    (runLoop self r code fuel).Ends w done cut := by
  induction fuel generalizing w with
  | zero => exact short w h
  | succ fuel ih =>
    unfold Run.Ends runLoop
    simp only [machine_note]
    by_cases hf : (w.machine r).faulted = true
    · simp only [hf, if_true]
      exact faulted w h hf
    · have hf' : (w.machine r).faulted = false := by simpa using hf
      simp only [hf', Bool.false_eq_true, if_false]
      by_cases ha : (w.machine r).abortRequested = true
      · simp only [ha, if_true]
        exact aborted w h ⟨hf', ha⟩
      · have hr : (w.machine r).Runs := ⟨hf', by simpa using ha⟩
        rw [if_neg ha]
        by_cases hp : (w.machine r).pc = haltAddress
        · rw [if_pos hp]
          exact halted w h hr hp
        · rw [if_neg hp]
          rw [course_of_due ⟨hr, hp⟩] at next
          have hs := next w List.mem_cons_self h ⟨hr, hp⟩
          unfold Run.Ends at hs
          split at hs
          · next x w' hx =>
            rw [hx] at next ⊢
            cases x with
            | error e => exact hs
            | ok u => exact ih (fun u hu => next u (List.mem_cons_of_mem _ hu)) hs
          · next w' hx =>
            rw [hx]
            exact hs

/-- A loop of instructions ends well if some invariant holds whenever an instruction is due. -/
theorem runLoop_ends (inv : World → Prop)
    (faulted : ∀ w, inv w → (w.machine r).faulted = true →
      done (.error .halted) (w.note (.boundary (w.boundary r code))))
    (aborted : ∀ w, inv w → (w.machine r).faulted = false ∧ (w.machine r).abortRequested = true →
      done (.ok .aborted) ((w.note (.boundary (w.boundary r code))).mapMachine
        (fun m => { m with abortRequested := false }) r))
    (halted : ∀ w, inv w → (w.machine r).Runs → (w.machine r).pc = haltAddress →
      done (.ok .reachedHalt) ((w.note (.boundary (w.boundary r code))).mapMachine
        (fun m => { m with halted := true }) r))
    (next : ∀ w, inv w → (w.machine r).Runs → (w.machine r).pc ≠ haltAddress →
      (step self r code (w.machine r).pc).Ends (w.note (.boundary (w.boundary r code)))
        (fun x w' => match x with
          | .ok () => inv w'
          | .error e => done (.error e) (w'.mapMachine (fun m => { m with faulted := true }) r))
        cut)
    (short : ∀ w, inv w → cut w) (fuel : Nat) (h : inv w) :
    (runLoop self r code fuel).Ends w done cut :=
  runLoop_ends_of_course inv fuel faulted aborted halted
    (fun u _ hu hdue => next u hu hdue.1 hdue.2) short h

theorem interpretWith_ends {fuel : Nat}
    (unloaded : (w.machine r).program = none → done (.error .noProgram) w)
    (faulted : (w.machine r).faulted = true → done (.error .halted) w)
    (loop : ∀ p, (w.machine r).program = some p → (w.machine r).faulted = false →
      (runLoop self r p.code fuel).Ends (w.mapMachine (fun m => { m with halted := false }) r)
        done cut) :
    (interpretWith self fuel r).Ends w done cut := by
  unfold Run.Ends interpretWith
  cases hp : (w.machine r).program with
  | none => exact unloaded hp
  | some p =>
    by_cases hf : (w.machine r).faulted = true
    · simp only [hf, if_true]
      exact faulted hf
    · simp only [hf]
      exact loop p hp (by simpa using hf)

end Loops

/-! ### Entry points -/

/-- The frame of a run of the behaviour `b` with the machine `m`. -/
def frame (w : World) (b : Behaviour) (m : Machine) : Frame :=
  ⟨m.pc, m.stack.depth, b.state, w.current⟩

/-- A run at an entry point does not begin, is refused, or ends as the machine does, inside a
frame. -/
theorem runAtWith_ends {interpret : MachineRef → Run (Except VmError Finish)} {id : BehaviourId}
    {address : UInt32} {done : Bool → World → Prop}
    (idle : (∀ b m, w.behaviour? id = some b → b.machine = some m → b.state.isRunnable = false) →
      done false w)
    (refused : ∀ b m, w.behaviour? id = some b → b.machine = some m → b.state.isRunnable = true →
      w.options.maxNestingDepth ≤ w.nesting →
      let ended := w.conclude id address (.error (.recursionLimit w.options.maxNestingDepth))
      done ended.1 ended.2)
    (run : ∀ b m, w.behaviour? id = some b → b.machine = some m → b.state.isRunnable = true →
      w.nesting < w.options.maxNestingDepth →
      (interpret (.behaviour id)).Ends (w.enter id address) (fun x w' =>
        let ended := (w'.leave id (w.frame b m)).conclude id address x
        done ended.1 ended.2) cut) :
    (runAtWith interpret id address).Ends w done cut := by
  unfold Run.Ends runAtWith
  cases hb : w.behaviour? id with
  | none =>
    apply idle
    intro b m hb'
    rw [hb] at hb'
    cases hb'
  | some b =>
    dsimp only
    cases hm : b.machine with
    | none =>
      apply idle
      intro b' m hb' hm'
      rw [hb] at hb'
      cases hb'
      rw [hm] at hm'
      cases hm'
    | some m =>
      dsimp only
      by_cases hs : b.state.isRunnable = true
      · rw [if_neg (by simp [hs])]
        by_cases hn : w.options.maxNestingDepth ≤ w.nesting
        · rw [if_pos hn]
          exact refused b m hb hm hs hn
        · rw [if_neg hn]
          have h := run b m hb hm hs (by omega)
          unfold Run.Ends at h
          split at h
          · next x w' hx =>
            unfold frame at h
            rw [hx]
            exact h
          · next w' hx =>
            rw [hx]
            exact h
      · rw [if_pos (by simp [hs])]
        apply idle
        intro b' m' hb' _
        rw [hb] at hb'
        cases hb'
        simpa using hs

end World

end EventVm
