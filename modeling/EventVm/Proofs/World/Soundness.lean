import EventVm.Proofs.Machine.Loaded
import EventVm.Proofs.World.Calls
import EventVm.Proofs.World.History
import Mathlib.Order.Nat

/-!
# Soundness of verification

A behaviour whose machine has loaded a verified program without indirect jumps executes that program
as it is listed, however many runs are nested inside each other: the program counter stays where the
program may stand, the stack holds addresses of slots only, and no run faults for an invalid opcode
or a heap address that names no slot or a waiting one.

* `sound_runAt`: runs at entry points keep a behaviour that hosts the program, by induction on the
  fuel.
* `runAt_sound`: what this means for every run at an entry point of the program.
-/

namespace EventVm

/-- An entry of runs that execute the program `p` with the listing `is` on a behaviour. -/
def Entry.Sound (id : BehaviourId) (p : Program) (is : List Instruction) : Entry → Prop
  | .boundary b => b.machine = .behaviour id →
      b.code = p.code ∧ p.Due is b.pc ∧ ∀ a ∈ b.stack, p.heap.contains a = true
  | .begun i => i.machine = .behaviour id →
      ∃ j ∈ is, j.offset = i.pc ∧ j.opcode = i.opcode ∧ j.operand.getD 0 = i.operand
  | .log (.executionFault id' _ e) => id' = id → e.Sound (UInt32.ofNat p.code.length)
  | .log _ | .entered .. | .call _ | .hooked .. | .relayed _ => True

namespace World

/-- A behaviour hosts a program: it is the behaviour's own, and its machine has loaded it. Programs
can call built-in functions only. -/
structure Hosts (w : World) (id : BehaviourId) (p : Program) : Prop where
  builtIns : w.BuiltInsOnly
  program : w.program? id = some p
  machine : ∃ m, w.machine? (.behaviour id) = some m ∧ m.Loaded p

section Sound

variable {id : BehaviourId} {p : Program} {is : List Instruction} {w w' : World} {r : MachineRef}

namespace Hosts

theorem loaded (h : w.Hosts id p) : (w.machine (.behaviour id)).Loaded p := by
  obtain ⟨m, hm, hl⟩ := h.machine
  rwa [machine_of_machine? hm]

theorem machine?_eq (h : w.Hosts id p) :
    w.machine? (.behaviour id) = some (w.machine (.behaviour id)) := by
  obtain ⟨m, hm, -⟩ := h.machine
  rw [machine_of_machine? hm, hm]

theorem machine_mapMachine (h : w.Hosts id p) (f : Machine → Machine) :
    (w.mapMachine f (.behaviour id)).machine (.behaviour id) = f (w.machine (.behaviour id)) :=
  machine_of_map (machine?_mapMachine_self ..) h.machine?_eq

theorem note (h : w.Hosts id p) (e : Entry) : (w.note e).Hosts id p :=
  ⟨h.builtIns, h.program, by rw [machine?_note]; exact h.machine⟩

theorem setState (h : w.Hosts id p) (id' : BehaviourId) (s : BehaviourState) :
    (w.setState id' s).Hosts id p where
  builtIns := h.builtIns
  program := by rw [program?_setState]; exact h.program
  machine := by rw [machine?_setState]; exact h.machine

theorem hash (h : w.Hosts id p) (id' : BehaviourId) :
    (w.mapBehaviour id' Behaviour.computeHash).Hosts id p where
  builtIns := h.builtIns
  program := by rw [program?_computeHash]; exact h.program
  machine := by rw [machine?_computeHash]; exact h.machine

theorem mapMachine {f : Machine → Machine} (h : w.Hosts id p)
    (hf : r = .behaviour id → (f (w.machine r)).Loaded p) : (w.mapMachine f r).Hosts id p where
  builtIns := by
    unfold BuiltInsOnly
    rw [functions_mapMachine]
    exact h.builtIns
  program := by rw [program?_mapMachine]; exact h.program
  machine := by
    rw [machine?_mapMachine]
    by_cases hr : .behaviour id = r
    · subst hr
      rw [if_pos rfl, h.machine?_eq]
      exact ⟨_, rfl, hf rfl⟩
    · rw [if_neg hr]
      exact h.machine

end Hosts

/-- What holds between two worlds if the first hosts the program: the second hosts it too, its
machine stands at the same place, and what was written in between is sound. -/
structure Kept (id : BehaviourId) (p : Program) (is : List Instruction) (w w' : World) : Prop where
  hosts : w'.Hosts id p
  pc : (w'.machine (.behaviour id)).pc = (w.machine (.behaviour id)).pc
  wrote : w.Wrote (Entry.Sound id p is) w'

namespace Kept

theorem refl (h : w.Hosts id p) : Kept id p is w w :=
  ⟨h, rfl, .refl w⟩

theorem trans {v : World} (h : Kept id p is w v) (h' : Kept id p is v w') : Kept id p is w w' :=
  ⟨h'.hosts, h'.pc.trans h.pc, h.wrote.trans h'.wrote⟩

theorem note {e : Entry} (h : w.Hosts id p) (he : e.Sound id p is) :
    Kept id p is w (w.note e) :=
  ⟨h.note e, by rw [machine_note], .note he w⟩

theorem hash (h : w.Hosts id p) (id' : BehaviourId) :
    Kept id p is w (w.mapBehaviour id' Behaviour.computeHash) where
  hosts := h.hash id'
  pc := by
    rw [machine_eq, machine_eq, machine?_computeHash]
    rfl
  wrote := .of_eq rfl

/-- A change of machines that keeps the program and the program counter. -/
theorem mapMachine {f : Machine → Machine} (h : w.Hosts id p)
    (hf : r = .behaviour id →
      (f (w.machine r)).Loaded p ∧ (f (w.machine r)).pc = (w.machine r).pc) :
    Kept id p is w (w.mapMachine f r) where
  hosts := h.mapMachine fun hr => (hf hr).1
  pc := by
    by_cases hr : r = .behaviour id
    · subst hr
      rw [h.machine_mapMachine]
      exact (hf rfl).2
    · rw [machine_eq, machine_eq, machine?_mapMachine_of_ne w f fun he => hr he.symm,
        options_mapMachine]
  wrote := .of_eq (journal_mapMachine ..)

end Kept

theorem kept_respected (id : BehaviourId) (p : Program) (is : List Instruction) :
    BuiltIn.Respected fun w w' => w.Hosts id p → Kept id p is w w' where
  refl := fun _ h => .refl h
  trans := fun h h' hu => (h hu).trans (h' (h hu).hosts)
  log := by
    intro w e he h
    refine .note h ?_
    cases e <;> trivial
  hash := fun _ id h => .hash h id
  relayed := fun _ _ h => .note h trivial
  write := by
    intro w r address v m hm h
    refine .mapMachine h fun hr => ?_
    subst hr
    refine ⟨h.loaded.of_write hm, ?_⟩
    obtain ⟨heap, -, hm⟩ := bind_eq_ok.1 hm
    cases hm
    rfl

/-! ### Calls -/

/-- A refused call with addresses of slots as arguments fails with a sound error. -/
theorem sound_of_refuses {call : Invocation} {e : HostError} (h : w.Hosts id p)
    (hr : call.machine = .behaviour id) (ha : ∀ a ∈ call.args, p.heap.contains a = true)
    (he : call.Refuses w e) (length : UInt32) :
    (VmError.function call.signature e).Sound length := by
  have hl := h.loaded
  rw [← hr] at hl
  cases he with
  | missing | type | null | unknown => trivial
  | read hmem hfailed =>
    obtain ⟨v, hv⟩ := hl.read_of_contains (ha _ hmem)
    rw [hv] at hfailed
    cases hfailed
  | write hmem hfailed =>
    obtain hset | ⟨heap, -, hm⟩ := bind_eq_error.1 hfailed
    · obtain ⟨t, rfl⟩ := Heap.set_error_of_contains (hl.contains ▸ ha _ hmem) hset
      trivial
    · cases hm

section Running

variable {self : Reentry} {code : Bytes}

/-- The runs that running code begins keep the program hosted, if those of the behaviour itself
begin where the program may stand. -/
def SoundRuns (self : Reentry) (id : BehaviourId) (p : Program) (is : List Instruction) : Prop :=
  ∀ w id' address, w.Hosts id p → (id' = id → p.Due is address) →
    (self.runAt id' address).Ends w (fun _ => Kept id p is w) (w.Wrote (Entry.Sound id p is))

/-- An exported entry point of a behaviour that hosts a verified program is a place where the
program may stand. -/
theorem due_of_entryPoint? (hv : p.Verified is) (h : w.Hosts id p) {b : Behaviour} {event : String}
    {address : UInt32} (hb : w.behaviour? id = some b) (ha : b.entryPoint? event = some address) :
    p.Due is address := by
  have hp := h.program
  rw [program?_of_behaviour? hb] at hp
  unfold Behaviour.entryPoint? at ha
  rw [hp] at ha
  obtain ⟨p', hp', ha⟩ := Option.bind_eq_some_iff.1 ha
  cases hp'
  obtain ⟨s, hs, ha⟩ := Option.bind_eq_some_iff.1 ha
  split at ha
  · cases ha
    exact .inl (hv.entryPoints s (SymbolTable.get?_eq_some.1 hs).1)
  · cases ha

theorem sound_callFunction (hself : SoundRuns self id p is) (hv : p.Verified is) (h : w.Hosts id p)
    {operand : UInt32} (hoperand : r = .behaviour id → p.heap.contains operand = true) :
    (callFunction self r operand).Ends w
      (fun x w' => Kept id p is w w' ∧ (r = .behaviour id →
        ∀ e, x = .error e → e.Sound (UInt32.ofNat p.code.length)))
      (w.Wrote (Entry.Sound id p is)) := by
  refine callFunction_ends ?_ ?_ ?_ ?_
  · intro e he
    refine ⟨.refl h, fun hr e' hx => ?_⟩
    cases hx
    subst hr
    exact h.loaded.sound_of_readAs (hoperand rfl) he
  · intro signature
    refine ⟨.refl h, fun _ e' hx => ?_⟩
    cases hx
    trivial
  · intro n e he
    refine ⟨.refl h, fun _ e' hx => ?_⟩
    cases hx
    rw [OperandStack.popMany_error he]
    trivial
  · intro signature f args stack hf hpop
    obtain ⟨hargs, hentries⟩ := OperandStack.popMany_ok hpop
    obtain ⟨b, rfl⟩ := h.builtIns signature f hf
    have hpopped : Kept id p is w (w.mapMachine (fun m => { m with stack }) r) := by
      refine .mapMachine h fun hr => ⟨?_, rfl⟩
      subst hr
      exact h.loaded.of_stack fun a ha => List.mem_of_mem_drop (hentries ▸ ha)
    refine (BuiltIn.run_ends ((kept_respected id p is).from _) ?_ b).mono ?_ fun _ h => h
    · intro v id' b' event address hkept hb' _ ha
      have hwv := hpopped.trans (hkept hpopped.hosts)
      refine (hself v id' address hwv.hosts ?_).mono (fun _ _ h _ => h) fun _ h => hwv.wrote.trans h
      rintro rfl
      exact due_of_entryPoint? hv hwv.hosts hb' ha
    · intro x w' hs
      refine ⟨hpopped.trans (hs.respects hpopped.hosts), fun hr e hx => ?_⟩
      obtain ⟨e', he', rfl⟩ := mapError_eq_error.1 hx
      obtain ⟨-, hrefuses⟩ := hs.refuses e' he'
      subst hr
      refine sound_of_refuses hpopped.hosts rfl (fun a ha => ?_) hrefuses _
      rw [hargs, List.mem_reverse] at ha
      exact h.loaded.stack a (List.mem_of_mem_take ha)

/-! ### Runs of other machines -/

theorem kept_begin {i : Begun} (h : w.Hosts id p) (hi : i.machine ≠ .behaviour id) :
    Kept id p is w (w.begin i) := by
  have hnote : Kept id p is w (w.note (.begun i)) := .note h fun hm => absurd hm hi
  exact hnote.trans (.mapMachine hnote.hosts fun hr => absurd hr hi)

theorem kept_step_of_ne (hself : SoundRuns self id p is) (hv : p.Verified is) (h : w.Hosts id p)
    (hr : r ≠ .behaviour id) (pc : UInt32) :
    (step self r code pc).Ends w (fun _ => Kept id p is w) (w.Wrote (Entry.Sound id p is)) := by
  have hbegun : ∀ op operand, Kept id p is w (w.begin ⟨r, pc, op, operand, w.current⟩) :=
    fun op operand => kept_begin h hr
  refine step_ends (fun _ _ => .refl h) ?_ ?_
  · intro op operand x m _ _ v _
    exact (hbegun op operand).trans (.mapMachine (hbegun op operand).hosts fun he => absurd he hr)
  · intro operand _
    have hoperand : r = .behaviour id → p.heap.contains operand = true := fun he => absurd he hr
    refine (sound_callFunction hself hv (hbegun .call operand).hosts hoperand).mono ?_ ?_
    · exact fun _ _ hcall => (hbegun .call operand).trans hcall.1
    · exact fun _ hcut => (hbegun .call operand).wrote.trans hcut

/-- A run of another machine keeps the program hosted. -/
theorem kept_interpretWith_of_ne (hself : SoundRuns self id p is) (hv : p.Verified is)
    (h : w.Hosts id p) (hr : r ≠ .behaviour id) (fuel : Nat) :
    (interpretWith self fuel r).Ends w (fun _ => Kept id p is w)
      (w.Wrote (Entry.Sound id p is)) := by
  refine interpretWith_ends (fun _ => .refl h) (fun _ => .refl h) fun q _ _ => ?_
  have hchange : ∀ v (f : Machine → Machine), Kept id p is w v →
      Kept id p is w (v.mapMachine f r) := fun v f hv =>
    hv.trans (.mapMachine hv.hosts fun he => absurd he hr)
  have hnote : ∀ v, Kept id p is w v → Kept id p is w (v.note (.boundary (v.boundary r q.code))) :=
    fun v hv => hv.trans (.note hv.hosts fun he => absurd he hr)
  refine runLoop_ends (Kept id p is w) ?_ ?_ ?_ ?_ (fun _ hk => hk.wrote) fuel ?_
  · exact fun v hk _ => hnote v hk
  · exact fun v hk _ => hchange _ _ (hnote v hk)
  · exact fun v hk _ _ => hchange _ _ (hnote v hk)
  · intro v hk _ _
    refine (kept_step_of_ne hself hv (hnote v hk).hosts hr _).mono ?_ ?_
    · intro x v' hstep
      have hk' := (hnote v hk).trans hstep
      cases x with
      | ok _ => exact hk'
      | error e => exact hchange _ _ hk'
    · exact fun v' hcut => (hnote v hk).wrote.trans hcut
  · exact hchange _ _ (.refl h)

/-! ### Runs of the hosting machine -/

/-- A run of the hosting machine that began in `w` goes on in `w'`, where an instruction is due. -/
structure Running (id : BehaviourId) (p : Program) (is : List Instruction) (w w' : World) :
    Prop where
  hosts : w'.Hosts id p
  due : p.Due is (w'.machine (.behaviour id)).pc
  wrote : w.Wrote (Entry.Sound id p is) w'

/-- A run of the hosting machine that began in `w` has ended in `w'` with `x`. -/
structure Ended (id : BehaviourId) (p : Program) (is : List Instruction) (w : World)
    (x : Except VmError α) (w' : World) : Prop where
  hosts : w'.Hosts id p
  wrote : w.Wrote (Entry.Sound id p is) w'
  sound : ∀ e, x = .error e → e.Sound (UInt32.ofNat p.code.length)

/-- The moment when an instruction is due is written down. -/
theorem Running.noted {v : World} (h : Running id p is w v) :
    Running id p is w (v.note (.boundary (v.boundary (.behaviour id) p.code))) := by
  have hb : (Entry.boundary (v.boundary (.behaviour id) p.code)).Sound id p is :=
    fun _ => ⟨rfl, h.due, h.hosts.loaded.stack⟩
  refine ⟨h.hosts.note _, ?_, h.wrote.trans (.note hb v)⟩
  rw [machine_note]
  exact h.due

/-- A run ends with a change of its machine. -/
theorem Ended.of_change {v : World} {f : Machine → Machine} {x : Except VmError α}
    (h : v.Hosts id p) (hw : w.Wrote (Entry.Sound id p is) v)
    (hf : (f (v.machine (.behaviour id))).Loaded p)
    (hx : ∀ e, x = .error e → e.Sound (UInt32.ofNat p.code.length)) :
    Ended id p is w x (v.mapMachine f (.behaviour id)) :=
  ⟨h.mapMachine fun _ => hf, hw.trans (.of_eq (journal_mapMachine ..)), hx⟩

/-- Where something can be fetched that is due stands a listed instruction, which is what is
fetched. -/
theorem listed_of_fetch (hv : p.Verified is) (hlen : p.code.length < 2 ^ 32) {pc : UInt32}
    (hdue : p.Due is pc) (hhalt : pc ≠ haltAddress) {op : Opcode} {operand : UInt32}
    (hf : Machine.fetch p.code pc = .ok (op, operand)) :
    ∃ i ∈ is, i.offset = pc ∧ i.opcode = op ∧ i.operand.getD 0 = operand := by
  obtain hpc | hpc | hpc := hdue
  · obtain ⟨i, hi, rfl⟩ := List.mem_map.1 hpc
    rw [Instruction.fetch_of_mem hlen hv.listed hi] at hf
    cases hf
    exact ⟨i, hi, rfl, rfl, rfl⟩
  · exact absurd hpc hhalt
  · rw [hpc, Instruction.fetch_at_end hlen] at hf
    cases hf

/-- What is due can be fetched unless it stands at the end of the code. -/
theorem sound_of_fetch (hv : p.Verified is) (hlen : p.code.length < 2 ^ 32) {pc : UInt32}
    (hdue : p.Due is pc) (hhalt : pc ≠ haltAddress) {e : VmError}
    (hf : Machine.fetch p.code pc = .error e) : e.Sound (UInt32.ofNat p.code.length) := by
  obtain hpc | hpc | hpc := hdue
  · obtain ⟨i, hi, rfl⟩ := List.mem_map.1 hpc
    rw [Instruction.fetch_of_mem hlen hv.listed hi] at hf
    cases hf
  · exact absurd hpc hhalt
  · rw [hpc, Instruction.fetch_at_end hlen] at hf
    cases hf
    rfl

theorem running_begin (hv : p.Verified is) (hlen : p.code.length < 2 ^ 32) (h : w.Hosts id p)
    {i : Instruction} (hi : i ∈ is) (current : Option BehaviourId) :
    Running id p is w
      (w.begin ⟨.behaviour id, i.offset, i.opcode, i.operand.getD 0, current⟩) := by
  have hnote : Kept id p is w
      (w.note (.begun ⟨.behaviour id, i.offset, i.opcode, i.operand.getD 0, current⟩)) :=
    .note h fun _ => ⟨i, hi, rfl, rfl, rfl⟩
  have hl := hnote.hosts.loaded
  refine ⟨hnote.hosts.mapMachine fun _ => hl.congr rfl rfl fun _ ha => ha, ?_, ?_⟩
  · unfold begin
    rw [hnote.hosts.machine_mapMachine]
    obtain hnext | hnext := Instruction.next_of_mem hlen hv.listed hi
    · exact .inl hnext
    · exact .inr (.inr hnext)
  · exact hnote.wrote.trans (.of_eq (journal_mapMachine ..))

/-- An instruction of the hosting machine that is due leads to the next one, or ends the run. -/
theorem running_step (hself : SoundRuns self id p is) (hv : p.Verified is)
    (hj : ∀ i ∈ is, i.opcode ≠ .jumpIndirect) (hlen : p.code.length < 2 ^ 32) (h : w.Hosts id p)
    {pc : UInt32} (hdue : p.Due is pc) (hhalt : pc ≠ haltAddress) :
    (step self (.behaviour id) p.code pc).Ends w
      (fun x w' => Ended id p is w x w' ∧ (x = .ok () → Running id p is w w'))
      (w.Wrote (Entry.Sound id p is)) := by
  refine step_ends ?_ ?_ ?_
  · intro e he
    refine ⟨⟨h, .refl w, fun e' hx => ?_⟩, fun hx => nomatch hx⟩
    cases hx
    exact sound_of_fetch hv hlen hdue hhalt he
  · intro op operand x m hf _ v he
    obtain ⟨i, hi, rfl, rfl, rfl⟩ := listed_of_fetch hv hlen hdue hhalt hf
    have hbegun := running_begin hv hlen h hi w.current
    obtain ⟨hl, hdue', hsound⟩ := he.loaded hv hi (hj i hi) hbegun.hosts.loaded hbegun.due
    have hhosts : (v.mapMachine (fun _ => m) (.behaviour id)).Hosts id p :=
      hbegun.hosts.mapMachine fun _ => hl
    have hwrote := hbegun.wrote.trans (.of_eq (journal_mapMachine v (fun _ => m) (.behaviour id)))
    refine ⟨⟨hhosts, hwrote, hsound⟩, fun _ => ⟨hhosts, ?_, hwrote⟩⟩
    rwa [hbegun.hosts.machine_mapMachine]
  · intro operand hf
    obtain ⟨i, hi, rfl, hcall, rfl⟩ := listed_of_fetch hv hlen hdue hhalt hf
    have hbegun := running_begin hv hlen h hi w.current
    rw [hcall] at hbegun
    have hoperand := hv.heapOperand hi (by rw [hcall]; rfl)
    refine (sound_callFunction hself hv hbegun.hosts fun _ => hoperand).mono ?_ ?_
    · rintro x w' ⟨hk, hsound⟩
      have hwrote := hbegun.wrote.trans hk.wrote
      exact ⟨⟨hk.hosts, hwrote, hsound rfl⟩, fun _ => ⟨hk.hosts, hk.pc ▸ hbegun.due, hwrote⟩⟩
    · exact fun _ hcut => hbegun.wrote.trans hcut

/-- A run of the hosting machine that begins where the program may stand. -/
theorem ended_interpretWith (hself : SoundRuns self id p is) (hv : p.Verified is)
    (hj : ∀ i ∈ is, i.opcode ≠ .jumpIndirect) (hlen : p.code.length < 2 ^ 32) (h : w.Hosts id p)
    (hdue : p.Due is (w.machine (.behaviour id)).pc) (fuel : Nat) :
    (interpretWith self fuel (.behaviour id)).Ends w (Ended id p is w)
      (w.Wrote (Entry.Sound id p is)) := by
  refine interpretWith_ends ?_ ?_ ?_
  · refine fun _ => ⟨h, .refl w, fun e hx => ?_⟩
    cases hx
    trivial
  · refine fun _ => ⟨h, .refl w, fun e hx => ?_⟩
    cases hx
    trivial
  · intro q hq _
    rw [h.loaded.program] at hq
    cases hq
    refine runLoop_ends (Running id p is w) ?_ ?_ ?_ ?_ (fun _ hrun => hrun.wrote) fuel ?_
    · refine fun v hrun _ => ⟨hrun.noted.hosts, hrun.noted.wrote, fun e hx => ?_⟩
      cases hx
      trivial
    · intro v hrun _
      have hn := hrun.noted
      exact .of_change hn.hosts hn.wrote (hn.hosts.loaded.congr rfl rfl fun _ ha => ha)
        fun _ hx => nomatch hx
    · intro v hrun _ _
      have hn := hrun.noted
      exact .of_change hn.hosts hn.wrote (hn.hosts.loaded.congr rfl rfl fun _ ha => ha)
        fun _ hx => nomatch hx
    · intro v hrun _ hhalt
      have hn := hrun.noted
      refine (running_step hself hv hj hlen hn.hosts hrun.due hhalt).mono ?_ ?_
      · rintro x v' ⟨hended, hok⟩
        have hwrote := hn.wrote.trans hended.wrote
        cases x with
        | ok _ => exact ⟨hended.hosts, (hok rfl).due, hwrote⟩
        | error e =>
          have hl := hended.hosts.loaded
          refine .of_change hended.hosts hwrote (hl.congr rfl rfl fun _ ha => ha) fun e' hx => ?_
          cases hx
          exact hended.sound _ rfl
      · exact fun _ hcut => hn.wrote.trans hcut
    · have hl := h.loaded
      have hhosts : (w.mapMachine (fun m => { m with halted := false }) (.behaviour id)).Hosts
          id p := h.mapMachine fun _ => hl.congr rfl rfl fun _ ha => ha
      refine ⟨hhosts, ?_, .of_eq (journal_mapMachine ..)⟩
      rw [apply_machine_mapMachine Machine.pc (fun m => { m with halted := false }) fun _ => rfl]
      exact hdue

end Running

/-! ### Around a run -/

theorem Hosts.of_map {f : Machine → Machine} (h : w.Hosts id p) (hfs : w'.functions = w.functions)
    (hp : w'.program? id = w.program? id)
    (hm : w'.machine? (.behaviour id) = (w.machine? (.behaviour id)).map f)
    (hf : ∀ m, m.Loaded p → (f m).Loaded p) : w'.Hosts id p := by
  refine ⟨?_, hp.trans h.program, ?_⟩
  · unfold BuiltInsOnly
    rw [hfs]
    exact h.builtIns
  · obtain ⟨m, hmachine, hl⟩ := h.machine
    rw [hm, hmachine]
    exact ⟨_, rfl, hf m hl⟩

theorem Hosts.of_eq (h : w.Hosts id p) (hfs : w'.functions = w.functions)
    (hp : w'.program? id = w.program? id)
    (hm : w'.machine? (.behaviour id) = w.machine? (.behaviour id)) : w'.Hosts id p :=
  h.of_map (f := fun m => m) hfs hp (by rw [hm, Option.map_id']) fun _ hl => hl

theorem Hosts.enter (h : w.Hosts id p) (id' : BehaviourId) (address : UInt32) :
    (w.enter id' address).Hosts id p := by
  by_cases hid : MachineRef.behaviour id = .behaviour id'
  · refine h.of_map (functions_enter ..) (program?_enter ..)
      ((machine?_enter ..).trans (if_pos hid)) fun m hl => hl.congr rfl rfl fun _ ha => ha
  · exact h.of_eq (functions_enter ..) (program?_enter ..) ((machine?_enter ..).trans (if_neg hid))

theorem Hosts.leave (h : w.Hosts id p) (id' : BehaviourId) (frame : Frame) :
    (w.leave id' frame).Hosts id p := by
  by_cases hid : MachineRef.behaviour id = .behaviour id'
  · refine h.of_map (functions_leave ..) (program?_leave ..)
      ((machine?_leave ..).trans (if_pos hid)) fun m hl => hl.congr rfl rfl fun a ha => ?_
    have hcut := m.stack.truncate_entries frame.depth
    exact List.mem_of_mem_drop (hcut ▸ ha)
  · exact h.of_eq (functions_leave ..) (program?_leave ..) ((machine?_leave ..).trans (if_neg hid))

theorem Kept.fault (h : w.Hosts id p) (id' : BehaviourId) : Kept id p is w (w.fault id') := by
  have hrefused : Kept id p is w (w.refuseRuns id') := by
    refine .mapMachine h fun hr => ?_
    rw [hr]
    exact ⟨h.loaded.congr rfl rfl fun _ ha => ha, rfl⟩
  refine ⟨hrefused.hosts.setState _ _, ?_, hrefused.wrote.trans (.of_eq rfl)⟩
  rw [← hrefused.pc]
  unfold World.fault
  rw [machine_setState]

/-- The end of a run keeps the program hosted; only an error of the behaviour itself has to be
sound. -/
theorem Kept.conclude (is : List Instruction) (h : w.Hosts id p) (id' : BehaviourId)
    (address : UInt32) (x : Except VmError Finish)
    (hx : id' = id → ∀ e, x = .error e → e.Sound (UInt32.ofNat p.code.length)) :
    Kept id p is w (w.conclude id' address x).2 := by
  unfold World.conclude
  split
  · exact .refl h
  · have he : (Entry.log (.executionAborted id' address)).Sound id p is := trivial
    exact (Kept.note h he).trans (.fault (h.note _) _)
  · exact .fault h _
  · next e _ =>
    have he : (Entry.log (.executionFault id' address e)).Sound id p is := fun hid => hx hid e rfl
    exact (Kept.note h he).trans (.fault (h.note _) _)

/-! ### Runs at entry points -/

theorem sound_runAtWith {self : Reentry} (hself : SoundRuns self id p is) (hv : p.Verified is)
    (hj : ∀ i ∈ is, i.opcode ≠ .jumpIndirect) (hlen : p.code.length < 2 ^ 32) (h : w.Hosts id p)
    {id' : BehaviourId} {address : UInt32} (hdue : id' = id → p.Due is address) (fuel : Nat) :
    (runAtWith (interpretWith self fuel) id' address).Ends w (fun _ => Kept id p is w)
      (w.Wrote (Entry.Sound id p is)) := by
  have hentered : (Entry.entered id' address (w.nesting + 1)).Sound id p is := trivial
  have hwrote : w.Wrote (Entry.Sound id p is) (w.enter id' address) :=
    (Wrote.note hentered w).trans (.of_eq rfl)
  refine runAtWith_ends (fun _ => .refl h) ?_ ?_
  · intro b m _ _ _ _
    refine .conclude is h id' address _ fun _ e hx => ?_
    cases hx
    trivial
  · intro b m hb hm _ _
    by_cases hid : id' = id
    · subst hid
      have hpc : ((w.enter id' address).machine (.behaviour id')).pc = address := by
        rw [machine_of_map ((machine?_enter ..).trans (if_pos rfl)) h.machine?_eq]
      have hdue' : p.Due is ((w.enter id' address).machine (.behaviour id')).pc := by
        rw [hpc]
        exact hdue rfl
      refine (ended_interpretWith hself hv hj hlen (h.enter id' address) hdue' fuel).mono
        ?_ fun _ hcut => hwrote.trans hcut
      intro x w' hended
      have hleft := hended.hosts.leave id' (w.frame b m)
      have hend := Kept.conclude is hleft id' address x fun _ => hended.sound
      refine ⟨hend.hosts, hend.pc.trans ?_, ?_⟩
      · rw [machine_of_map ((machine?_leave ..).trans (if_pos rfl)) hended.hosts.machine?_eq,
          machine_of_machine? (machine?_of_behaviour? hb hm)]
        rfl
      · exact (hwrote.trans hended.wrote).trans (.trans (.of_eq rfl) hend.wrote)
    · have hr : MachineRef.behaviour id' ≠ .behaviour id := by
        intro he
        cases he
        exact hid rfl
      refine (kept_interpretWith_of_ne hself hv (h.enter id' address) hr fuel).mono
        ?_ fun _ hcut => hwrote.trans hcut
      intro x w' hk
      have hleft := hk.hosts.leave id' (w.frame b m)
      have hend := Kept.conclude is hleft id' address x fun he => absurd he hid
      refine ⟨hend.hosts, hend.pc.trans ?_, ?_⟩
      · rw [machine_leave_of_ne _ hr.symm, hk.pc, machine_enter_of_ne _ hr.symm]
      · exact (hwrote.trans hk.wrote).trans (.trans (.of_eq rfl) hend.wrote)

/-- Every run at an entry point of a world keeps a behaviour that hosts a verified program without
indirect jumps; a run of that behaviour has to begin where the program may stand. -/
theorem sound_runAt (fuel : Nat) (hv : p.Verified is) (hj : ∀ i ∈ is, i.opcode ≠ .jumpIndirect)
    (hlen : p.code.length < 2 ^ 32) : SoundRuns (reentry fuel) id p is := by
  induction fuel with
  | zero => exact fun w _ _ _ _ => .refl w
  | succ fuel ih => exact fun w id' address h hdue => sound_runAtWith ih hv hj hlen h hdue fuel

/-- Verification is sound. A run at an entry point of a verified program without indirect jumps, on
a behaviour that hosts it, executes the instructions as they are listed: whenever an instruction is
due, the program counter stands at a listed one, at the halt address or at the end of the code, and
all addresses on the stack name slots. Faults of the behaviour are never due to an invalid opcode,
to a missing or a waiting slot, or to a program counter other than the end of the code. -/
theorem runAt_sound (fuel : Nat) (w : World) (id : BehaviourId) (p : Program)
    (is : List Instruction) (s : Symbol) (hv : p.verifyStructure = .ok ())
    (hi : p.instructions = .ok is) (hj : ∀ i ∈ is, i.opcode ≠ .jumpIndirect)
    (hlen : p.code.length < haltAddress.toNat) (h : w.Hosts id p)
    (hs : s ∈ p.entryPoints.symbols) :
    (runAt fuel id s.address).Ends w
      (fun _ w' => w'.Hosts id p ∧ w.Wrote (Entry.Sound id p is) w')
      (w.Wrote (Entry.Sound id p is)) := by
  have hverified := Program.verified_of_verifyStructure hv hi
  have hlen' : p.code.length < 2 ^ 32 := hlen.trans (by decide)
  have hdue : p.Due is s.address := .inl (hverified.entryPoints s hs)
  exact (sound_runAt fuel hverified hj hlen' w id s.address h fun _ => hdue).mono
    (fun _ _ hk => ⟨hk.hosts, hk.wrote⟩) fun _ hcut => hcut

end Sound

/-- The run of a program that calls functions, one of which runs the program again. -/
theorem runAt_sound_reentrant :
    Program.reentrant.verifyStructure = .ok () ∧ reentrantWorld.Hosts ⟨1⟩ .reentrant ∧
      ∃ w', runAt 17 ⟨1⟩ 0 reentrantWorld = .ok true w' ∧
        w'.journal.filterMap Entry.entered? = [(⟨1⟩, 72, 2), (⟨1⟩, 0, 1)] ∧
        w'.Hosts ⟨1⟩ .reentrant ∧
        reentrantWorld.Wrote (Entry.Sound ⟨1⟩ .reentrant reentrantCode) w' := by
  have hverify : Program.reentrant.verifyStructure = .ok () := by decide +kernel
  have hlisted : Program.reentrant.instructions = .ok reentrantCode := by decide +kernel
  have hdirect : ∀ i ∈ reentrantCode, i.opcode ≠ .jumpIndirect := by decide
  have hlength : Program.reentrant.code.length < haltAddress.toNat := by decide +kernel
  have hosts : reentrantWorld.Hosts ⟨1⟩ .reentrant := by
    refine ⟨builtInsOnly_solo _, rfl, _, rfl, rfl, rfl, rfl, fun a ha => ?_⟩
    rw [List.mem_singleton.1 ha]
    rfl
  have h := runAt_sound 17 reentrantWorld ⟨1⟩ .reentrant reentrantCode ⟨"outer", 0, .object, true⟩
    hverify hlisted hdirect hlength hosts List.mem_cons_self
  obtain ⟨_, w', hw', rfl, hentered⟩ := ends_reentrant.exists_ok
  obtain ⟨hhosts, hwrote⟩ := h.of_ok hw'
  exact ⟨hverify, hosts, w', hw', hentered, hhosts, hwrote⟩

end World

end EventVm
