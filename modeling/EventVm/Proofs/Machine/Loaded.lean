import EventVm.Proofs.Heap
import EventVm.Proofs.Machine.Effect
import EventVm.Proofs.Program.Verified

/-!
# Machines that have loaded a verified program

A machine that has loaded a program has a heap of the program's size on which no slot waits, and
only addresses of slots on its stack (`Loaded`). If the program passed the checks and jumps only
directly, its instructions keep that, lead from one place where the program may stand (`Due`) to the
next, and fail only with errors that such a program cannot avoid (`Sound`).
-/

namespace EventVm

/-- An error that a verified program with code of the given length can cause. -/
def VmError.Sound (length : UInt32) : VmError → Prop
  | .invalidOpcode .. => False
  | .programCounterOutOfRange pc => pc = length
  | .heap (.invalidAddress _) | .heap (.unresolved _) => False
  | .function _ (.heap (.invalidAddress _)) | .function _ (.heap (.unresolved _)) => False
  | _ => True

/-- A place where a program with the given listing may stand: the beginning of a listed instruction,
the halt address or the end of the code. -/
def Program.Due (p : Program) (is : List Instruction) (pc : UInt32) : Prop :=
  pc ∈ is.map Instruction.offset ∨ pc = haltAddress ∨ pc = UInt32.ofNat p.code.length

namespace Machine

variable {p : Program} {is : List Instruction} {i : Instruction} {m m' : Machine}
  {address operand : UInt32} {length : UInt32}

/-- What has to hold of a program and a heap for a machine to load them. -/
theorem checkLoad_eq_ok {o : Options} {heap : Heap} : checkLoad o p heap = .ok () ↔
    o.supports p.instructionSet p.version = true ∧ p.verifyStructure = .ok () ∧
      heap.size = p.heap.size ∧ heap.pending = [] := by
  unfold checkLoad
  dsimp only
  by_cases hs : o.supports p.instructionSet p.version = true
  · rw [if_neg (by rw [hs]; decide)]
    by_cases hsize : heap.size = p.heap.size
    · rw [if_neg (not_not.2 hsize)]
      constructor
      · intro h
        obtain ⟨_, hverify, h⟩ := bind_eq_ok.1 h
        refine ⟨hs, mapError_eq_ok.1 hverify, hsize, ?_⟩
        split at h
        · assumption
        · cases h
      · rintro ⟨-, hverify, -, hpending⟩
        refine bind_eq_ok.2 ⟨(), mapError_eq_ok.2 hverify, ?_⟩
        rw [hpending]
        rfl
    · rw [if_pos hsize]
      constructor
      · intro h
        obtain ⟨_, -, h⟩ := bind_eq_ok.1 h
        cases h
      · exact fun h => absurd h.2.2.1 hsize
  · rw [if_pos (by simpa using hs)]
    constructor
    · intro h
      cases h
    · exact fun h => absurd h.1 hs

/-- What a machine is when it has loaded a program. -/
theorem load_ok {o : Options} {heap : Heap} (h : m.load o p heap = .ok m') :
    checkLoad o p heap = .ok () ∧ m'.program = some p ∧ m'.heap = heap ∧ m'.faulted = false := by
  obtain ⟨_, hcheck, h⟩ := bind_eq_ok.1 h
  cases h
  exact ⟨hcheck, rfl, rfl, rfl⟩

/-- A machine that has loaded a program and has not been misled since. -/
structure Loaded (m : Machine) (p : Program) : Prop where
  program : m.program = some p
  size : m.heap.size = p.heap.size
  resolved : m.heap.pending = []
  stack : ∀ a ∈ m.stack.entries, p.heap.contains a = true

/-- Loading a program gives such a machine. -/
theorem loaded_of_load {o : Options} {heap : Heap} (h : m.load o p heap = .ok m') :
    p.verifyStructure = .ok () ∧ m'.Loaded p := by
  obtain ⟨_, hcheck, h⟩ := bind_eq_ok.1 h
  cases h
  obtain ⟨-, hverify, hsize, hpending⟩ := checkLoad_eq_ok.1 hcheck
  exact ⟨hverify, rfl, hsize, hpending, fun a ha => nomatch ha⟩

namespace Loaded

theorem congr (h : m.Loaded p) (hp : m'.program = m.program) (hh : m'.heap = m.heap)
    (hs : ∀ a ∈ m'.stack.entries, a ∈ m.stack.entries) : m'.Loaded p :=
  ⟨hp.trans h.program, hh ▸ h.size, hh ▸ h.resolved, fun a ha => h.stack a (hs a ha)⟩

/-- The heap has the slots that the program's heap has. -/
theorem contains (h : m.Loaded p) : m.heap.contains address = p.heap.contains address := by
  unfold Heap.contains
  rw [h.size]

theorem read_of_contains (h : m.Loaded p) (hc : p.heap.contains address = true) :
    ∃ v, m.read address = .ok v :=
  Heap.get_of_contains h.resolved (h.contains ▸ hc)

/-- Reading a part of a slot's value fails only because of its type. -/
theorem sound_of_readAs {expected : TypeTag} {part? : Value → Option α} {e : VmError}
    (h : m.Loaded p) (hc : p.heap.contains address = true)
    (hr : m.readAs expected part? address = .error e) : e.Sound length := by
  obtain ⟨v, hv⟩ := h.read_of_contains hc
  unfold readAs at hr
  rw [hv] at hr
  dsimp only at hr
  split at hr
  · cases hr
  · cases hr
    trivial

theorem of_write {v : Value} (h : m.Loaded p) (hw : m.write address v = .ok m') : m'.Loaded p := by
  obtain ⟨heap, hset, hm⟩ := bind_eq_ok.1 hw
  cases hm
  have hsize := (Heap.size_of_set hset).trans h.size
  exact ⟨h.program, hsize, Heap.pending_of_set h.resolved hset, h.stack⟩

theorem of_copy {source : UInt32} {heap : Heap} (h : m.Loaded p)
    (hc : m.heap.copy source address = .ok heap) : ({ m with heap } : Machine).Loaded p := by
  obtain ⟨v, -, hset⟩ := Heap.copy_ok hc
  have hsize := (Heap.size_of_set hset).trans h.size
  exact ⟨h.program, hsize, Heap.pending_of_set h.resolved hset, h.stack⟩

/-- Only addresses that were on the stack are on it. -/
theorem of_stack {stack : OperandStack} (h : m.Loaded p)
    (hs : ∀ a ∈ stack.entries, a ∈ m.stack.entries) : ({ m with stack } : Machine).Loaded p :=
  ⟨h.program, h.size, h.resolved, fun a ha => h.stack a (hs a ha)⟩

theorem of_pop {stack : OperandStack} (h : m.Loaded p)
    (hpop : m.stack.pop = .ok (address, stack)) :
    p.heap.contains address = true ∧ ({ m with stack } : Machine).Loaded p := by
  have hentries := (OperandStack.pop_ok hpop).1
  constructor
  · exact h.stack _ (hentries ▸ List.mem_cons_self)
  · exact h.of_stack fun a ha => hentries ▸ List.mem_cons_of_mem _ ha

end Loaded

/-- What a listed instruction other than an indirect jump does to a machine that has loaded the
program: the program counter, already behind the instruction, stays where the program may stand. -/
theorem Effect.loaded {x : Except VmError Unit} (he : Effect (i.operand.getD 0) m i.opcode x m')
    (hv : p.Verified is) (hi : i ∈ is) (hj : i.opcode ≠ .jumpIndirect) (h : m.Loaded p)
    (hpc : p.Due is m.pc) :
    m'.Loaded p ∧ p.Due is m'.pc ∧ ∀ e, x = .error e → e.Sound length := by
  have hheap := hv.heapOperand hi
  have hcode := hv.codeOperand hi
  generalize i.opcode = op at he hj hheap hcode
  cases he with
  | nop | remark | call => exact ⟨h, hpc, fun _ hx => nomatch hx⟩
  | push hpush =>
    refine ⟨⟨h.program, h.size, h.resolved, fun a ha => ?_⟩, hpc, fun _ hx => nomatch hx⟩
    rw [(OperandStack.push_ok hpush).1] at ha
    obtain rfl | ha := List.mem_cons.1 ha
    · exact hheap rfl
    · exact h.stack a ha
  | noPush hpush =>
    refine ⟨h, hpc, fun e hx => ?_⟩
    cases hx
    rw [OperandStack.push_error hpush]
    trivial
  | pop hpop => exact ⟨(h.of_pop hpop).2, hpc, fun _ hx => nomatch hx⟩
  | noPop hpop | noConditionAddress hpop | noDestination hpop =>
    refine ⟨h, hpc, fun e hx => ?_⟩
    cases hx
    rw [OperandStack.pop_error hpop]
    trivial
  | @jumpIfFalse address stack condition hpop hread =>
    refine ⟨⟨h.program, h.size, h.resolved, (h.of_pop hpop).2.stack⟩, ?_, fun _ hx => nomatch hx⟩
    cases condition with
    | true => exact hpc
    | false =>
      obtain ht | ht := hcode rfl
      · exact .inr (.inl ht)
      · exact .inl ht
  | noCondition hpop hread =>
    refine ⟨(h.of_pop hpop).2, hpc, fun e hx => ?_⟩
    cases hx
    exact h.sound_of_readAs (h.of_pop hpop).1 hread
  | jump =>
    refine ⟨⟨h.program, h.size, h.resolved, h.stack⟩, ?_, fun _ hx => nomatch hx⟩
    obtain ht | ht := hcode rfl
    · exact .inr (.inl ht)
    · exact .inl ht
  | jumpIndirect | noTarget => exact absurd rfl hj
  | copy hpop hpop' hcopy =>
    refine ⟨((h.of_pop hpop).2.of_pop hpop').2.of_copy hcopy, hpc, fun _ hx => nomatch hx⟩
  | noSource hpop hpop' =>
    refine ⟨(h.of_pop hpop).2, hpc, fun e hx => ?_⟩
    cases hx
    rw [OperandStack.pop_error hpop']
    trivial
  | noCopy hpop hpop' hcopy =>
    have hdestination := (h.of_pop hpop).1
    have hsource := ((h.of_pop hpop).2.of_pop hpop').1
    refine ⟨((h.of_pop hpop).2.of_pop hpop').2, hpc, fun e hx => ?_⟩
    cases hx
    obtain ⟨t, actual, rfl⟩ := Heap.copy_error_of_contains h.resolved (h.contains ▸ hsource)
      (h.contains ▸ hdestination) hcopy
    trivial

end Machine

end EventVm
