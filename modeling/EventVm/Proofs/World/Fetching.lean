import EventVm.Proofs.Program.Stream
import EventVm.World.Execution

/-!
# Fetching within bounds

An instruction adds to the program counter without looking at the result. What keeps the sums small
is what has been read before: four is added when the opcode word was read, and the size of the
instruction when the operand was read too. `stepTrapping` is the instruction with all its sums and
reads watched. It is the same as the instruction for any code of less than `2 ^ 32` bytes, wherever
the program counter stands (`step_within_bounds`). With one byte more, a sum can overflow
(`stepTrapping_at_haltAddress`).
-/

namespace EventVm

namespace Machine

/-! ### Watched operations -/

/-- What is wrong with a sum or a read. -/
inductive Trap where
  /-- The sum is not below `2 ^ 32`. -/
  | overflow (a b : UInt32)
  /-- The code has no byte there. -/
  | outside (index : Nat)
  deriving DecidableEq, Repr

namespace Trap

/-- The sum of two words, unless it overflows. -/
def add (a b : UInt32) : Except Trap UInt32 :=
  if a.toNat + b.toNat < 2 ^ 32 then .ok (a + b) else .error (.overflow a b)

/-- The byte at an index, if there is one. -/
def byteAt (code : Bytes) (index : Nat) : Except Trap UInt8 :=
  if h : index < code.length then .ok code[index] else .error (.outside index)

theorem add_of_lt {a b : UInt32} (h : a.toNat + b.toNat < 2 ^ 32) : add a b = .ok (a + b) :=
  if_pos h

theorem byteAt_of_lt {code : Bytes} {index : Nat} (h : index < code.length) :
    byteAt code index = .ok code[index] :=
  dif_pos h

end Trap

/-- `fetchWord`, watched: four single bytes are read once their end is known to be in the code. -/
def fetchWordTrapping (code : Bytes) (offset : UInt32) : Except Trap (Except VmError UInt32) :=
  if offset.toNat + 4 ≤ code.length then do
    let a ← Trap.byteAt code offset.toNat
    let b ← Trap.byteAt code (offset.toNat + 1)
    let c ← Trap.byteAt code (offset.toNat + 2)
    let d ← Trap.byteAt code (offset.toNat + 3)
    return .ok (Instruction.wordOf a b c d)
  else return .error (.programCounterOutOfRange offset)

/-- `fetch`, watched. -/
def fetchTrapping (code : Bytes) (pc : UInt32) :
    Except Trap (Except VmError (Opcode × UInt32)) := do
  match ← fetchWordTrapping code pc with
  | .error e => return .error e
  | .ok word =>
    match Opcode.ofWord? word with
    | none => return .error (.invalidOpcode word pc)
    | some op =>
      if op.hasOperand then return (← fetchWordTrapping code (← Trap.add pc 4)).map (op, ·)
      else return .ok (op, 0)

end Machine

/-- `step`, watched. -/
def World.stepTrapping (self : Reentry) (r : MachineRef) (code : Bytes) (pc : UInt32) (w : World) :
    Except Machine.Trap (EStateM.Result Exhausted World (Except VmError Unit)) := do
  match ← Machine.fetchTrapping code pc with
  | .error e => return .ok (.error e) w
  | .ok (op, operand) =>
    let w := w.note (.begun ⟨r, pc, op, operand, w.current⟩)
    let behind ← Machine.Trap.add pc op.size
    let w := w.mapMachine (fun m => { m with pc := behind }) r
    if op = .call then return World.callFunction self r operand w
    else
      let (result, w) := w.act r (Machine.Action.execute op operand)
      return .ok result w

/-! ### Words within the code -/

namespace Machine

variable {code : Bytes} {offset pc operand : UInt32} {op : Opcode}

theorem fetchWord_of_le (h : offset.toNat + 4 ≤ code.length) :
    fetchWord code offset =
      .ok (UInt32.ofNat (ofLittleEndian ((code.drop offset.toNat).take 4))) := by
  have hlength : ((code.drop offset.toNat).take 4).length = 4 := by
    rw [List.length_take, List.length_drop]
    omega
  exact if_pos hlength

theorem fetchWord_of_lt (h : code.length < offset.toNat + 4) :
    fetchWord code offset = .error (.programCounterOutOfRange offset) := by
  have hlength : ((code.drop offset.toNat).take 4).length ≠ 4 := by
    rw [List.length_take, List.length_drop]
    omega
  exact if_neg hlength

theorem le_of_fetchWord {word : UInt32} (h : fetchWord code offset = .ok word) :
    offset.toNat + 4 ≤ code.length := by
  by_contra hlt
  rw [fetchWord_of_lt (Nat.lt_of_not_le hlt)] at h
  cases h

/-- Reading a word never leaves the code, however long this is. -/
theorem fetchWordTrapping_eq (code : Bytes) (offset : UInt32) :
    fetchWordTrapping code offset = .ok (fetchWord code offset) := by
  unfold fetchWordTrapping
  split
  · next h =>
    have hbytes : (code.drop offset.toNat).take 4 =
        [code[offset.toNat], code[offset.toNat + 1], code[offset.toNat + 2],
          code[offset.toNat + 3]] := by
      rw [List.drop_eq_getElem_cons (by omega), List.drop_eq_getElem_cons (by omega),
        List.drop_eq_getElem_cons (by omega), List.drop_eq_getElem_cons (by omega)]
      rfl
    rw [Trap.byteAt_of_lt (by omega), Trap.byteAt_of_lt (by omega), Trap.byteAt_of_lt (by omega),
      Trap.byteAt_of_lt (by omega), fetchWord_of_le h, hbytes]
    rfl
  · next h =>
    rw [fetchWord_of_lt (Nat.lt_of_not_le h)]
    rfl

/-! ### Instructions within the code -/

/-- With four bytes of the code at the program counter, the next offset is a word. -/
theorem toNat_add_four (hcode : code.length < 2 ^ 32) (h : pc.toNat + 4 ≤ code.length) :
    (pc + 4).toNat = pc.toNat + 4 :=
  toNat_add_of_lt (Nat.lt_of_le_of_lt h hcode)

theorem fetch_of_fetchWord {word : UInt32} (hword : fetchWord code pc = .ok word) :
    fetch code pc =
      match Opcode.ofWord? word with
      | none => .error (.invalidOpcode word pc)
      | some op => (if op.hasOperand then fetchWord code (pc + 4) else .ok 0).map (op, ·) := by
  unfold fetch
  rw [hword]
  dsimp only [bind, Except.bind]
  cases Opcode.ofWord? word with
  | none => rfl
  | some op =>
    dsimp only
    split
    · cases fetchWord code (pc + 4) <;> rfl
    · rfl

theorem fetch_of_lt (h : code.length < pc.toNat + 4) :
    fetch code pc = .error (.programCounterOutOfRange pc) := by
  unfold fetch
  rw [fetchWord_of_lt h]
  rfl

/-- An instruction that was fetched is in the code as a whole. -/
theorem le_of_fetch (hcode : code.length < 2 ^ 32) (h : fetch code pc = .ok (op, operand)) :
    pc.toNat + op.size.toNat ≤ code.length := by
  cases hword : fetchWord code pc with
  | error e =>
    unfold fetch at h
    rw [hword] at h
    cases h
  | ok word =>
    have hfirst := le_of_fetchWord hword
    rw [fetch_of_fetchWord hword] at h
    split at h
    · cases h
    · split at h
      · next ho =>
        obtain ⟨x, hx, hpair⟩ := map_eq_ok.1 h
        cases hpair
        have hsecond := le_of_fetchWord hx
        rw [toNat_add_four hcode hfirst] at hsecond
        rw [Opcode.toNat_size, if_pos ho]
        omega
      · next ho =>
        cases h
        rwa [Opcode.toNat_size, if_neg ho]

/-- Behind the opcode word of an instruction without all of its operand, the operand is missed. -/
theorem fetch_of_operand_lt {word : UInt32} (hcode : code.length < 2 ^ 32)
    (hword : fetchWord code pc = .ok word) (hop : Opcode.ofWord? word = some op)
    (ho : op.hasOperand = true) (h : code.length < pc.toNat + 8) :
    fetch code pc = .error (.programCounterOutOfRange (pc + 4)) := by
  have hpc := toNat_add_four hcode (le_of_fetchWord hword)
  have hoperand : fetchWord code (pc + 4) = .error (.programCounterOutOfRange (pc + 4)) :=
    fetchWord_of_lt (by omega)
  rw [fetch_of_fetchWord hword, hop]
  dsimp only
  rw [if_pos ho, hoperand]
  rfl

/-- Four is added only when the opcode word has been read, so the sum is at most the length. -/
theorem fetchTrapping_eq (hcode : code.length < 2 ^ 32) (pc : UInt32) :
    fetchTrapping code pc = .ok (fetch code pc) := by
  unfold fetchTrapping
  rw [fetchWordTrapping_eq]
  cases hword : fetchWord code pc with
  | error e =>
    unfold fetch
    rw [hword]
    rfl
  | ok word =>
    have hadd : Trap.add pc 4 = .ok (pc + 4) :=
      Trap.add_of_lt (Nat.lt_of_le_of_lt (le_of_fetchWord hword) hcode)
    rw [fetch_of_fetchWord hword]
    dsimp only [bind, Except.bind]
    cases Opcode.ofWord? word with
    | none => rfl
    | some op =>
      dsimp only
      split
      · rw [hadd]
        dsimp only
        rw [fetchWordTrapping_eq]
        rfl
      · rfl

end Machine

namespace World

variable {self : Reentry} {r : MachineRef} {code : Bytes} {pc : UInt32} {w : World}

theorem step_of_fetch_error {e : VmError} (h : Machine.fetch code pc = .error e) :
    step self r code pc w = .ok (.error e) w := by
  unfold step
  rw [h]

/-- The size of an instruction is added only when all of it has been read. -/
theorem stepTrapping_eq (hcode : code.length < 2 ^ 32) :
    stepTrapping self r code pc w = .ok (step self r code pc w) := by
  unfold stepTrapping step
  rw [Machine.fetchTrapping_eq hcode]
  dsimp only [bind, Except.bind]
  cases hfetch : Machine.fetch code pc with
  | error e => rfl
  | ok fetched =>
    obtain ⟨op, operand⟩ := fetched
    have hadd : Machine.Trap.add pc op.size = .ok (pc + op.size) :=
      Machine.Trap.add_of_lt (Nat.lt_of_le_of_lt (Machine.le_of_fetch hcode hfetch) hcode)
    dsimp only
    rw [hadd]
    dsimp only
    split <;> rfl

/-- For code of less than `2 ^ 32` bytes and any program counter, no sum overflows and no read
leaves the code. An instruction that was fetched ends in the code. If there is no room for the
opcode word, or for the operand of an opcode that has one, the instruction fails with the offset of
the missing word and the world stays as it is. -/
theorem step_within_bounds (self : Reentry) (r : MachineRef) (code : Bytes)
    (hcode : code.length ≤ 2 ^ 32 - 1) (pc : UInt32) (w : World) :
    stepTrapping self r code pc w = .ok (step self r code pc w) ∧
    (∀ op operand, Machine.fetch code pc = .ok (op, operand) →
      pc.toNat + op.size.toNat ≤ code.length ∧
        (pc + op.size).toNat = pc.toNat + op.size.toNat) ∧
    (code.length < pc.toNat + 4 →
      step self r code pc w = .ok (.error (.programCounterOutOfRange pc)) w) ∧
    ∀ word op, Machine.fetchWord code pc = .ok word → Opcode.ofWord? word = some op →
      op.hasOperand = true → code.length < pc.toNat + 8 →
      (pc + 4).toNat = pc.toNat + 4 ∧
        step self r code pc w = .ok (.error (.programCounterOutOfRange (pc + 4))) w := by
  have hlt : code.length < 2 ^ 32 := by omega
  refine ⟨stepTrapping_eq hlt, fun op operand h => ?_,
    fun h => step_of_fetch_error (Machine.fetch_of_lt h), fun word op hword hop ho h => ?_⟩
  · have hle := Machine.le_of_fetch hlt h
    exact ⟨hle, toNat_add_of_lt (Nat.lt_of_le_of_lt hle hlt)⟩
  · exact ⟨Machine.toNat_add_four hlt (Machine.le_of_fetchWord hword),
      step_of_fetch_error (Machine.fetch_of_operand_lt hlt hword hop ho h)⟩

/-- In code as long as possible, the program counter ends up just below the top behind a plain
instruction, and the operand of an instruction at the very end is missed. -/
theorem step_within_bounds_at_top :
    let code : Bytes := List.replicate (2 ^ 32 - 5) 0 ++ Write.u32 Opcode.push.word
    let w : World := .new .default
    code.length ≤ 2 ^ 32 - 1 ∧
    Machine.fetch code 0xFFFFFFF7 = .ok (.nop, 0) ∧
    stepTrapping .exhausted .bench code 0xFFFFFFF7 w =
      .ok (step .exhausted .bench code 0xFFFFFFF7 w) ∧
    ((0xFFFFFFF7 : UInt32) + Opcode.nop.size).toNat = 2 ^ 32 - 5 ∧
    Machine.fetchWord code 0xFFFFFFFB = .ok Opcode.push.word ∧
    step .exhausted .bench code 0xFFFFFFFB w =
      .ok (.error (.programCounterOutOfRange 0xFFFFFFFF)) w ∧
    step .exhausted .bench code 0xFFFFFFFC w =
      .ok (.error (.programCounterOutOfRange 0xFFFFFFFC)) w := by
  intro code w
  have hlength : code.length = 2 ^ 32 - 1 := by
    rw [List.length_append, List.length_replicate, length_u32]
    rfl
  have hnop : code.drop (0xFFFFFFF7 : UInt32).toNat =
      Instruction.encodeWords .nop none ++ Write.u32 Opcode.push.word := by
    have hle : (0xFFFFFFF7 : UInt32).toNat ≤ (List.replicate (2 ^ 32 - 5) (0 : UInt8)).length := by
      rw [List.length_replicate]
      decide
    rw [List.drop_append_of_le_length hle, List.drop_replicate]
    rfl
  have hpush : code.drop (0xFFFFFFFB : UInt32).toNat = Write.u32 Opcode.push.word ++ [] := by
    rw [List.append_nil]
    exact List.drop_left' List.length_replicate
  have hfetch : Machine.fetch code 0xFFFFFFF7 = .ok (.nop, 0) :=
    Instruction.fetch_of_drop rfl (by omega) hnop
  have hword := Instruction.fetchWord_of_drop hpush
  obtain ⟨hequal, hplain, -, -⟩ :=
    step_within_bounds .exhausted .bench code (by omega) 0xFFFFFFF7 w
  obtain ⟨-, -, -, hoperand⟩ := step_within_bounds .exhausted .bench code (by omega) 0xFFFFFFFB w
  obtain ⟨-, -, hmissing, -⟩ := step_within_bounds .exhausted .bench code (by omega) 0xFFFFFFFC w
  refine ⟨by omega, hfetch, hequal, (hplain _ _ hfetch).2, hword, ?_, hmissing ?_⟩
  · exact (hoperand _ .push hword (Opcode.ofWord?_word .push) rfl (by rw [hlength]; decide)).2
  · rw [hlength]
    decide

/-- One byte more and the program counter can overflow: at the halt address, no opcode has anything
behind it. -/
theorem stepTrapping_at_haltAddress {op : Opcode}
    (h : Machine.fetchWord code haltAddress = .ok op.word) :
    stepTrapping self r code haltAddress w = .error (.overflow haltAddress 4) := by
  have hadd : Machine.Trap.add haltAddress 4 = .error (.overflow haltAddress 4) := rfl
  unfold stepTrapping Machine.fetchTrapping
  rw [Machine.fetchWordTrapping_eq, h]
  dsimp only [bind, Except.bind]
  rw [Opcode.ofWord?_word]
  dsimp only
  cases ho : op.hasOperand with
  | true =>
    rw [if_pos rfl, hadd]
  | false =>
    have hsize : op.size = 4 := by simp [Opcode.size, ho]
    rw [if_neg Bool.false_ne_true]
    dsimp only [pure, Except.pure]
    rw [hsize, hadd]

end World

end EventVm
