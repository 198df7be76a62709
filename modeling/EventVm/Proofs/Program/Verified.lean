import EventVm.Program.Verification
import EventVm.Proofs.Failure
import EventVm.Proofs.Program.Stream

/-!
# Verified programs

What is known of a program that passed the checks of its structure: where operands and entry points
may lead.
-/

namespace EventVm

theorem checkAll_eq_ok {α ε : Type} {check : α → Except ε Unit} {as : List α} :
    checkAll check as = .ok () ↔ ∀ a ∈ as, check a = .ok () := by
  induction as with
  | nil => simp [checkAll]
  | cons a as ih =>
    rw [checkAll, bind_eq_ok, List.forall_mem_cons, ← ih]
    constructor
    · rintro ⟨⟨⟩, ha, has⟩
      exact ⟨ha, has⟩
    · rintro ⟨ha, has⟩
      exact ⟨(), ha, has⟩

namespace Program

variable {p : Program} {is : List Instruction} {starts : List UInt32} {i : Instruction}
  {operand : UInt32}

/-- A checked operand that is a heap address names a slot, one that is a code offset is the halt
address or the beginning of an instruction. -/
theorem operand_of_verifyInstruction (h : p.verifyInstruction starts i = .ok ())
    (ho : i.operand = some operand) :
    (i.opcode.takesHeapAddress = true → p.heap.contains operand = true) ∧
      (i.opcode.takesCodeOffset = true → operand = haltAddress ∨ operand ∈ starts) := by
  unfold verifyInstruction at h
  rw [ho] at h
  dsimp only at h
  split at h
  · cases h
  · next hheap =>
    split at h
    · cases h
    · next hcode =>
      constructor
      · intro hi
        simpa [hi] using hheap
      · intro hi
        by_cases hhalt : operand = haltAddress
        · exact .inl hhalt
        · right
          simpa [hi, hhalt] using hcode

theorem verifySymbol_eq_ok {s : Symbol} : p.verifySymbol s = .ok () ↔
    ∃ slot, p.heap.slot? s.address = some slot ∧ slot.declared = s.type := by
  unfold verifySymbol
  split
  · next hnone => simp [hnone]
  · next slot hslot =>
    rw [hslot]
    simp

theorem verifyEntryPoint_eq_ok {s : Symbol} :
    verifyEntryPoint starts s = .ok () ↔ s.address ∈ starts := by
  unfold verifyEntryPoint
  simp

theorem verifySync_eq_ok {e : SyncEntry} :
    p.verifySync e = .ok () ↔ e.name ∈ p.symbols.names := by
  have hdeclared : p.symbols.contains e.name = true ↔ e.name ∈ p.symbols.names :=
    SymbolTable.contains_iff
  unfold verifySync
  simp [hdeclared]

/-- The checks of a heap do not depend on where the slots stand. -/
theorem verifySlots_eq_ok {slots : List Slot} :
    checkAll (fun (s, address) => verifySlot s address) slots.zipIdx = .ok () ↔
      ∀ s ∈ slots, s.isWellTyped = true := by
  have hslot : ∀ s n, verifySlot s n = .ok () ↔ s.isWellTyped = true := by
    intro s n
    unfold verifySlot
    simp
  rw [checkAll_eq_ok]
  constructor
  · intro h s hs
    obtain ⟨n, hn⟩ := List.mem_iff_getElem?.1 hs
    exact (hslot s n).1 (h (s, n) (List.mk_mem_zipIdx_iff_getElem?.2 hn))
  · rintro h ⟨s, n⟩ hs
    exact (hslot s n).2 (h s (List.mem_of_getElem? (List.mk_mem_zipIdx_iff_getElem?.1 hs)))

/-- What a program has to satisfy to pass the checks of its structure. -/
theorem verifyStructure_eq_ok : p.verifyStructure = .ok () ↔
    (∀ s ∈ p.heap.slots, s.isWellTyped = true) ∧
    (∀ s ∈ p.symbols.symbols,
      ∃ slot, p.heap.slot? s.address = some slot ∧ slot.declared = s.type) ∧
    ∃ is, p.instructions = .ok is ∧
      (∀ i ∈ is, p.verifyInstruction (is.map Instruction.offset) i = .ok ()) ∧
      (∀ s ∈ p.entryPoints.symbols, s.address ∈ is.map Instruction.offset) ∧
      ∀ e ∈ p.sync.entries, e.name ∈ p.symbols.names := by
  constructor
  · intro h
    obtain ⟨_, hslots, h⟩ := bind_eq_ok.1 h
    obtain ⟨_, hsymbols, h⟩ := bind_eq_ok.1 h
    obtain ⟨is, his, h⟩ := bind_eq_ok.1 h
    obtain ⟨_, hoperands, h⟩ := bind_eq_ok.1 h
    obtain ⟨_, hentries, hsync⟩ := bind_eq_ok.1 h
    exact ⟨verifySlots_eq_ok.1 hslots,
      fun s hs => verifySymbol_eq_ok.1 (checkAll_eq_ok.1 hsymbols s hs), is, his,
      checkAll_eq_ok.1 hoperands,
      fun s hs => verifyEntryPoint_eq_ok.1 (checkAll_eq_ok.1 hentries s hs),
      fun e he => verifySync_eq_ok.1 (checkAll_eq_ok.1 hsync e he)⟩
  · rintro ⟨hslots, hsymbols, is, his, hoperands, hentries, hsync⟩
    refine bind_eq_ok.2 ⟨(), verifySlots_eq_ok.2 hslots, bind_eq_ok.2 ⟨(), ?_, bind_eq_ok.2
      ⟨is, his, bind_eq_ok.2 ⟨(), checkAll_eq_ok.2 hoperands, bind_eq_ok.2 ⟨(), ?_, ?_⟩⟩⟩⟩⟩
    · exact checkAll_eq_ok.2 fun s hs => verifySymbol_eq_ok.2 (hsymbols s hs)
    · exact checkAll_eq_ok.2 fun s hs => verifyEntryPoint_eq_ok.2 (hentries s hs)
    · exact checkAll_eq_ok.2 fun e he => verifySync_eq_ok.2 (hsync e he)

/-- A program whose structure passed the checks: every instruction has a checked operand, and every
entry point is the beginning of an instruction. -/
structure Verified (p : Program) (is : List Instruction) : Prop where
  listed : Instruction.decodeAll p.code = .ok is
  operands : ∀ i ∈ is, p.verifyInstruction (is.map Instruction.offset) i = .ok ()
  entryPoints : ∀ s ∈ p.entryPoints.symbols, s.address ∈ is.map Instruction.offset

theorem verified_of_verifyStructure (h : p.verifyStructure = .ok ())
    (hi : p.instructions = .ok is) : p.Verified is := by
  obtain ⟨-, -, is', hi', hoperands, hentries, -⟩ := verifyStructure_eq_ok.1 h
  cases hi.symm.trans hi'
  exact ⟨mapError_eq_ok.1 hi, hoperands, hentries⟩

theorem verifyStructure_of_verify (h : p.verify = .ok ()) : p.verifyStructure = .ok () := by
  unfold verify at h
  split at h
  · exact h
  · cases h

/-- The slots of a checked heap hold nothing that does not fit, and the synced variables are
declared. -/
theorem tables_of_verifyStructure (h : p.verifyStructure = .ok ()) :
    (∀ s ∈ p.heap.slots, s.isWellTyped = true) ∧
      ∀ e ∈ p.sync.entries, e.name ∈ p.symbols.names := by
  obtain ⟨hslots, -, _, -, -, -, hsync⟩ := verifyStructure_eq_ok.1 h
  exact ⟨hslots, hsync⟩

namespace Verified

variable (h : p.Verified is) (hi : i ∈ is)

include h hi

theorem operand_eq (ho : i.opcode.hasOperand = true) : i.operand = some (i.operand.getD 0) := by
  have hsome := Instruction.operand_isSome_of_decodeFrom h.listed hi
  rw [ho] at hsome
  obtain ⟨operand, hoperand⟩ := Option.isSome_iff_exists.1 hsome
  rw [hoperand]
  rfl

theorem heapOperand (ho : i.opcode.takesHeapAddress = true) :
    p.heap.contains (i.operand.getD 0) = true := by
  have hoperand : i.opcode.hasOperand = true := by
    revert ho
    cases i.opcode <;> decide
  exact (operand_of_verifyInstruction (h.operands i hi) (h.operand_eq hi hoperand)).1 ho

theorem codeOperand (ho : i.opcode.takesCodeOffset = true) :
    i.operand.getD 0 = haltAddress ∨ i.operand.getD 0 ∈ is.map Instruction.offset := by
  have hoperand : i.opcode.hasOperand = true := by
    revert ho
    cases i.opcode <;> decide
  exact (operand_of_verifyInstruction (h.operands i hi) (h.operand_eq hi hoperand)).2 ho

end Verified

end Program

end EventVm
