import EventVm.Bytes.LittleEndian.Lemmas
import EventVm.Instruction
import EventVm.Machine.Basic
import EventVm.Proofs.Failure

/-!
# Instruction streams

A machine fetches at the offset of a listed instruction exactly that instruction, and behind it
stands the next listed one or the end of the code (`fetch_of_mem`, `next_of_mem`).
-/

namespace EventVm

/-! ### Words -/

theorem length_u32 (x : UInt32) : (Write.u32 x).length = 4 :=
  length_littleEndian ..

theorem ofLittleEndian_u32 (x : UInt32) : ofLittleEndian (Write.u32 x) = x.toNat :=
  ofLittleEndian_littleEndian x.toNat_lt

theorem toNat_add_of_lt {a b : UInt32} (h : a.toNat + b.toNat < 2 ^ 32) :
    (a + b).toNat = a.toNat + b.toNat :=
  (UInt32.toNat_add a b).trans (Nat.mod_eq_of_lt h)

theorem u32_ofNat_ofLittleEndian {bs : Bytes} (h : bs.length = 4) :
    Write.u32 (UInt32.ofNat (ofLittleEndian bs)) = bs := by
  have hlt := ofLittleEndian_lt bs
  rw [h] at hlt
  unfold Write.u32
  rw [UInt32.toNat_ofNat_of_lt' hlt, ← h, littleEndian_ofLittleEndian]

namespace Instruction

theorem u32_wordOf (a b c d : UInt8) : Write.u32 (wordOf a b c d) = [a, b, c, d] :=
  u32_ofNat_ofLittleEndian rfl

/-! ### Listings -/

variable {off : Nat} {bytes code rest : Bytes} {is : List Instruction} {i : Instruction}
  {op : Opcode} {operand : Option UInt32}

theorem length_encodeWords (h : operand.isSome = op.hasOperand) :
    (encodeWords op operand).length = op.size.toNat := by
  unfold encodeWords Opcode.size
  rw [List.length_append, length_u32, ← h]
  cases operand with
  | none => rfl
  | some x =>
    rw [Option.map_some, Option.getD_some, length_u32]
    rfl

/-- A listing is empty, or it begins with the instruction at the beginning of the stream and goes on
with the listing of what is behind it. -/
theorem decodeFrom_ok (h : decodeFrom off bytes = .ok is) :
    (bytes = [] ∧ is = []) ∨
      ∃ op operand rest is', operand.isSome = op.hasOperand ∧
        bytes = encodeWords op operand ++ rest ∧
        decodeFrom (off + op.size.toNat) rest = .ok is' ∧
        is = ⟨UInt32.ofNat off, op, operand⟩ :: is' := by
  unfold decodeFrom at h
  split at h
  · cases h
    exact .inl ⟨rfl, rfl⟩
  · next a b c d bytes' =>
    dsimp only at h
    split at h
    · cases h
    · next op hop =>
      have hword : [a, b, c, d] = Write.u32 op.word := by
        rw [Opcode.word_of_ofWord? hop, u32_wordOf]
      by_cases ho : op.hasOperand = true
      · rw [if_pos ho] at h
        split at h
        · next e f g k rest =>
          obtain ⟨is', his, rfl⟩ := map_eq_ok.1 h
          refine .inr ⟨op, some (wordOf e f g k), rest, is', ho.symm, ?_, ?_, rfl⟩
          · unfold encodeWords
            rw [← hword, Option.map_some, Option.getD_some, u32_wordOf]
            rfl
          · rwa [op.toNat_size, if_pos ho]
        · cases h
      · rw [if_neg ho] at h
        obtain ⟨is', his, rfl⟩ := map_eq_ok.1 h
        refine .inr ⟨op, none, bytes', is', ?_, ?_, ?_, rfl⟩
        · simpa using ho
        · unfold encodeWords
          rw [← hword]
          rfl
        · rwa [op.toNat_size, if_neg ho]
  · cases h

/-! ### Fetching -/

theorem fetchWord_of_drop {offset x : UInt32} (h : code.drop offset.toNat = Write.u32 x ++ rest) :
    Machine.fetchWord code offset = .ok x := by
  have htake : (code.drop offset.toNat).take 4 = Write.u32 x := by
    rw [h, List.take_append_of_le_length (Nat.le_of_eq (length_u32 x).symm),
      List.take_of_length_le (Nat.le_of_eq (length_u32 x))]
  unfold Machine.fetchWord
  rw [htake]
  simp only [length_u32, if_true, ofLittleEndian_u32, UInt32.ofNat_toNat]

/-- A machine fetches the instruction that the code at its program counter encodes. -/
theorem fetch_of_drop {pc : UInt32} (ho : operand.isSome = op.hasOperand)
    (hlen : code.length < 2 ^ 32)
    (h : code.drop pc.toNat = encodeWords op operand ++ rest) :
    Machine.fetch code pc = .ok (op, operand.getD 0) := by
  have hword : Machine.fetchWord code pc = .ok op.word := by
    unfold encodeWords at h
    rw [List.append_assoc] at h
    exact fetchWord_of_drop h
  unfold Machine.fetch
  cases operand with
  | none =>
    simp [hword, bind, Except.bind, Opcode.ofWord?_word, ← ho]
    rfl
  | some x =>
    have hoperand : Machine.fetchWord code (pc + 4) = .ok x := by
      have hlength := congrArg List.length h
      rw [List.length_drop, List.length_append, length_encodeWords ho] at hlength
      have hsize : op.size.toNat = 8 := op.toNat_size.trans (if_pos ho.symm)
      have hpc : (pc + 4).toNat = pc.toNat + 4 :=
        toNat_add_of_lt (by change pc.toNat + 4 < 2 ^ 32; omega)
      have hdrop : code.drop (pc + 4).toNat = Write.u32 x ++ rest := by
        rw [hpc, ← List.drop_drop, h]
        unfold encodeWords
        rw [List.append_assoc, List.drop_left' (length_u32 _)]
        rfl
      exact fetchWord_of_drop hdrop
    simp [hword, bind, Except.bind, Opcode.ofWord?_word, ← ho, hoperand]
    rfl

/-- What the listing of a stream says of each instruction in it, for code in which the stream stands
at `off`. -/
theorem fetch_next_of_decodeFrom (hlen : code.length < 2 ^ 32)
    (hdrop : code.drop off = bytes) (hoff : off ≤ code.length) (h : decodeFrom off bytes = .ok is)
    (hi : i ∈ is) :
    Machine.fetch code i.offset = .ok (i.opcode, i.operand.getD 0) ∧
      (i.offset + i.opcode.size ∈ is.map offset ∨
        i.offset + i.opcode.size = UInt32.ofNat code.length) := by
  induction is generalizing off bytes with
  | nil => cases hi
  | cons j is ih =>
    obtain ⟨-, hnil⟩ | ⟨op, operand, rest, is', ho, hbytes, his', hcons⟩ := decodeFrom_ok h
    · cases hnil
    · cases hcons
      have hoffset : (UInt32.ofNat off).toNat = off := UInt32.toNat_ofNat_of_lt' (by
        change off < 2 ^ 32
        omega)
      have hrest : code.drop (off + op.size.toNat) = rest := by
        rw [← List.drop_drop, hdrop, hbytes, List.drop_left' (length_encodeWords ho)]
      have hlength := congrArg List.length (hdrop.trans hbytes)
      rw [List.length_drop, List.length_append, length_encodeWords ho] at hlength
      obtain rfl | hi := List.mem_cons.1 hi
      · have hat : code.drop (UInt32.ofNat off).toNat = encodeWords op operand ++ rest := by
          rw [hoffset, hdrop, hbytes]
        refine ⟨fetch_of_drop ho hlen hat, ?_⟩
        have hnext : UInt32.ofNat off + op.size = UInt32.ofNat (off + op.size.toNat) := by
          rw [UInt32.ofNat_add, UInt32.ofNat_toNat]
        rw [hnext]
        obtain ⟨hnil, -⟩ | ⟨op', operand', rest', is'', -, -, -, rfl⟩ := decodeFrom_ok his'
        · right
          rw [hnil] at hlength
          congr 1
          simp only [List.length_nil] at hlength
          omega
        · left
          simp
      · obtain ⟨hfetch, hnext⟩ := ih hrest (by omega) his' hi
        refine ⟨hfetch, hnext.imp_left fun h => ?_⟩
        rw [List.map_cons]
        exact List.mem_cons_of_mem _ h

theorem operand_isSome_of_decodeFrom (h : decodeFrom off bytes = .ok is) (hi : i ∈ is) :
    i.operand.isSome = i.opcode.hasOperand := by
  induction is generalizing off bytes with
  | nil => cases hi
  | cons j is ih =>
    obtain ⟨-, hnil⟩ | ⟨op, operand, rest, is', ho, -, his', hcons⟩ := decodeFrom_ok h
    · cases hnil
    · cases hcons
      obtain rfl | hi := List.mem_cons.1 hi
      · exact ho
      · exact ih his' hi

section Listing

variable (hlen : code.length < 2 ^ 32) (h : decodeAll code = .ok is) (hi : i ∈ is)

include hlen h hi

/-- A machine fetches a listed instruction at its offset. -/
theorem fetch_of_mem : Machine.fetch code i.offset = .ok (i.opcode, i.operand.getD 0) :=
  (fetch_next_of_decodeFrom hlen rfl (Nat.zero_le _) h hi).1

/-- Behind a listed instruction stands another one or the end of the code. -/
theorem next_of_mem : i.offset + i.opcode.size ∈ is.map offset ∨
    i.offset + i.opcode.size = UInt32.ofNat code.length :=
  (fetch_next_of_decodeFrom hlen rfl (Nat.zero_le _) h hi).2

end Listing

/-- Nothing can be fetched at the end of the code. -/
theorem fetch_at_end (hlen : code.length < 2 ^ 32) :
    Machine.fetch code (UInt32.ofNat code.length) =
      .error (.programCounterOutOfRange (UInt32.ofNat code.length)) := by
  have hend : (UInt32.ofNat code.length).toNat = code.length := UInt32.toNat_ofNat_of_lt' hlen
  have hword : Machine.fetchWord code (UInt32.ofNat code.length) =
      .error (.programCounterOutOfRange (UInt32.ofNat code.length)) := by
    unfold Machine.fetchWord
    rw [hend, List.drop_length]
    rfl
  unfold Machine.fetch
  rw [hword]
  rfl

end Instruction

end EventVm
