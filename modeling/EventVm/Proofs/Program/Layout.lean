import EventVm.Proofs.Program.Stream
import Mathlib.Algebra.Order.BigOperators.Group.List
import Mathlib.Algebra.Order.Group.Nat

/-!
# The layout of instruction streams

A stream of encoded instructions is listed as those instructions (`decodeFrom_append`,
`decodeFrom_encodeWords`); each begins where the lengths of the ones in front of it add up to
(`offset_of_decodeAll`), and the listing determines the stream (`encode_of_decodeFrom`).
-/

namespace EventVm.Instruction

variable {off : Nat} {bytes rest : Bytes} {is js : List Instruction} {op : Opcode}
  {operand : Option UInt32}

/-- The length of the code of instructions. -/
def totalSize (is : List Instruction) : Nat :=
  (is.map fun i => i.opcode.size.toNat).sum

theorem totalSize_take_mono {m n : Nat} (h : m ≤ n) :
    totalSize (is.take m) ≤ totalSize (is.take n) := by
  unfold totalSize
  rw [List.map_take, List.map_take]
  exact ((List.take_prefix_take_left h).sublist).sum_le_sum (fun _ _ => Nat.zero_le _)

theorem wordOf_u32 {w : UInt32} {a b c d : UInt8} (h : Write.u32 w = [a, b, c, d]) :
    wordOf a b c d = w := by
  have hw := ofLittleEndian_u32 w
  rw [h] at hw
  rw [wordOf, hw, UInt32.ofNat_toNat]

theorem exists_u32 (w : UInt32) : ∃ a b c d, Write.u32 w = [a, b, c, d] := by
  have hlen := length_u32 w
  match h : Write.u32 w, hlen with
  | [a, b, c, d], _ => exact ⟨a, b, c, d, rfl⟩

/-- An encoded instruction is listed in front of what follows it. -/
theorem decodeFrom_encodeWords (h : operand.isSome = op.hasOperand) :
    decodeFrom off (encodeWords op operand ++ rest) =
      (decodeFrom (off + op.size.toNat) rest).map (⟨UInt32.ofNat off, op, operand⟩ :: ·) := by
  obtain ⟨a, b, c, d, hop⟩ := exists_u32 op.word
  have hword := wordOf_u32 hop
  cases operand with
  | none =>
    have hnone : ¬ op.hasOperand = true := by
      rw [← h]
      exact Bool.false_ne_true
    have hsize : op.size.toNat = 4 := op.toNat_size.trans (if_neg hnone)
    rw [encodeWords, hop, hsize]
    simp only [Option.map_none, Option.getD_none, List.append_nil, List.cons_append,
      List.nil_append]
    rw [decodeFrom.eq_def]
    simp only [hword, Opcode.ofWord?_word, if_neg hnone]
  | some w =>
    obtain ⟨e, f, g, k, hoperand⟩ := exists_u32 w
    have hsome : op.hasOperand = true := h.symm
    have hsize : op.size.toNat = 8 := op.toNat_size.trans (if_pos hsome)
    rw [encodeWords, hop, hsize]
    simp only [Option.map_some, Option.getD_some, hoperand, List.cons_append, List.nil_append]
    rw [decodeFrom.eq_def]
    simp only [hword, Opcode.ofWord?_word, if_pos hsome, wordOf_u32 hoperand]

theorem length_of_decodeFrom (h : decodeFrom off bytes = .ok is) :
    bytes.length = totalSize is := by
  induction is generalizing off bytes with
  | nil =>
    obtain ⟨rfl, -⟩ | ⟨_, _, _, _, _, _, _, hcons⟩ := decodeFrom_ok h
    · rfl
    · cases hcons
  | cons i is ih =>
    obtain ⟨-, hnil⟩ | ⟨op, operand, rest, is', ho, rfl, hrest, hcons⟩ := decodeFrom_ok h
    · cases hnil
    · cases hcons
      rw [List.length_append, length_encodeWords ho, ih hrest]
      rfl

/-- The listing of a stream is followed by the listing of what stands behind it. -/
theorem decodeFrom_append (h : decodeFrom off bytes = .ok is) :
    decodeFrom off (bytes ++ rest) =
      (decodeFrom (off + bytes.length) rest).map (is ++ ·) := by
  induction is generalizing off bytes with
  | nil =>
    obtain ⟨rfl, -⟩ | ⟨_, _, _, _, _, _, _, hcons⟩ := decodeFrom_ok h
    · cases hrest : decodeFrom off rest <;> simp [hrest, Except.map]
    · cases hcons
  | cons i is ih =>
    obtain ⟨-, hnil⟩ | ⟨op, operand, bytes', is', ho, rfl, hbytes', hcons⟩ := decodeFrom_ok h
    · cases hnil
    · cases hcons
      rw [List.append_assoc, decodeFrom_encodeWords ho, ih hbytes', List.length_append,
        length_encodeWords ho, Nat.add_assoc]
      cases decodeFrom (off + (op.size.toNat + bytes'.length)) rest <;> rfl

theorem offset_of_decodeFrom {k : Nat} {i : Instruction} (h : decodeFrom off bytes = .ok is)
    (hi : is[k]? = some i) : i.offset = UInt32.ofNat (off + totalSize (is.take k)) := by
  induction is generalizing off bytes k with
  | nil => cases hi
  | cons j is ih =>
    obtain ⟨-, hnil⟩ | ⟨op, operand, bytes', is', ho, rfl, hbytes', hcons⟩ := decodeFrom_ok h
    · cases hnil
    · cases hcons
      cases k with
      | zero =>
        cases hi
        rfl
      | succ k =>
        rw [ih hbytes' hi, List.take_succ_cons, Nat.add_assoc]
        rfl

/-- An instruction begins where the lengths of the ones in front of it add up to. -/
theorem offset_of_decodeAll {k : Nat} {i : Instruction} (h : decodeAll bytes = .ok is)
    (hi : is[k]? = some i) : i.offset = UInt32.ofNat (totalSize (is.take k)) := by
  rw [offset_of_decodeFrom h hi, Nat.zero_add]

/-- A stream is the encoding of its listing. -/
theorem encode_of_decodeFrom (h : decodeFrom off bytes = .ok is) : is.flatMap encode = bytes := by
  induction is generalizing off bytes with
  | nil =>
    obtain ⟨rfl, -⟩ | ⟨_, _, _, _, _, _, _, hcons⟩ := decodeFrom_ok h
    · rfl
    · cases hcons
  | cons i is ih =>
    obtain ⟨-, hnil⟩ | ⟨op, operand, bytes', is', ho, rfl, hbytes', hcons⟩ := decodeFrom_ok h
    · cases hnil
    · cases hcons
      rw [List.flatMap_cons, ih hbytes']
      rfl

theorem size_pos (op : Opcode) : 0 < op.size.toNat := by
  cases op <;> decide

/-- In a stream that fits the offsets, instructions begin one behind the other. -/
theorem pairwise_offset_of_decodeFrom (h : decodeFrom off bytes = .ok is)
    (hsize : off + bytes.length < 2 ^ 32) :
    (∀ i ∈ is, off ≤ i.offset.toNat) ∧
      is.Pairwise fun i j => i.offset.toNat < j.offset.toNat := by
  induction is generalizing off bytes with
  | nil => exact ⟨fun i hi => (nomatch hi), .nil⟩
  | cons i is ih =>
    obtain ⟨-, hnil⟩ | ⟨op, operand, bytes', is', ho, rfl, hbytes', hcons⟩ := decodeFrom_ok h
    · cases hnil
    · cases hcons
      rw [List.length_append, length_encodeWords ho] at hsize
      obtain ⟨hle, hpairwise⟩ := ih hbytes' (by omega)
      have hpos := size_pos op
      have hoffset : (UInt32.ofNat off).toNat = off :=
        UInt32.toNat_ofNat_of_lt' (by rw [UInt32.size]; omega)
      refine ⟨List.forall_mem_cons.2 ⟨hoffset.ge, fun j hj => ?_⟩, .cons (fun j hj => ?_) hpairwise⟩
      · have hj := hle j hj
        omega
      · have hj := hle j hj
        dsimp only
        omega

end EventVm.Instruction
