import EventVm.Program.Builder
import EventVm.Proofs.Program.Layout

/-!
# What a stream is listed as

The instructions that byte code is read as are exactly those it is the concatenation of
(`decodeFrom_eq_ok_iff`). Code that is no such concatenation is refused at the end of its longest
front part that is one (`longest_of_error`), for the undefined word that stands there or else for
what is missing (`decodeFrom_error`). Whatever a builder was asked to append is listed as that, each
instruction at the offset the builder had then (`decodeAll_written`).

The two directions meet in `decodeAll_exact`.
-/

namespace EventVm.Instruction

variable {off : Nat} {bytes code : Bytes} {is : List Instruction} {e : StreamError}

/-! ### Concatenations of instructions -/

/-- Whether the bytes from the offset `off` on are the instructions one after the other: each has an
operand exactly if its opcode takes one, and begins where the lengths in front of it add up to. -/
structure ListedFrom (off : Nat) (is : List Instruction) (bytes : Bytes) : Prop where
  encoded : bytes = is.flatMap encode
  operands : ∀ i ∈ is, i.operand.isSome = i.opcode.hasOperand
  offsets : ∀ k i, is[k]? = some i → i.offset.toNat = off + totalSize (is.take k)

theorem ListedFrom.tail {i : Instruction} (h : ListedFrom off (i :: is) bytes) :
    ListedFrom (off + i.opcode.size.toNat) is (is.flatMap encode) where
  encoded := rfl
  operands j hj := h.operands j (List.mem_cons_of_mem _ hj)
  offsets k j hj := by
    have hoffset := h.offsets (k + 1) j (by rwa [List.getElem?_cons_succ])
    rw [hoffset, List.take_succ_cons, Nat.add_assoc]
    rfl

theorem ListedFrom.decodeFrom (h : ListedFrom off is bytes) : decodeFrom off bytes = .ok is := by
  induction is generalizing off bytes with
  | nil => rw [h.encoded]; rfl
  | cons i is ih =>
    have hoffset : i.offset = UInt32.ofNat off := by
      rw [← UInt32.ofNat_toNat (x := i.offset), h.offsets 0 i rfl]
      rfl
    rw [h.encoded, List.flatMap_cons]
    refine (decodeFrom_encodeWords (h.operands i List.mem_cons_self)).trans ?_
    rw [ih h.tail, ← hoffset]
    rfl

theorem listedFrom_of_decodeFrom (hsize : off + bytes.length < 2 ^ 32)
    (h : decodeFrom off bytes = .ok is) : ListedFrom off is bytes where
  encoded := (encode_of_decodeFrom h).symm
  operands _ hi := operand_isSome_of_decodeFrom h hi
  offsets k i hi := by
    have hle : totalSize (is.take k) ≤ bytes.length := by
      have hk : k ≤ is.length := (List.getElem?_eq_some_iff.1 hi).1.le
      calc totalSize (is.take k) ≤ totalSize (is.take is.length) := totalSize_take_mono hk
        _ = bytes.length := by rw [List.take_length, length_of_decodeFrom h]
    rw [offset_of_decodeFrom h hi]
    exact UInt32.toNat_ofNat_of_lt' (by show off + _ < 2 ^ 32; omega)

/-- Bytes are read as the instructions that they are the concatenation of, and as nothing else. -/
theorem decodeFrom_eq_ok_iff (hsize : off + bytes.length < 2 ^ 32) :
    decodeFrom off bytes = .ok is ↔ ListedFrom off is bytes :=
  ⟨listedFrom_of_decodeFrom hsize, ListedFrom.decodeFrom⟩

/-! ### Where reading stops -/

/-- Whether the bytes begin with an instruction. -/
def Stands (bytes : Bytes) : Prop :=
  ∃ op operand more, operand.isSome = op.hasOperand ∧ bytes = encodeWords op operand ++ more

/-- What is said of bytes at the offset `off` that do not begin with an instruction. -/
inductive Refused (off : Nat) (bytes : Bytes) : StreamError → Prop where
  /-- A full word stands there, and it is no opcode. -/
  | undefined (word : UInt32) (more : Bytes) (hword : bytes = Write.u32 word ++ more)
      (hnone : Opcode.ofWord? word = none) :
      Refused off bytes (.invalidOpcode word (UInt32.ofNat off))
  /-- No full word stands there, or an opcode whose operand is missing. -/
  | missing (hdefined : ∀ word more, bytes = Write.u32 word ++ more → Opcode.ofWord? word ≠ none) :
      Refused off bytes (.truncated (UInt32.ofNat off))

theorem cons_eq_wordOf (a b c d : UInt8) (rest : Bytes) :
    a :: b :: c :: d :: rest = Write.u32 (wordOf a b c d) ++ rest := by
  rw [u32_wordOf]
  rfl

/-- The first four bytes are those of any word that the bytes begin with. -/
theorem eq_wordOf {a b c d : UInt8} {word : UInt32} {rest more : Bytes}
    (h : a :: b :: c :: d :: rest = Write.u32 word ++ more) : word = wordOf a b c d := by
  have hinj := List.append_inj ((cons_eq_wordOf a b c d rest).symm.trans h)
    (by rw [length_u32, length_u32])
  obtain ⟨a', b', c', d', hw⟩ := exists_u32 word
  rw [u32_wordOf, hw] at hinj
  cases hinj.1
  exact (wordOf_u32 hw).symm

/-- If no instruction stands at the front, the error is about the front. -/
theorem refused_of_error (hstuck : ¬ Stands bytes) (h : decodeFrom off bytes = .error e) :
    Refused off bytes e := by
  unfold decodeFrom at h
  split at h
  · cases h
  · next a b c d rest =>
    have hword := cons_eq_wordOf a b c d rest
    dsimp only at h
    split at h
    · next hnone =>
      cases h
      exact .undefined _ rest hword hnone
    · next op hop =>
      rw [← Opcode.word_of_ofWord? hop] at hword
      by_cases ho : op.hasOperand = true
      · rw [if_pos ho] at h
        split at h
        · next e f g k more =>
          refine absurd ⟨op, some (wordOf e f g k), more, ho.symm, ?_⟩ hstuck
          rw [hword, encodeWords, List.append_assoc, Option.map_some, Option.getD_some, u32_wordOf]
          rfl
        · cases h
          refine .missing fun word more hw => ?_
          rw [eq_wordOf hw, hop]
          exact Option.some_ne_none op
      · refine absurd ⟨op, none, rest, ?_, ?_⟩ hstuck
        · simpa using ho
        · rw [hword, encodeWords]
          rfl
  · next hshort =>
    cases h
    refine .missing fun word more hw => ?_
    obtain ⟨a, b, c, d, hword⟩ := exists_u32 word
    rw [hword] at hw
    exact absurd hw (hshort a b c d more)

/-- Bytes are used up, or begin with an instruction, or are refused on the spot. -/
theorem decodeFrom_cases (off : Nat) (bytes : Bytes) :
    bytes = [] ∨ Stands bytes ∨
      bytes ≠ [] ∧ ¬ Stands bytes ∧ ∃ e, decodeFrom off bytes = .error e ∧ Refused off bytes e := by
  by_cases hnil : bytes = []
  · exact .inl hnil
  by_cases hstands : Stands bytes
  · exact .inr (.inl hstands)
  rcases h : decodeFrom off bytes with e | is
  · exact .inr (.inr ⟨hnil, hstands, e, rfl, refused_of_error hstands h⟩)
  · rcases decodeFrom_ok h with ⟨rfl, -⟩ | ⟨op, operand, more, -, ho, rfl, -⟩
    · exact absurd rfl hnil
    · exact absurd ⟨op, operand, more, ho, rfl⟩ hstands

/-- Reading fails behind a front part that is listed, at bytes that no instruction begins. -/
theorem decodeFrom_error (h : decodeFrom off bytes = .error e) :
    ∃ front rest is, bytes = front ++ rest ∧ decodeFrom off front = .ok is ∧ rest ≠ [] ∧
      ¬ Stands rest ∧ Refused (off + front.length) rest e := by
  -- each instruction passed leaves fewer bytes
  induction hn : bytes.length using Nat.strong_induction_on generalizing off bytes with
  | _ n ih =>
    rcases decodeFrom_cases off bytes with rfl | hstands | ⟨hne, hstuck, e', he', hrefused⟩
    · cases h
    · obtain ⟨op, operand, more, ho, rfl⟩ := hstands
      rw [decodeFrom_encodeWords ho] at h
      have hmore : decodeFrom (off + op.size.toNat) more = .error e := by
        rcases hm : decodeFrom (off + op.size.toNat) more with e' | is <;> rw [hm] at h <;> cases h
        rfl
      have hless : more.length < n := by
        have hpos := size_pos op
        rw [← hn, List.length_append, length_encodeWords ho]
        omega
      obtain ⟨front, rest, is, rfl, hfront, hne, hstuck, hrefused⟩ := ih _ hless hmore rfl
      refine ⟨encodeWords op operand ++ front, rest, ⟨UInt32.ofNat off, op, operand⟩ :: is,
        (List.append_assoc ..).symm, ?_, hne, hstuck, ?_⟩
      · rw [decodeFrom_encodeWords ho, hfront]
        rfl
      · rwa [List.length_append, length_encodeWords ho, ← Nat.add_assoc]
    · cases he'.symm.trans h
      exact ⟨[], bytes, [], rfl, rfl, hne, hstuck, hrefused⟩

/-! ### The longest front part -/

/-- Whether the first `n` bytes are the longest front part that is a concatenation of
instructions. -/
structure LongestListed (code : Bytes) (n : Nat) : Prop where
  inside : n ≤ code.length
  listed : ∃ is, ListedFrom 0 is (code.take n)
  longest : ∀ m, n < m → m ≤ code.length → ∀ is, ¬ ListedFrom 0 is (code.take m)

/-- Code that is refused is refused at the end of the longest front part that is listed. -/
theorem longest_of_error (hlen : code.length < 2 ^ 32) (h : decodeAll code = .error e) :
    ∃ n, LongestListed code n ∧ Refused n (code.drop n) e := by
  obtain ⟨front, rest, is, rfl, hfront, hne, hstuck, hrefused⟩ := decodeFrom_error h
  rw [Nat.zero_add] at hrefused
  have hlength : (front ++ rest).length = front.length + rest.length := List.length_append
  refine ⟨front.length, ⟨by omega, ⟨is, ?_⟩, ?_⟩, ?_⟩
  · rw [List.take_left]
    exact listedFrom_of_decodeFrom (by omega) hfront
  · intro m hm hmlen js hjs
    -- a longer listed part would go on with an instruction where none stands
    have htake : (front ++ rest).take m = front ++ rest.take (m - front.length) := by
      rw [List.take_append, List.take_of_length_le hm.le]
    have hlonger := hjs.decodeFrom
    rw [htake, decodeFrom_append hfront] at hlonger
    obtain ⟨more, hmore, -⟩ := map_eq_ok.1 hlonger
    rcases decodeFrom_ok hmore with ⟨hnil, -⟩ | ⟨op, operand, tail, -, ho, htail, -⟩
    · rcases List.take_eq_nil_iff.1 hnil with hzero | hnil
      · omega
      · exact hne hnil
    · refine hstuck ⟨op, operand, tail ++ rest.drop (m - front.length), ho, ?_⟩
      rw [← List.append_assoc, ← htail, List.take_append_drop]
  · rwa [List.drop_left]

/-! ### Written streams -/

/-- What a builder can be asked to append to the code. -/
inductive Emission where
  | push (address : UInt32)
  | pop
  | copy
  | jump (target : UInt32)
  /-- A jump to the address that ends the run. -/
  | halt
  /-- The call of the host function whose signature the slot at the address holds. -/
  | call (signature : UInt32)
  deriving DecidableEq, Repr

namespace Emission

/-- The opcode appended. -/
def opcode : Emission → Opcode
  | push _ => .push
  | pop => .pop
  | copy => .copy
  | jump _ | halt => .jump
  | call _ => .call

/-- The operand appended, if any. -/
def operand : Emission → Option UInt32
  | push x | jump x | call x => some x
  | halt => some haltAddress
  | pop | copy => none

theorem operand_isSome (x : Emission) : x.operand.isSome = x.opcode.hasOperand := by
  cases x <;> rfl

/-- Appends what is asked for. -/
def write (b : Builder) (x : Emission) : Builder :=
  b.emitInstruction x.opcode x.operand

/-- The builder that was asked for one thing after the other. -/
def written (name : String) (xs : List Emission) : Builder :=
  xs.foldl write (.new name)

/-- The instruction that a builder appends when asked. -/
def instruction (b : Builder) (x : Emission) : Instruction :=
  ⟨b.offset, x.opcode, x.operand⟩

/-- What is appended is listed behind what was there. -/
theorem decodeAll_write {b : Builder} {x : Emission} (h : decodeAll b.code = .ok is) :
    decodeAll (write b x).code = .ok (is ++ [x.instruction b]) := by
  have hcode : (write b x).code = b.code ++ (encodeWords x.opcode x.operand ++ []) := by
    rw [List.append_nil]
    rfl
  unfold decodeAll at h ⊢
  rw [hcode, decodeFrom_append h, decodeFrom_encodeWords x.operand_isSome, Nat.zero_add]
  rfl

theorem decodeAll_written (name : String) (xs : List Emission) :
    ∃ is, decodeAll (written name xs).code = .ok is ∧ is.length = xs.length ∧
      ∀ k (x : Emission), xs[k]? = some x →
        is[k]? = some (x.instruction (written name (xs.take k))) := by
  induction xs using List.reverseRecOn with
  | nil => exact ⟨[], rfl, rfl, fun _ _ h => nomatch h⟩
  | append_singleton xs y ih =>
    obtain ⟨is, his, hlength, hat⟩ := ih
    have hwritten : written name (xs ++ [y]) = write (written name xs) y := by
      unfold written
      rw [List.foldl_append]
      rfl
    refine ⟨is ++ [y.instruction (written name xs)], ?_, ?_, fun k x hx => ?_⟩
    · rw [hwritten]
      exact decodeAll_write his
    · rw [List.length_append, List.length_append, hlength]
      rfl
    · by_cases hk : k < xs.length
      · rw [List.getElem?_append_left hk] at hx
        rw [List.getElem?_append_left (by omega), hat k x hx, List.take_append_of_le_length hk.le]
      · obtain ⟨hlt, -⟩ := List.getElem?_eq_some_iff.1 hx
        obtain rfl : k = xs.length := by
          rw [List.length_append, List.length_singleton] at hlt
          omega
        rw [List.getElem?_concat_length] at hx
        cases hx
        rw [← hlength, List.getElem?_concat_length, hlength, List.take_left]

end Emission

/-- Code that fits the offsets is read as a list of instructions exactly if it is the concatenation
of their encodings; otherwise the error names the end of its longest front part that is a
concatenation of instructions, and the undefined word there if a full one stands there. Whatever a
builder is asked to append, one instruction after the other, is read as just that. -/
theorem decodeAll_exact (hlen : code.length < 2 ^ 32) :
    (∀ is, decodeAll code = .ok is ↔ ListedFrom 0 is code) ∧
      ((∀ is, ¬ ListedFrom 0 is code) →
        ∃ n e, decodeAll code = .error e ∧ LongestListed code n ∧ Refused n (code.drop n) e) ∧
      ∀ name (xs : List Emission), ∃ is, decodeAll (Emission.written name xs).code = .ok is ∧
        is.length = xs.length ∧ ∀ k (x : Emission), xs[k]? = some x →
          is[k]? = some (x.instruction (Emission.written name (xs.take k))) := by
  have hiff : ∀ is, decodeAll code = .ok is ↔ ListedFrom 0 is code := fun is =>
    decodeFrom_eq_ok_iff (by rwa [Nat.zero_add])
  refine ⟨hiff, fun hnone => ?_, Emission.decodeAll_written⟩
  rcases h : decodeAll code with e | is
  · obtain ⟨n, hlongest, hrefused⟩ := longest_of_error hlen h
    exact ⟨n, e, rfl, hlongest, hrefused⟩
  · exact absurd ((hiff is).1 h) (hnone is)

/-- A push in front of the word that no opcode has. -/
def strayWord : Bytes :=
  encodeWords .push (some 5) ++ Write.u32 3

theorem decodeAll_exact_stray :
    strayWord.length < 2 ^ 32 ∧ decodeAll strayWord = .error (.invalidOpcode 3 8) ∧
      ∃ n, LongestListed strayWord n ∧ Refused n (strayWord.drop n) (.invalidOpcode 3 8) := by
  have hlen : strayWord.length < 2 ^ 32 := by decide
  have hstray : decodeAll strayWord = .error (.invalidOpcode 3 8) := by cbv
  have hnone : ∀ is, ¬ ListedFrom 0 is strayWord := fun is his => by
    cases hstray.symm.trans his.decodeFrom
  obtain ⟨n, e, he, hlongest, hrefused⟩ := (decodeAll_exact hlen).2.1 hnone
  cases hstray.symm.trans he
  exact ⟨hlen, hstray, n, hlongest, hrefused⟩

end EventVm.Instruction
