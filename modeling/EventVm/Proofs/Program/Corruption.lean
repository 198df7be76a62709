import EventVm.Proofs.Bytes.Crc32
import EventVm.Proofs.Program.Header

/-!
# Damaged program files

Damage to a program file is found or does no harm (`decode_damaged`). Within four consecutive bytes
of the payload it changes the checksum (`Crc32.checksum_ne_of_burst`), in a word of the header it is
found by the check of that word, and the flags are not read.
-/

namespace EventVm.Program

/-- What is read of a file in which some bytes of the file of an encodable program were changed:
only bytes of one window of four in the payload; only bytes of the stored checksum, of the format
version or of the flags; any bytes, but some of the magic number. -/
theorem decode_damaged {p : Program} {d : Bytes} (h : p.IsEncodable)
    (hv : Version.parse? p.version.display = some p.version) :
    (∀ first, headerSize ≤ first → Burst first 4 p.encode d →
      decode d = .error
        (.checksumMismatch (Crc32.checksum p.payload) (Crc32.checksum (d.drop headerSize)))) ∧
    (Burst 12 4 p.encode d →
      decode d = .error (.checksumMismatch (wordAt 12 d) (Crc32.checksum p.payload))) ∧
    (Burst 4 4 p.encode d → decode d = .error (.unsupportedFormat (wordAt 4 d))) ∧
    (d.length = p.encode.length → d.take 4 ≠ p.encode.take 4 →
      decode d = .error (.invalidMagic (d.take 4))) ∧
    (Burst 8 4 p.encode d → decode d = .ok p) := by
  have hlong : headerSize ≤ p.encode.length := by
    rw [length_encode]
    exact Nat.le_add_right _ _
  have hdecode : d.length = p.encode.length → _ := fun hl => decode_of_length (hl ▸ hlong)
  refine ⟨?payload, ?checksum, ?format, ?magic, ?flags⟩
  case payload =>
    intro first hfirst hb
    have h16 : 16 ≤ first := hfirst
    have hsum := Crc32.checksum_ne_of_burst (hb.drop hfirst)
    rw [drop_headerSize_encode] at hsum
    rw [hdecode hb.length_eq, hb.take_eq (by omega), take_magic_encode,
      hb.wordAt_eq_of_before (by omega), wordAt_format_encode,
      hb.wordAt_eq_of_before (by omega), wordAt_checksum_encode]
    rw [if_neg (not_not.2 rfl), if_neg (not_not.2 rfl), if_pos hsum.symm]
  case checksum =>
    intro hb
    have hsum := hb.wordAt_ne
    rw [wordAt_checksum_encode] at hsum
    rw [hdecode hb.length_eq, hb.take_eq (by decide), take_magic_encode,
      hb.wordAt_eq_of_before (by decide), wordAt_format_encode, hb.drop_eq (by decide),
      drop_headerSize_encode]
    rw [if_neg (not_not.2 rfl), if_neg (not_not.2 rfl), if_pos hsum]
  case format =>
    intro hb
    have hformat := hb.wordAt_ne
    rw [wordAt_format_encode] at hformat
    rw [hdecode hb.length_eq, hb.take_eq (by decide), take_magic_encode]
    rw [if_neg (not_not.2 rfl), if_pos hformat]
  case magic =>
    intro hl hmagic
    rw [take_magic_encode] at hmagic
    rw [hdecode hl, if_pos hmagic]
  case flags =>
    intro hb
    have hcontents := decodeContents_payload h hv headerSize []
    rw [List.append_nil] at hcontents
    rw [hdecode hb.length_eq, hb.take_eq (by decide), take_magic_encode,
      hb.wordAt_eq_of_before (by decide), wordAt_format_encode,
      hb.wordAt_eq_of_behind (by decide), wordAt_checksum_encode, hb.drop_eq (by decide),
      drop_headerSize_encode]
    rw [if_neg (not_not.2 rfl), if_neg (not_not.2 rfl), if_neg (not_not.2 rfl), hcontents]

/-- The lowest bit of a byte flipped, in each part of the specimen's file. -/
theorem decode_damaged_specimen :
    let damaged offset := specimen.encode.modify offset (· ^^^ 1)
    decode (damaged 40) = .error (.checksumMismatch (Crc32.checksum specimen.payload)
      (Crc32.checksum ((damaged 40).drop headerSize))) ∧
    decode (damaged 13) = .error
      (.checksumMismatch (wordAt 12 (damaged 13)) (Crc32.checksum specimen.payload)) ∧
    decode (damaged 5) = .error (.unsupportedFormat 0x101) ∧
    decode (damaged 0) = .error (.invalidMagic [0x54, 0x44, 0x4F, 0x4E]) ∧
    decode (damaged 11) = .ok specimen := by
  intro damaged
  have h : specimen.IsEncodable := by
    constructor
    case heap | entryPoints | symbols | sync => exact ⟨by decide, by decide⟩
    all_goals decide
  have hv : Version.parse? specimen.version.display = some specimen.version := by cbv
  have hburst : ∀ first offset, first ≤ offset → offset < first + 4 → offset < 41 →
      Burst first 4 specimen.encode (damaged offset) := by
    intro first offset hfirst hlast ho
    have hpayload : 25 ≤ specimen.payload.length := by decide +kernel
    refine Burst.of_modify ?_ hfirst hlast ?_
    · intro b hb
      exact absurd ((UInt8.xor_right_inj b).1 (hb.trans UInt8.xor_zero.symm)) (by decide)
    · rw [length_encode, headerSize]
      omega
  refine ⟨(decode_damaged h hv).1 40 (by decide) (hburst 40 40 (by decide) (by decide) (by decide)),
    (decode_damaged h hv).2.1 (hburst 12 13 (by decide) (by decide) (by decide)),
    ((decode_damaged h hv).2.2.1 (hburst 4 5 (by decide) (by decide) (by decide))).trans ?format,
    ((decode_damaged h hv).2.2.2.1 (by simp [damaged]) ?changed).trans ?magic,
    (decode_damaged h hv).2.2.2.2 (hburst 8 11 (by decide) (by decide) (by decide))⟩
  case format => exact congrArg (Except.error ∘ ContainerError.unsupportedFormat) (by decide)
  case magic => exact congrArg (Except.error ∘ ContainerError.invalidMagic) (by decide)
  case changed => decide

end EventVm.Program
