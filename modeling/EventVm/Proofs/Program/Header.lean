import EventVm.Proofs.Bytes.Burst
import EventVm.Proofs.Bytes.Yields
import EventVm.Proofs.Failure
import EventVm.Proofs.Program.Container

/-!
# The checks of a program file

Reading a file comes in two parts. The header is checked word by word, each check made only when the
ones before it have passed (`decode_of_length`); a file that is too short for a header is refused.
What stands behind an accepted header is read as the contents of the program
(`Program.decodeContents`), which are those of the program that was written there
(`decodeContents_payload`).
-/

namespace EventVm.Program

open Reader

/-- The program in the stream behind the header. -/
def decodeContents (c : Cursor) : Except ContainerError Program := do
  let ((name, instructionSet, text), c) ← readPart decodeLabels c
  match Version.parse? text with
  | none => throw (.invalidVersion text)
  | some version =>
    let (p, _) ← readPart (decodeBody name instructionSet version) c
    return p

/-- The contents of an encodable program, whatever follows them, are read back as the program. -/
theorem decodeContents_payload {p : Program} (h : p.IsEncodable)
    (hv : Version.parse? p.version.display = some p.version) (position : Nat) (rest : Bytes) :
    decodeContents ⟨position, p.payload ++ rest⟩ = .ok p := by
  have hlabels := readPart_of_takes (takes_decodeLabels h) position (p.body ++ rest)
  have hbody := readPart_of_takes (takes_decodeBody h) (position + p.labels.length) rest
  rw [payload_eq, List.append_assoc]
  simp only [decodeContents, hlabels, hv, hbody, bind, Except.bind, pure, Except.pure]

/-! ### The header -/

theorem run_take {c : Cursor} {count : Nat} (h : count ≤ c.rest.length) :
    (take count).run c = .ok (c.rest.take count) ⟨c.position + count, c.rest.drop count⟩ :=
  if_pos (by rw [List.length_take, Nat.min_eq_left h])

theorem readPart_take {c : Cursor} {count : Nat} (h : count ≤ c.rest.length) :
    readPart (take count) c =
      .ok (c.rest.take count, ⟨c.position + count, c.rest.drop count⟩) := by
  rw [readPart, run_take h]

/-- A word of the file is read at its offset. -/
theorem readPart_u32 {file : Bytes} {offset : Nat} (h : offset + 4 ≤ file.length) :
    readPart u32 ⟨offset, file.drop offset⟩ =
      .ok (wordAt offset file, ⟨offset + 4, file.drop (offset + 4)⟩) := by
  have hlength : 4 ≤ (file.drop offset).length := by
    rw [List.length_drop]
    omega
  have ht : take 4 ⟨offset, file.drop offset⟩ = _ := run_take hlength
  rw [List.drop_drop] at ht
  simp only [readPart, u32, unsigned, EStateM.run, bind, EStateM.bind, ht, pure, EStateM.pure]
  rfl

/-- The checks of a file that is long enough for a header, in their order. -/
theorem decode_of_length {file : Bytes} (h : headerSize ≤ file.length) :
    decode file =
      if file.take 4 ≠ magic then .error (.invalidMagic (file.take 4))
      else if wordAt 4 file ≠ formatVersion then .error (.unsupportedFormat (wordAt 4 file))
      else if wordAt 12 file ≠ Crc32.checksum (file.drop headerSize) then
        .error (.checksumMismatch (wordAt 12 file) (Crc32.checksum (file.drop headerSize)))
      else decodeContents ⟨headerSize, file.drop headerSize⟩ := by
  have hlength : 16 ≤ file.length := h
  have hword : ∀ offset, offset ≤ 12 → readPart u32 ⟨offset, file.drop offset⟩ =
      .ok (wordAt offset file, ⟨offset + 4, file.drop (offset + 4)⟩) :=
    fun offset ho => readPart_u32 (by omega)
  have hmagic : readPart (take 4) (.start file) = .ok (file.take 4, ⟨0 + 4, file.drop 4⟩) :=
    readPart_take (c := .start file) (Nat.le_trans (by decide) h)
  have hformat := hword 4 (by decide)
  have hflags := hword 8 (by decide)
  have hstored := hword 12 (by decide)
  simp only [decode, hmagic, hformat, hflags, hstored, bind, Except.bind, pure, Except.pure,
    throw, throwThe, MonadExceptOf.throw]
  split
  case isTrue => rfl
  split
  case isTrue => rfl
  split
  case isTrue => rfl
  rfl

/-! ### Accepted headers -/

/-- The file with the given flags and contents, with the header that passes every check. -/
def fileOf (flags : UInt32) (contents : Bytes) : Bytes :=
  magic ++ (Write.u32 formatVersion ++ (Write.u32 flags ++
    (Write.u32 (Crc32.checksum contents) ++ contents)))

theorem encode_eq_fileOf (p : Program) : p.encode = fileOf 0 p.payload := by
  simp only [encode, header, fileOf, List.append_assoc]

theorem drop_headerSize_fileOf (flags : UInt32) (contents : Bytes) :
    (fileOf flags contents).drop headerSize = contents :=
  rfl

theorem readPart_eq_ok {r : Reader α} {c c' : Cursor} {a : α} :
    readPart r c = .ok (a, c') ↔ r.run c = .ok a c' := by
  unfold readPart
  split
  case h_1 a' c'' h => simp [h]
  case h_2 e c'' h => simp [h]

/-- Behind a header that passes every check, the contents are read. -/
theorem decode_fileOf (flags : UInt32) (contents : Bytes) :
    decode (fileOf flags contents) = decodeContents ⟨headerSize, contents⟩ := by
  have hsum : Crc32.checksum ((fileOf flags contents).drop headerSize) =
      Crc32.checksum contents := by
    rw [drop_headerSize_fileOf]
  have hmagic : ∀ rest, readPart (take 4) ⟨0, magic ++ rest⟩ = .ok (magic, ⟨4, rest⟩) :=
    readPart_of_takes (takes_take magic) 0
  have hword := fun n => readPart_of_takes (takes_u32 n)
  simp only [decode, hsum]
  simp only [fileOf, Cursor.start, hmagic, hword, bind, Except.bind, ne_eq, not_true_eq_false,
    if_false]
  rfl

/-- The header of an accepted file leaves a choice of the flags only. -/
theorem exists_fileOf_of_decode {file : Bytes} {p : Program} (h : decode file = .ok p) :
    ∃ flags c, file = fileOf flags c.rest ∧ decodeContents c = .ok p := by
  obtain ⟨⟨word, c₁⟩, h₁, h⟩ := bind_eq_ok.1 h
  dsimp only at h
  split at h
  case isTrue => cases h
  case isFalse hmagic =>
  obtain ⟨⟨format, c₂⟩, h₂, h⟩ := bind_eq_ok.1 h
  dsimp only at h
  split at h
  case isTrue => cases h
  case isFalse hformat =>
  obtain ⟨⟨flags, c₃⟩, h₃, h⟩ := bind_eq_ok.1 h
  dsimp only at h
  obtain ⟨⟨stored, c₄⟩, h₄, h⟩ := bind_eq_ok.1 h
  dsimp only at h
  split at h
  case isTrue => cases h
  case isFalse hstored =>
  obtain ⟨_, hrest₁, rfl, -⟩ := yields_take 4 _ _ _ (readPart_eq_ok.1 h₁)
  obtain ⟨_, hrest₂, rfl⟩ := yields_u32 _ _ _ (readPart_eq_ok.1 h₂)
  obtain ⟨_, hrest₃, rfl⟩ := yields_u32 _ _ _ (readPart_eq_ok.1 h₃)
  obtain ⟨_, hrest₄, rfl⟩ := yields_u32 _ _ _ (readPart_eq_ok.1 h₄)
  rw [not_not] at hmagic hformat hstored
  subst hmagic hformat
  have hfile : file = magic ++ (Write.u32 formatVersion ++ (Write.u32 flags ++
      (Write.u32 stored ++ c₄.rest))) := by
    rw [← hrest₄, ← hrest₃, ← hrest₂, ← hrest₁]
    rfl
  have hdrop : file.drop headerSize = c₄.rest := by
    rw [hfile]
    rfl
  rw [hdrop] at hstored
  refine ⟨flags, c₄, ?_, h⟩
  rw [fileOf, ← hstored, hfile]

/-! ### The header of a written file -/

section Written

variable (p : Program)

theorem length_encode : p.encode.length = headerSize + p.payload.length := by
  rw [encode, List.length_append, length_header]

theorem take_magic_encode : p.encode.take 4 = magic := by
  rw [encode, header, List.append_assoc, List.append_assoc, List.append_assoc]
  exact List.take_left' (by rfl)

theorem drop_headerSize_encode : p.encode.drop headerSize = p.payload := by
  rw [encode_eq_fileOf, drop_headerSize_fileOf]

/-- A word that was written is the word there. -/
theorem wordAt_append {offset : Nat} {before rest : Bytes} {n : UInt32}
    (h : before.length = offset) : wordAt offset (before ++ (Write.u32 n ++ rest)) = n := by
  have hlength : (Write.u32 n).length = 4 := length_littleEndian 4 _
  rw [wordAt, ← h, List.drop_left, ← hlength, List.take_left, Write.u32,
    ofLittleEndian_littleEndian n.toNat_lt, UInt32.ofNat_toNat]

theorem wordAt_format_encode : wordAt 4 p.encode = formatVersion := by
  simp only [encode, header, List.append_assoc]
  exact wordAt_append rfl

theorem wordAt_checksum_encode : wordAt 12 p.encode = Crc32.checksum p.payload := by
  rw [encode, header, List.append_assoc]
  exact wordAt_append rfl

end Written

end EventVm.Program
