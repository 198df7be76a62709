import EventVm.Proofs.Bytes.PrefixStable
import EventVm.Proofs.Program.Header
import EventVm.Proofs.PublicVariables.Stored
import EventVm.Proofs.SemVer.Display

/-!
# Truncated encodings

Every decoder is prefix-stable, since each of its parts is: given a part of an encoding it would
answer as on the whole and leave the missing bytes behind, where on the whole it leaves nothing
(`Reader.PrefixStable.refuses`). Program files and stored public variables are read by several
readers with checks between them; there the bytes left are followed from one part to the next
(`Program.decodeContents_cut`, `PublicVariables.loadEntries_cut`). No checksum is involved, so a
file that was cut is refused with any checksum in front (`Program.decode_fileOf_cut`).

The encodings meant are those in which every length fits the word in front of it (`IsEncodable`); a
longer one is written with the length modulo 2^32, so that a string of 2^32 bytes begins like the
empty string and is accepted when it is cut there (`truncated_string_accepted`).
-/

namespace EventVm

open Reader

/-! ### The decoders -/

theorem TypeTag.stable_decode : PrefixStable TypeTag.decode := by
  refine stable_position fun offset => stable_bind stable_u8 fun tag => ?_
  split
  · exact stable_pure _
  · exact stable_throw _

theorem ObjectRef.stable_decode : PrefixStable ObjectRef.decode := by
  refine stable_position fun offset => stable_bind stable_u8 fun tag => ?_
  split
  · exact stable_map _ stable_u64
  · exact stable_throw _

theorem Value.stable_decode : PrefixStable Value.decode := by
  refine stable_position fun offset => stable_bind stable_u8 fun tag => ?_
  split
  · exact stable_pure _
  · exact stable_map _ stable_u8
  · exact stable_map _ stable_i32
  · exact stable_map _ stable_i64
  · exact stable_map _ stable_u32
  · exact stable_map _ stable_u32
  · exact stable_map _ stable_u64
  · exact stable_map _ stable_string
  · exact stable_map _ ObjectRef.stable_decode
  · exact stable_throw _

theorem Content.stable_decode : PrefixStable Content.decode := by
  refine stable_position fun offset => stable_bind stable_u8 fun tag => ?_
  split
  · exact stable_map _ Value.stable_decode
  · exact stable_map _ TypeTag.stable_decode
  · exact stable_throw _

theorem Slot.stable_decode : PrefixStable Slot.decode :=
  stable_bind TypeTag.stable_decode fun _ => stable_map _ Content.stable_decode

theorem Heap.stable_decode : PrefixStable Heap.decode :=
  stable_bind stable_u32 fun count => stable_map _ (stable_times Slot.stable_decode count.toNat)

theorem Symbol.stable_decode : PrefixStable Symbol.decode :=
  stable_bind stable_string fun _ => stable_bind stable_u32 fun _ =>
    stable_bind TypeTag.stable_decode fun _ => stable_map _ stable_u8

theorem SymbolTable.stable_decode : PrefixStable SymbolTable.decode := by
  refine stable_bind stable_u32 fun count => stable_iterate (fun t => ?_) count.toNat empty
  refine stable_bind Symbol.stable_decode fun s => ?_
  split
  · exact stable_pure _
  · exact stable_throw _

theorem Interpolation.stable_decode : PrefixStable Interpolation.decode := by
  refine stable_position fun offset => stable_bind stable_u8 fun tag => ?_
  split
  · exact stable_pure _
  · exact stable_throw _

theorem SyncTable.stable_decode : PrefixStable SyncTable.decode := by
  refine stable_bind stable_u32 fun count => stable_iterate (fun t => ?_) count.toNat empty
  exact stable_bind stable_string fun _ => stable_map _ Interpolation.stable_decode

/-! ### Program files -/

namespace Program

theorem stable_decodeLabels : PrefixStable decodeLabels :=
  stable_bind stable_string fun _ => stable_bind stable_string fun _ => stable_map _ stable_string

theorem stable_decodeBody (name instructionSet : String) (version : Version) :
    PrefixStable (decodeBody name instructionSet version) :=
  stable_bind stable_blob fun _ => stable_bind Heap.stable_decode fun _ =>
    stable_bind SymbolTable.stable_decode fun _ => stable_bind SymbolTable.stable_decode fun _ =>
      stable_map _ SyncTable.stable_decode

variable {p : Program} {part : Bytes}

/-- What stands behind the header is refused if bytes are missing at its end. -/
theorem decodeContents_cut (h : p.IsEncodable) (hcut : IsCut part p.payload) (position : Nat) :
    ∃ e, decodeContents ⟨position, part⟩ = .error e := by
  obtain ⟨missing, hmissing, hpart⟩ := hcut
  rcases hread : decodeContents ⟨position, part⟩ with e | q
  · exact ⟨e, rfl⟩
  obtain ⟨⟨⟨name, instructionSet, text⟩, c⟩, hlabels, hread⟩ := bind_eq_ok.1 hread
  -- the labels leave the code and the tables, less the missing bytes
  obtain ⟨hread_labels, hleft⟩ := stable_decodeLabels.leaves (takes_decodeLabels h)
    (readPart_eq_ok.1 hlabels) (hpart.trans (payload_eq p))
  cases hread_labels
  dsimp only at hread
  split at hread
  · cases hread
  · next version hversion =>
    -- the version may be another one with the same text
    have h' : { p with version }.IsEncodable :=
      { h with version := by rw [Version.display_of_parse? hversion]; exact h.version }
    obtain ⟨⟨q', c'⟩, hbody, -⟩ := bind_eq_ok.1 hread
    have hnothing := (stable_decodeBody _ _ _).leaves (takes_decodeBody h')
      (readPart_eq_ok.1 hbody) (hleft.trans (List.append_nil _).symm)
    exact absurd (List.append_eq_nil_iff.1 hnothing.2).2 hmissing

/-- A file whose contents were cut is refused behind any header that passes the checks. -/
theorem decode_fileOf_cut (h : p.IsEncodable) (hcut : IsCut part p.payload) (flags : UInt32) :
    ∃ e, decode (fileOf flags part) = .error e := by
  rw [decode_fileOf]
  exact decodeContents_cut h hcut headerSize

/-- A file that was cut is refused. -/
theorem decode_cut (h : p.IsEncodable) (hcut : IsCut part p.encode) :
    ∃ e, decode part = .error e := by
  obtain ⟨missing, hmissing, hpart⟩ := hcut
  rcases hread : decode part with e | q
  · exact ⟨e, rfl⟩
  -- an accepted part would be a header and a cut payload
  obtain ⟨flags, c, rfl, -⟩ := exists_fileOf_of_decode hread
  have hpayload : c.rest ++ missing = p.payload := by
    rw [← drop_headerSize_encode, ← hpart]
    rfl
  obtain ⟨e, he⟩ := decode_fileOf_cut h ⟨missing, hmissing, hpayload⟩ flags
  cases he.symm.trans hread

end Program

/-! ### Stored public variables -/

namespace PublicVariables

variable {c c' : Cursor} {part missing rest : Bytes} {objects : List ObjectRef}
  {vs : List PublicVariable} {t : PublicVariables}

theorem readPart_eq_ok {r : Reader α} {a : α} :
    readPart r c = .ok (a, c') ↔ r.run c = .ok a c' := by
  unfold readPart
  split
  · next h => simp [h]
  · next h => simp [h]

/-- Reading a value of which bytes are missing leaves what follows it, less these bytes. -/
theorem loadValue_leaves {v w : Value} {before : Nat} (hv : v.IsEncodable)
    (hread : loadValue objects c = .ok (w, c'))
    (hc : c.rest ++ missing = encodeValue before v ++ rest) : c'.rest ++ missing = rest := by
  obtain ⟨⟨tag, c₁⟩, htag, hread⟩ := bind_eq_ok.1 hread
  dsimp only at hread
  cases v with
  | object o =>
    obtain ⟨rfl, hleft⟩ := stable_u8.leaves (takes_u8 1) (readPart_eq_ok.1 htag)
      (hc.trans (List.append_assoc ..))
    obtain ⟨⟨index, c₂⟩, hindex, hread⟩ := bind_eq_ok.1 hread
    obtain ⟨-, hleft⟩ := stable_u32.leaves (takes_u32 _) (readPart_eq_ok.1 hindex) hleft
    dsimp only at hread
    split at hread
    · cases hread
      exact hleft
    · cases hread
  | _ =>
    obtain ⟨rfl, hleft⟩ := stable_u8.leaves (takes_u8 0) (readPart_eq_ok.1 htag)
      (hc.trans (List.append_assoc ..))
    exact (Value.stable_decode.leaves (Value.takes_decode hv) (readPart_eq_ok.1 hread) hleft).2

/-- Entries of which bytes are missing are refused, whatever handles are at hand. -/
theorem loadEntries_cut (before : Nat) (hvs : ∀ v ∈ vs, v.IsEncodable)
    (hcut : IsCut c.rest (encodeEntries before vs)) :
    ∃ e, loadEntries objects vs.length t c = .error e := by
  obtain ⟨missing, hmissing, hpart⟩ := hcut
  induction vs generalizing before t c with
  | nil => exact absurd (List.append_eq_nil_iff.1 hpart).2 hmissing
  | cons v vs ih =>
    obtain ⟨hv, hvs⟩ := List.forall_mem_cons.1 hvs
    rw [encodeEntries, encodeEntry_eq, List.append_assoc, List.append_assoc] at hpart
    rcases hread : loadEntries objects (v :: vs).length t c with e | u
    · exact ⟨e, rfl⟩
    obtain ⟨⟨name, c₁⟩, hname, hread⟩ := bind_eq_ok.1 hread
    obtain ⟨-, hleft⟩ := stable_string.leaves (takes_string hv.name) (readPart_eq_ok.1 hname) hpart
    obtain ⟨⟨type, c₂⟩, htype, hread⟩ := bind_eq_ok.1 hread
    obtain ⟨-, hleft⟩ := TypeTag.stable_decode.leaves (TypeTag.takes_decode v.type)
      (readPart_eq_ok.1 htype) hleft
    obtain ⟨⟨value, c₃⟩, hvalue, hread⟩ := bind_eq_ok.1 hread
    have hleft := loadValue_leaves hv.value hvalue hleft
    -- the missing bytes are missing from the entries behind this one
    obtain ⟨e, he⟩ := ih (t := t.insert name type value) _ hvs hleft
    cases he.symm.trans hread

/-- A stored table whose blob was cut is refused, with its own list of handles or any other. -/
theorem load_cut (ht : t.IsEncodable) (hcut : IsCut part t.store.blob) (objects : List ObjectRef) :
    ∃ e, load ⟨part, objects⟩ = .error e := by
  obtain ⟨missing, hmissing, hpart⟩ := hcut
  rcases hread : load ⟨part, objects⟩ with e | u
  · exact ⟨e, rfl⟩
  obtain ⟨⟨version, c₁⟩, hversion, hread⟩ := bind_eq_ok.1 hread
  obtain ⟨rfl, hleft⟩ := stable_u8.leaves (takes_u8 blobVersion) (readPart_eq_ok.1 hversion)
    (hpart.trans (List.append_assoc ..))
  dsimp only at hread
  rw [if_neg (not_not_intro rfl)] at hread
  obtain ⟨⟨count, c₂⟩, hcount, hread⟩ := bind_eq_ok.1 hread
  obtain ⟨rfl, hleft⟩ := stable_u32.leaves (takes_u32 _) (readPart_eq_ok.1 hcount) hleft
  dsimp only at hread
  rw [ht.size.toNat_ofNat] at hread
  obtain ⟨e, he⟩ := loadEntries_cut 0 ht.entries ⟨missing, hmissing, hleft⟩
  cases he.symm.trans hread

end PublicVariables

/-- No encoding from whose end bytes are missing is read back: no value, heap, table or program, and
no stored public variables. For a program that holds also of the contents behind a header that was
made for what is left of them. -/
theorem truncated_refused :
    (∀ v : Value, v.IsEncodable → ∀ part, IsCut part v.encode →
      ∃ e, result Value.decode part = .error e) ∧
    (∀ h : Heap, h.IsEncodable → ∀ part, IsCut part h.encode →
      ∃ e, result Heap.decode part = .error e) ∧
    (∀ t : SymbolTable, t.IsEncodable → ∀ part, IsCut part t.encode →
      ∃ e, result SymbolTable.decode part = .error e) ∧
    (∀ t : SyncTable, t.IsEncodable → ∀ part, IsCut part t.encode →
      ∃ e, result SyncTable.decode part = .error e) ∧
    (∀ p : Program, p.IsEncodable →
      (∀ part, IsCut part p.encode → ∃ e, Program.decode part = .error e) ∧
      ∀ part, IsCut part p.payload → ∀ flags, ∃ e,
        Program.decode (Program.fileOf flags part) = .error e) ∧
    ∀ t : PublicVariables, t.IsEncodable → ∀ part, IsCut part t.store.blob →
      ∃ e, PublicVariables.load ⟨part, t.store.objects⟩ = .error e := by
  refine ⟨fun v hv part hcut => ?_, fun h hh part hcut => ?_, fun t ht part hcut => ?_,
    fun t ht part hcut => ?_, fun p hp => ⟨fun part hcut => ?_, fun part hcut flags => ?_⟩,
    fun t ht part hcut => ?_⟩
  · exact Value.stable_decode.refuses (Value.takes_decode hv) hcut
  · exact Heap.stable_decode.refuses (Heap.takes_decode hh) hcut
  · exact SymbolTable.stable_decode.refuses (SymbolTable.takes_decode ht) hcut
  · exact SyncTable.stable_decode.refuses (SyncTable.takes_decode ht) hcut
  · exact Program.decode_cut hp hcut
  · exact Program.decode_fileOf_cut hp hcut flags
  · exact PublicVariables.load_cut ht hcut t.store.objects

theorem truncated_refused_specimen :
    (∃ e, result Value.decode [7, 2, 0, 0, 0, 104] = .error e) ∧
    (∃ e, Program.decode Program.specimen.encode.dropLast = .error e) ∧
    ∃ e, PublicVariables.load ⟨PublicVariables.furnished.store.blob.take 20,
      PublicVariables.furnished.store.objects⟩ = .error e := by
  obtain ⟨hvalue, -, -, -, hprogram, hvariables⟩ := truncated_refused
  have hspecimen : Program.specimen.IsEncodable := by
    constructor
    case heap | entryPoints | symbols | sync => exact ⟨by decide, by decide⟩
    all_goals decide
  have hfurnished : PublicVariables.furnished.IsEncodable := by
    refine ⟨by decide, fun v hv => ?_⟩
    fin_cases hv <;> exact ⟨by decide, by decide⟩
  have hfile : Program.specimen.encode ≠ [] := by
    rw [Program.encode_eq_fileOf]
    exact List.cons_ne_nil _ _
  refine ⟨?_, ?_, ?_⟩
  · exact hvalue (.string "hi") (by decide) _ ⟨[105], by decide, by decide⟩
  · exact (hprogram _ hspecimen).1 _
      ⟨_, List.cons_ne_nil _ _, List.dropLast_append_getLast hfile⟩
  · exact hvariables _ hfurnished _ ⟨_, by decide, List.take_append_drop 20 _⟩

/-! ### Lengths that do not fit -/

theorem Utf8.length_encode (s : String) : (Utf8.encode s).length = s.utf8ByteSize := by
  rw [Utf8.encode, Array.length_toList]
  rfl

theorem Utf8.length_encode_replicate (n : Nat) (c : Char) :
    (Utf8.encode (String.ofList (List.replicate n c))).length = n * c.utf8Size := by
  rw [Utf8.length_encode]
  induction n with
  | zero => simp
  | succ n ih =>
    rw [List.replicate_succ, String.ofList_cons, String.utf8ByteSize_append,
      String.utf8ByteSize_singleton, ih, Nat.succ_mul, Nat.add_comm]

/-- A string whose length leaves no remainder begins like the empty string. -/
theorem Value.isCut_empty {s : String} (hdvd : 2 ^ 32 ∣ (Utf8.encode s).length)
    (hne : Utf8.encode s ≠ []) : IsCut (Value.string "").encode (Value.string s).encode := by
  have hzero : UInt32.ofNat (Utf8.encode s).length = 0 := by
    rw [← UInt32.toNat_inj, UInt32.toNat_ofNat', Nat.mod_eq_zero_of_dvd hdvd]
    rfl
  have hs : (Value.string s).encode = (Value.string "").encode ++ Utf8.encode s := by
    change Write.u8 7 ++ (Write.u32 (UInt32.ofNat (Utf8.encode s).length) ++ Utf8.encode s) = _
    rw [hzero, ← List.append_assoc]
    rfl
  exact ⟨_, hne, hs.symm⟩

/-- Of a string of 2^32 bytes the first five bytes of its encoding are read as the empty string. -/
theorem truncated_string_accepted :
    IsCut [7, 0, 0, 0, 0] (Value.string (String.ofList (List.replicate (2 ^ 32) 'a'))).encode ∧
      result Value.decode [7, 0, 0, 0, 0] = .ok (.string "") := by
  have hempty : (Value.string "").encode = [7, 0, 0, 0, 0] := by decide
  have hlength : (Utf8.encode (String.ofList (List.replicate (2 ^ 32) 'a'))).length = 2 ^ 32 := by
    have hone : 'a'.utf8Size = 1 := by decide
    rw [Utf8.length_encode_replicate, hone, Nat.mul_one]
  have hne : Utf8.encode (String.ofList (List.replicate (2 ^ 32) 'a')) ≠ [] := by
    rw [← List.length_pos_iff, hlength]
    exact Nat.two_pow_pos 32
  exact ⟨hempty ▸ Value.isCut_empty (dvd_of_eq hlength.symm) hne, by decide⟩

end EventVm
