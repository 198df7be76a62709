import EventVm.Proofs.Bytes.Yields
import EventVm.Value.Basic

/-!
# Values in a byte stream

The decoders of types, handles and values take exactly what the encoders write. A value is its bits,
so a floating-point number comes back with its sign of zero and its payload. Only the length of a
string is limited.

Whatever else they take is a Boolean with a byte that is neither zero nor one
(`Value.yields_decode`): everything that is accepted is otherwise what is written for the answer.
-/

namespace EventVm

open Reader

theorem TypeTag.takes_decode (t : TypeTag) : Takes TypeTag.decode t.encode t := by
  refine takes_position fun offset => takes_then (takes_u8 t.code) ?_
  rw [ofCode?_code]

theorem ObjectRef.takes_decode (o : ObjectRef) : Takes ObjectRef.decode o.encode o := by
  refine takes_position fun offset => takes_bind (takes_u8 o.kind.code) ?_
  rw [ObjectKind.ofCode?_code]
  exact takes_then (takes_u64 o.id) rfl

theorem TypeTag.code_of_ofCode? {b : UInt8} {t : TypeTag} (h : ofCode? b = some t) :
    t.code = b := by
  obtain ⟨hb, ht⟩ := List.getElem?_eq_some_iff.1 h
  have hcodes : ∀ n (hn : n < all.length), (all[n].code).toNat = n := by decide
  rw [← UInt8.toNat_inj, ← ht, hcodes]

theorem ObjectKind.code_of_ofCode? {b : UInt8} {k : ObjectKind} (h : ofCode? b = some k) :
    k.code = b := by
  obtain ⟨hb, hk⟩ := List.getElem?_eq_some_iff.1 h
  have hcodes : ∀ n (hn : n < all.length), (all[n].code).toNat = n := by decide
  rw [← UInt8.toNat_inj, ← hk, hcodes]

theorem TypeTag.yields_decode : Yields TypeTag.decode fun bytes t => bytes = t.encode := by
  refine yields_position fun offset => yields_bind yields_u8 ?_
  rintro tag _ rfl
  split
  case h_2 => exact yields_throw _
  case h_1 t ht =>
    refine yields_pure ?_
    rw [List.append_nil, encode, code_of_ofCode? ht]

theorem ObjectRef.yields_decode : Yields ObjectRef.decode fun bytes o => bytes = o.encode := by
  refine yields_position fun offset => yields_bind yields_u8 ?_
  rintro tag _ rfl
  split
  case h_2 => exact yields_throw _
  case h_1 kind hkind =>
    refine yields_map yields_u64 ?_
    rintro id _ rfl
    rw [encode, ObjectKind.code_of_ofCode? hkind]

namespace Value

/-- Whether the length of the value, if it is a string, fits the word in front of it. -/
def IsEncodable : Value → Prop
  | string s => IsCount (Utf8.encode s).length
  | _ => True

instance : DecidablePred IsEncodable
  | string s => inferInstanceAs (Decidable (IsCount (Utf8.encode s).length))
  | null | boolean _ | int32 _ | int64 _ | uint32 _ | single _ | double _ | object _ =>
    .isTrue trivial

/-- The tag selects the reader of the payload. -/
theorem takes_decode {v : Value} (h : v.IsEncodable) : Takes Value.decode v.encode v := by
  refine takes_position fun offset => takes_bind (takes_u8 v.tag) ?_
  cases v with
  | null => exact takes_pure null
  | boolean b => exact takes_flag b
  | int32 i => exact takes_then (takes_i32 i) rfl
  | int64 i => exact takes_then (takes_i64 i) rfl
  | uint32 n => exact takes_then (takes_u32 n) rfl
  | single bits => exact takes_then (takes_u32 bits) rfl
  | double bits => exact takes_then (takes_u64 bits) rfl
  | string s => exact takes_then (takes_string h) rfl
  | object o => exact takes_then (ObjectRef.takes_decode o) rfl

/-- The byte of a Boolean is the only one that the value does not tell. -/
theorem yields_decode : Yields Value.decode fun bytes v => v.IsEncodable ∧
    (bytes = v.encode ∨
      ∃ byte, bytes = Write.u8 1 ++ Write.u8 byte ∧ v = .boolean (byte != 0)) := by
  refine yields_position fun offset => yields_bind yields_u8 ?_
  rintro tag _ rfl
  split
  case h_1 => exact yields_pure ⟨trivial, .inl (by rw [List.append_nil]; rfl)⟩
  case h_2 =>
    refine yields_map yields_u8 ?_
    rintro byte _ rfl
    exact ⟨trivial, .inr ⟨byte, rfl, rfl⟩⟩
  case h_3 =>
    refine yields_map yields_i32 ?_
    rintro i _ rfl
    exact ⟨trivial, .inl rfl⟩
  case h_4 =>
    refine yields_map yields_i64 ?_
    rintro i _ rfl
    exact ⟨trivial, .inl rfl⟩
  case h_5 | h_6 =>
    refine yields_map yields_u32 ?_
    rintro n _ rfl
    exact ⟨trivial, .inl rfl⟩
  case h_7 =>
    refine yields_map yields_u64 ?_
    rintro bits _ rfl
    exact ⟨trivial, .inl rfl⟩
  case h_8 =>
    refine yields_map yields_string ?_
    rintro s _ ⟨rfl, hs⟩
    exact ⟨hs, .inl rfl⟩
  case h_9 =>
    refine yields_map ObjectRef.yields_decode ?_
    rintro o _ rfl
    exact ⟨trivial, .inl rfl⟩
  case h_10 => exact yields_throw _

end Value

end EventVm
