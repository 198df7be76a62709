import EventVm.Bytes.LittleEndian

/-!
# UTF-8

Strings travel as their UTF-8 bytes. Decoding refuses every byte string that is not the encoding of
some string, so `decode?_encode` and `encode_of_decode?` make the two inverse.
-/

namespace EventVm.Utf8

/-- The UTF-8 bytes of a string. -/
def encode (s : String) : Bytes :=
  s.toUTF8.data.toList

/-- The string with the given UTF-8 bytes, if there is one. -/
def decode? (bytes : Bytes) : Option String :=
  String.fromUTF8? ⟨bytes.toArray⟩

@[simp]
theorem decode?_encode (s : String) : decode? (encode s) = some s := by
  have h : (⟨(encode s).toArray⟩ : ByteArray) = s.toByteArray := by
    simp [encode]
  have hv : s.toByteArray.IsValidUTF8 := s.isValidUTF8
  simp only [decode?, h, String.fromUTF8?, hv, dite_true]
  rfl

theorem encode_of_decode? {bytes : Bytes} {s : String} (h : decode? bytes = some s) :
    encode s = bytes := by
  unfold decode? String.fromUTF8? at h
  split at h
  · cases h; simp [encode, String.fromUTF8]
  · cases h

end EventVm.Utf8
