import EventVm.Bytes.LittleEndian.Lemmas
import EventVm.Proofs.Bytes.Takes

/-!
# What a reader has taken

`Reader.Yields r P` says that whenever `r` answers, the bytes that it took off the front of the
stream and the answer are related by `P`. This is the other direction of `Reader.Takes`: it says of
every stream that is accepted, not only of the written ones, how it starts. The rules follow the way
readers are built.

Scalars, blobs and strings leave no choice: what was taken is what is written for the answer, and a
length fits its word (`yields_u32`, `yields_blob`, `yields_string`).
-/

namespace EventVm.Reader

/-- Whenever `r` answers, `P` holds of the bytes it took and of the answer. -/
def Yields (r : Reader α) (P : Bytes → α → Prop) : Prop :=
  ∀ c a c', r.run c = .ok a c' → ∃ bytes, c.rest = bytes ++ c'.rest ∧ P bytes a

variable {r : Reader α} {P Q : Bytes → α → Prop}

/-! ### Sequencing -/

theorem Yields.mono (h : Yields r P) (hPQ : ∀ bytes a, P bytes a → Q bytes a) : Yields r Q := by
  intro c a c' hrun
  obtain ⟨bytes, hrest, hP⟩ := h c a c' hrun
  exact ⟨bytes, hrest, hPQ bytes a hP⟩

theorem yields_pure {a : α} (h : P [] a) : Yields (pure a) P := by
  intro c b c' hrun
  cases hrun
  exact ⟨[], rfl, h⟩

theorem yields_throw (e : DecodeError) : Yields (throw e : Reader α) P := by
  intro c a c' hrun
  cases hrun

theorem yields_bind {f : α → Reader β} {Q : Bytes → β → Prop} (hr : Yields r P)
    (hf : ∀ a bytes, P bytes a → Yields (f a) fun bytes' b => Q (bytes ++ bytes') b) :
    Yields (r >>= f) Q := by
  intro c b c' hrun
  simp only [EStateM.run, bind, EStateM.bind] at hrun
  split at hrun
  case h_2 => cases hrun
  case h_1 a c₁ hr₁ =>
    obtain ⟨bytes, hrest, hP⟩ := hr c a c₁ hr₁
    obtain ⟨bytes', hrest', hQ⟩ := hf a bytes hP c₁ b c' hrun
    exact ⟨bytes ++ bytes', by rw [hrest, hrest', List.append_assoc], hQ⟩

/-- What follows a read only computes an answer from it. -/
theorem yields_map {f : α → β} {Q : Bytes → β → Prop} (hr : Yields r P)
    (hf : ∀ a bytes, P bytes a → Q bytes (f a)) : Yields (r >>= fun a => pure (f a)) Q := by
  refine yields_bind hr fun a bytes hP => yields_pure ?_
  rw [List.append_nil]
  exact hf a bytes hP

theorem yields_position {f : Nat → Reader α} (h : ∀ offset, Yields (f offset) P) :
    Yields (position >>= f) P :=
  fun c => h c.position c

/-! ### Scalars -/

theorem yields_take (count : Nat) :
    Yields (take count) fun bytes taken => taken = bytes ∧ bytes.length = count := by
  intro c taken c' hrun
  simp only [EStateM.run, take] at hrun
  split at hrun
  case isFalse => cases hrun
  case isTrue hlength =>
    cases hrun
    exact ⟨_, (List.take_append_drop count c.rest).symm, rfl, hlength⟩

theorem yields_unsigned (width : Nat) :
    Yields (unsigned width) fun bytes n => bytes = littleEndian width n ∧ n < 256 ^ width := by
  refine yields_map (yields_take width) ?_
  rintro taken _ ⟨rfl, rfl⟩
  exact ⟨(littleEndian_ofLittleEndian taken).symm, ofLittleEndian_lt taken⟩

theorem yields_u8 : Yields u8 fun bytes n => bytes = Write.u8 n := by
  refine yields_map (yields_unsigned 1) ?_
  rintro n bytes ⟨rfl, hn⟩
  rw [Write.u8, UInt8.toNat_ofNat', Nat.mod_eq_of_lt (show n < 2 ^ 8 from hn)]

theorem yields_u32 : Yields u32 fun bytes n => bytes = Write.u32 n := by
  refine yields_map (yields_unsigned 4) ?_
  rintro n bytes ⟨rfl, hn⟩
  rw [Write.u32, UInt32.toNat_ofNat', Nat.mod_eq_of_lt (show n < 2 ^ 32 from hn)]

theorem yields_u64 : Yields u64 fun bytes n => bytes = Write.u64 n := by
  refine yields_map (yields_unsigned 8) ?_
  rintro n bytes ⟨rfl, hn⟩
  rw [Write.u64, UInt64.toNat_ofNat', Nat.mod_eq_of_lt (show n < 2 ^ 64 from hn)]

theorem yields_i32 : Yields i32 fun bytes n => bytes = Write.i32 n := by
  refine yields_map yields_u32 ?_
  rintro n _ rfl
  rfl

theorem yields_i64 : Yields i64 fun bytes n => bytes = Write.i64 n := by
  refine yields_map yields_u64 ?_
  rintro n _ rfl
  rfl

/-! ### Blobs and strings -/

theorem yields_blob :
    Yields blob fun bytes taken => bytes = Write.blob taken ∧ IsCount taken.length := by
  refine yields_bind yields_u32 ?_
  rintro length _ rfl
  refine (yields_take length.toNat).mono ?_
  rintro bytes _ ⟨rfl, hlength⟩
  constructor
  · rw [Write.blob, Write.count, hlength, UInt32.ofNat_toNat]
  · rw [hlength]
    exact length.toNat_lt

theorem yields_string :
    Yields string fun bytes s => bytes = Write.string s ∧ IsCount (Utf8.encode s).length := by
  refine yields_position fun offset => yields_bind yields_blob ?_
  rintro taken _ ⟨rfl, hlength⟩
  split
  case h_2 => exact yields_throw _
  case h_1 s hs =>
    obtain rfl := Utf8.encode_of_decode? hs
    refine yields_pure ⟨?_, hlength⟩
    rw [List.append_nil, Write.string]

/-! ### Repetition

Each element is read as one of its forms: `spelling form` are the bytes that `form` is written in,
`IsForm` says which forms there are. -/

section Repetition

variable {φ : Type} {IsForm : φ → Prop} {spelling : φ → Bytes}

theorem yields_times {meaning : φ → α}
    (h : Yields r fun bytes a => ∃ f, IsForm f ∧ bytes = spelling f ∧ a = meaning f) (count : Nat) :
    Yields (times r count) fun bytes as => ∃ fs : List φ, fs.length = count ∧ (∀ f ∈ fs, IsForm f) ∧
      bytes = fs.flatMap spelling ∧ as = fs.map meaning := by
  induction count with
  | zero => exact yields_pure ⟨[], rfl, by simp, rfl, rfl⟩
  | succ count ih =>
    refine yields_bind h ?_
    rintro _ _ ⟨f, hf, rfl, rfl⟩
    refine yields_map ih ?_
    rintro _ _ ⟨fs, rfl, hfs, rfl, rfl⟩
    exact ⟨f :: fs, rfl, by simpa using ⟨hf, hfs⟩, rfl, rfl⟩

/-- Reading a collection that grows by one entry a step: `grown s fs` says that `s` holds what the
entries `fs` say. -/
theorem yields_iterate {step : σ → Reader σ} (grown : σ → List φ → Prop)
    (h : ∀ s before, grown s before →
      Yields (step s) fun bytes t => ∃ f, IsForm f ∧ bytes = spelling f ∧ grown t (before ++ [f])) :
    ∀ count s before, grown s before →
      Yields (iterate step count s) fun bytes t => ∃ fs : List φ, fs.length = count ∧
        (∀ f ∈ fs, IsForm f) ∧ bytes = fs.flatMap spelling ∧ grown t (before ++ fs) := by
  intro count
  induction count with
  | zero =>
    intro s before hs
    exact yields_pure ⟨[], rfl, by simp, rfl, by rwa [List.append_nil]⟩
  | succ count ih =>
    intro s before hs
    refine yields_bind (h s before hs) ?_
    rintro t _ ⟨f, hf, rfl, ht⟩
    refine (ih t (before ++ [f]) ht).mono ?_
    rintro _ u ⟨fs, rfl, hfs, rfl, hu⟩
    exact ⟨f :: fs, rfl, by simpa using ⟨hf, hfs⟩, rfl, by simpa using hu⟩

end Repetition

end EventVm.Reader
