import EventVm.Bytes.LittleEndian.Lemmas
import EventVm.Bytes.Reader

/-!
# What a reader takes

`Reader.Takes r bytes a` says that `r` takes exactly `bytes` off the front of every stream that
starts with them and answers `a`, from any offset and with anything following. The rules below
follow the way readers are built: sequencing, scalars, blobs and strings, repetition. A decoder that
undoes an encoder is one that takes what the encoder writes.

* `takes_bind`: one reader after the other takes the two strings one after the other;
* `takes_blob`, `takes_string`: a length in front has to fit its word (`IsCount`);
* `takes_times`, `takes_iterate`: an element at a time, with the elements written one after the
  other.
-/

namespace EventVm

/-- A length or a number of entries that the word in front of them can hold. -/
def IsCount (n : Nat) : Prop :=
  n < 2 ^ 32

instance (n : Nat) : Decidable (IsCount n) :=
  inferInstanceAs (Decidable (n < 2 ^ 32))

theorem IsCount.toNat_ofNat {n : Nat} (h : IsCount n) : (UInt32.ofNat n).toNat = n := by
  rw [UInt32.toNat_ofNat', Nat.mod_eq_of_lt h]

namespace Reader

/-- A reader that takes exactly `bytes` off the front of a stream, whatever follows, and answers
`a`. -/
def Takes (r : Reader α) (bytes : Bytes) (a : α) : Prop :=
  ∀ position rest, r.run ⟨position, bytes ++ rest⟩ = .ok a ⟨position + bytes.length, rest⟩

variable {bytes bytes' : Bytes}

/-! ### Sequencing -/

theorem takes_pure (a : α) : Takes (pure a) [] a :=
  fun _ _ => rfl

theorem takes_bind {r : Reader α} {f : α → Reader β} {a : α} {b : β} (hr : Takes r bytes a)
    (hf : Takes (f a) bytes' b) : Takes (r >>= f) (bytes ++ bytes') b := by
  intro position rest
  have h₁ : r ⟨position, bytes ++ (bytes' ++ rest)⟩ =
      .ok a ⟨position + bytes.length, bytes' ++ rest⟩ := hr position (bytes' ++ rest)
  have h₂ : f a ⟨position + bytes.length, bytes' ++ rest⟩ =
      .ok b ⟨position + bytes.length + bytes'.length, rest⟩ :=
    hf (position + bytes.length) rest
  simp only [EStateM.run, bind, EStateM.bind, List.append_assoc, h₁, h₂, List.length_append,
    Nat.add_assoc]

/-- What follows a read may only compute an answer from it, or check it. -/
theorem takes_then {r : Reader α} {f : α → Reader β} {a : α} {b : β} (hr : Takes r bytes a)
    (hf : f a = pure b) : Takes (r >>= f) bytes b := by
  have h := takes_bind (f := f) hr (hf ▸ takes_pure b)
  rwa [List.append_nil] at h

/-- Looking at the offset takes nothing. -/
theorem takes_position {f : Nat → Reader α} {a : α} (h : ∀ offset, Takes (f offset) bytes a) :
    Takes (position >>= f) bytes a :=
  fun offset rest => h offset offset rest

/-! ### Scalars -/

theorem takes_take (bytes : Bytes) : Takes (take bytes.length) bytes bytes := by
  intro position rest
  simp [EStateM.run, take]

theorem takes_unsigned {width n : Nat} (h : n < 256 ^ width) :
    Takes (unsigned width) (littleEndian width n) n := by
  have ht := takes_take (littleEndian width n)
  rw [length_littleEndian] at ht
  exact takes_then ht (congrArg pure (ofLittleEndian_littleEndian h))

theorem takes_u8 (n : UInt8) : Takes u8 (Write.u8 n) n :=
  takes_then (takes_unsigned n.toNat_lt) (congrArg pure UInt8.ofNat_toNat)

theorem takes_u32 (n : UInt32) : Takes u32 (Write.u32 n) n :=
  takes_then (takes_unsigned n.toNat_lt) (congrArg pure UInt32.ofNat_toNat)

theorem takes_u64 (n : UInt64) : Takes u64 (Write.u64 n) n :=
  takes_then (takes_unsigned n.toNat_lt) (congrArg pure UInt64.ofNat_toNat)

theorem takes_i32 (n : Int32) : Takes i32 (Write.i32 n) n :=
  takes_then (takes_u32 n.toUInt32) rfl

theorem takes_i64 (n : Int64) : Takes i64 (Write.i64 n) n :=
  takes_then (takes_u64 n.toUInt64) rfl

/-- A byte written for a Boolean is zero exactly if the Boolean is false. -/
theorem takes_flag {f : Bool → α} (b : Bool) :
    Takes (u8 >>= fun n => pure (f (n != 0))) (Write.flag b) (f b) := by
  refine takes_then (takes_u8 _) ?_
  cases b <;> rfl

/-! ### Blobs and strings -/

theorem takes_blob (h : IsCount bytes.length) : Takes blob (Write.blob bytes) bytes := by
  refine takes_bind (takes_u32 _) ?_
  rw [h.toNat_ofNat]
  exact takes_take bytes

theorem takes_string {s : String} (h : IsCount (Utf8.encode s).length) :
    Takes string (Write.string s) s := by
  refine takes_position fun offset => takes_then (takes_blob h) ?_
  rw [Utf8.decode?_encode]

/-! ### Repetition -/

theorem takes_times_map {r : Reader α} {write : φ → Bytes} {meaning : φ → α} (fs : List φ)
    (h : ∀ f ∈ fs, Takes r (write f) (meaning f)) :
    Takes (times r fs.length) (fs.flatMap write) (fs.map meaning) := by
  induction fs with
  | nil => exact takes_pure []
  | cons f fs ih =>
    have hf := h f List.mem_cons_self
    have hfs := ih fun g hg => h g (List.mem_cons_of_mem f hg)
    exact takes_bind hf (takes_then hfs rfl)

theorem takes_times {r : Reader α} {write : α → Bytes} (as : List α)
    (h : ∀ a ∈ as, Takes r (write a) a) : Takes (times r as.length) (as.flatMap write) as := by
  have ht : Takes (times r as.length) (as.flatMap write) (as.map id) := takes_times_map as h
  rwa [List.map_id] at ht

/-- Reading a collection that grows by one entry a step: `grown s as` says that `s` holds the
entries `as`. -/
theorem takes_iterate {step : σ → Reader σ} {write : α → Bytes} (grown : σ → List α → Prop)
    (as : List α)
    (h : ∀ s before a after, as = before ++ a :: after → grown s before →
      ∃ t, Takes (step s) (write a) t ∧ grown t (before ++ [a])) :
    ∀ s before after, as = before ++ after → grown s before →
      ∃ t, Takes (iterate step after.length s) (after.flatMap write) t ∧ grown t as := by
  intro s before after has hs
  induction after generalizing s before with
  | nil =>
    rw [List.append_nil] at has
    exact ⟨s, takes_pure s, has ▸ hs⟩
  | cons a after ih =>
    obtain ⟨t, ht, hgt⟩ := h s before a after has hs
    obtain ⟨u, hu, hgu⟩ := ih t (before ++ [a]) (by simpa using has) hgt
    exact ⟨u, takes_bind ht hu, hgu⟩

end Reader

end EventVm
