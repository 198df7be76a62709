import EventVm.Proofs.Bytes.Takes

/-!
# Prefix-stable readers

A reader is prefix-stable if it stays with an answer once it has given it: with more bytes at the end
of the stream it answers the same and leaves these bytes behind. The rules follow the way readers are
built, down to `take`, the only reader that looks at the stream; what decides is that it never asks
how much is left.

A prefix-stable reader that takes an encoding cannot answer on a part of it: with the missing bytes
put back it would leave them behind (`PrefixStable.refuses`).
-/

namespace EventVm.Reader

/-- Whether an answer stays the same when the stream goes on. -/
def PrefixStable (r : Reader α) : Prop :=
  ∀ c a c' more, r.run c = .ok a c' →
    r.run ⟨c.position, c.rest ++ more⟩ = .ok a ⟨c'.position, c'.rest ++ more⟩

variable {r : Reader α}

/-! ### Sequencing -/

theorem stable_pure (a : α) : PrefixStable (pure a) := by
  intro c b c' more h
  cases h
  rfl

theorem stable_throw (e : DecodeError) : PrefixStable (throw e : Reader α) := by
  intro c a c' more h
  cases h

theorem stable_bind {f : α → Reader β} (hr : PrefixStable r) (hf : ∀ a, PrefixStable (f a)) :
    PrefixStable (r >>= f) := by
  intro c b c' more h
  simp only [EStateM.run, bind, EStateM.bind] at h ⊢
  rcases hrun : r c with ⟨a, c₁⟩ | ⟨e, c₁⟩
  · rw [hrun] at h
    have hmore : r ⟨c.position, c.rest ++ more⟩ = .ok a ⟨c₁.position, c₁.rest ++ more⟩ :=
      hr c a c₁ more hrun
    rw [hmore]
    exact hf a c₁ b c' more h
  · rw [hrun] at h
    cases h

theorem stable_map (f : α → β) (hr : PrefixStable r) :
    PrefixStable (r >>= fun a => pure (f a)) :=
  stable_bind hr fun a => stable_pure (f a)

theorem stable_position {f : Nat → Reader α} (h : ∀ offset, PrefixStable (f offset)) :
    PrefixStable (position >>= f) :=
  fun c => h c.position c

/-! ### Scalars, blobs and strings -/

theorem stable_take (count : Nat) : PrefixStable (take count) := by
  intro c taken c' more h
  simp only [EStateM.run, take] at h ⊢
  split at h
  · next hlength =>
    cases h
    have hle : count ≤ c.rest.length := by
      rw [List.length_take] at hlength
      omega
    rw [List.take_append_of_le_length hle, List.drop_append_of_le_length hle, if_pos hlength]
  · cases h

theorem stable_unsigned (width : Nat) : PrefixStable (unsigned width) :=
  stable_map _ (stable_take width)

theorem stable_u8 : PrefixStable u8 :=
  stable_map _ (stable_unsigned 1)

theorem stable_u32 : PrefixStable u32 :=
  stable_map _ (stable_unsigned 4)

theorem stable_u64 : PrefixStable u64 :=
  stable_map _ (stable_unsigned 8)

theorem stable_i32 : PrefixStable i32 :=
  stable_map _ stable_u32

theorem stable_i64 : PrefixStable i64 :=
  stable_map _ stable_u64

theorem stable_blob : PrefixStable blob :=
  stable_bind stable_u32 fun length => stable_take length.toNat

theorem stable_string : PrefixStable string := by
  refine stable_position fun offset => stable_bind stable_blob fun bytes => ?_
  split
  · exact stable_pure _
  · exact stable_throw _

/-! ### Repetition -/

theorem stable_times (hr : PrefixStable r) (count : Nat) : PrefixStable (times r count) := by
  induction count with
  | zero => exact stable_pure []
  | succ count ih => exact stable_bind hr fun a => stable_map (a :: ·) ih

theorem stable_iterate {step : σ → Reader σ} (h : ∀ s, PrefixStable (step s)) (count : Nat) (s : σ) :
    PrefixStable (iterate step count s) := by
  induction count generalizing s with
  | zero => exact stable_pure s
  | succ count ih => exact stable_bind (h s) ih

/-! ### Parts of an encoding -/

/-- Whether bytes at the end of `bytes`, at least one, are missing from `part`. -/
def IsCut (part bytes : Bytes) : Prop :=
  ∃ missing, missing ≠ [] ∧ part ++ missing = bytes

variable {bytes part missing rest : Bytes} {a b : α} {c c' : Cursor}

/-- On a stream from whose end bytes are missing, a reader that takes `bytes` answers no other way
than on the whole stream, and leaves what it leaves there without the missing bytes. -/
theorem PrefixStable.leaves (hr : PrefixStable r) (ht : Takes r bytes a) (hrun : r.run c = .ok b c')
    (hc : c.rest ++ missing = bytes ++ rest) : b = a ∧ c'.rest ++ missing = rest := by
  have hwhole := hr c b c' missing hrun
  rw [hc, ht c.position rest] at hwhole
  injection hwhole with hanswer hcursor
  injection hcursor with _ hleft
  exact ⟨hanswer.symm, hleft.symm⟩

/-- On a part of what it takes, a reader answers nothing. -/
theorem PrefixStable.refuses (hr : PrefixStable r) (ht : Takes r bytes a) (hcut : IsCut part bytes) :
    ∃ e, result r part = .error e := by
  obtain ⟨missing, hmissing, hpart⟩ := hcut
  rcases hrun : r.run (.start part) with ⟨b, c'⟩ | ⟨e, c'⟩
  · have hrest : part ++ missing = bytes ++ [] := by rw [hpart, List.append_nil]
    obtain ⟨-, hleft⟩ := hr.leaves ht hrun hrest
    exact absurd (List.append_eq_nil_iff.1 hleft).2 hmissing
  · exact ⟨e, by rw [result, hrun]⟩

end EventVm.Reader
