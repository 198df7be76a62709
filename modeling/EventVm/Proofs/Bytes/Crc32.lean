import EventVm.Bytes.Crc32
import EventVm.Proofs.Bytes.Burst

/-!
# Bursts change the CRC-32

The division step of CRC-32 is linear for exclusive or and loses nothing (`shiftBit_xor`,
`shiftBit_injective`), so a byte string acts on the register by a bijection. Up to four bytes enter
the register as one word, which is then shifted through (`foldl_feed_word`): two different words of
the same length give different registers, whatever stood in front, and no bytes behind them make the
registers equal again.

The main fact is `checksum_ne_of_burst`: damage within four consecutive bytes changes the checksum,
for byte strings of any length.
-/

namespace EventVm.Crc32

/-! ### The division step -/

theorem and_one_eq_one_iff (r : UInt32) : r &&& 1 = 1 ↔ r.toNat % 2 = 1 := by
  rw [← UInt32.toNat_inj, UInt32.toNat_and, UInt32.toNat_one, Nat.and_one_is_mod]

theorem shiftBit_of_odd {r : UInt32} (h : r.toNat % 2 = 1) :
    shiftBit r = (r >>> 1) ^^^ polynomial :=
  if_pos ((and_one_eq_one_iff r).2 h)

theorem shiftBit_of_even {r : UInt32} (h : r.toNat % 2 = 0) : shiftBit r = r >>> 1 :=
  if_neg fun hr => by
    have := (and_one_eq_one_iff r).1 hr
    omega

theorem toNat_shiftRight_one (r : UInt32) : (r >>> 1).toNat = r.toNat / 2 := by
  rw [UInt32.toNat_shiftRight]
  rfl

/-- Division is linear. -/
theorem shiftBit_xor (a b : UInt32) : shiftBit (a ^^^ b) = shiftBit a ^^^ shiftBit b := by
  have hparity : (a ^^^ b).toNat % 2 = (a.toNat + b.toNat) % 2 := by
    rw [UInt32.toNat_xor, Nat.xor_mod_two_eq]
  rcases Nat.mod_two_eq_zero_or_one a.toNat with ha | ha <;>
    rcases Nat.mod_two_eq_zero_or_one b.toNat with hb | hb
  · rw [shiftBit_of_even ha, shiftBit_of_even hb, shiftBit_of_even (by omega),
      UInt32.shiftRight_xor]
  · rw [shiftBit_of_even ha, shiftBit_of_odd hb, shiftBit_of_odd (by omega),
      UInt32.shiftRight_xor, UInt32.xor_assoc]
  · rw [shiftBit_of_odd ha, shiftBit_of_even hb, shiftBit_of_odd (by omega),
      UInt32.shiftRight_xor, UInt32.xor_assoc, UInt32.xor_assoc,
      UInt32.xor_comm (b >>> 1) polynomial]
  · rw [shiftBit_of_odd ha, shiftBit_of_odd hb, shiftBit_of_even (by omega),
      UInt32.shiftRight_xor, UInt32.xor_assoc, UInt32.xor_comm (b >>> 1) polynomial,
      ← UInt32.xor_assoc polynomial, UInt32.xor_self, UInt32.zero_xor]

/-- The highest bit of the polynomial tells whether it was added, so no remainder is lost. -/
theorem eq_zero_of_shiftBit_eq_zero {r : UInt32} (h : shiftBit r = 0) : r = 0 := by
  have hr := r.toNat_lt
  rcases Nat.mod_two_eq_zero_or_one r.toNat with hp | hp
  · rw [shiftBit_of_even hp] at h
    have hz := toNat_shiftRight_one r
    rw [h, UInt32.toNat_zero] at hz
    rw [← UInt32.toNat_inj, UInt32.toNat_zero]
    omega
  · rw [shiftBit_of_odd hp, UInt32.xor_eq_zero_iff] at h
    have hz := toNat_shiftRight_one r
    rw [h] at hz
    have hpoly : polynomial.toNat = 0xEDB88320 := rfl
    omega

theorem shiftBit_injective : Function.Injective shiftBit := by
  intro a b h
  rw [← UInt32.xor_eq_zero_iff]
  apply eq_zero_of_shiftBit_eq_zero
  rw [shiftBit_xor, h, UInt32.xor_self]

/-- A zero that leaves the register takes nothing with it. -/
theorem shiftBit_double {n : Nat} (h : 2 * n < 2 ^ 32) :
    shiftBit (UInt32.ofNat (2 * n)) = UInt32.ofNat n := by
  have h2 : (UInt32.ofNat (2 * n)).toNat = 2 * n := by
    rw [UInt32.toNat_ofNat', Nat.mod_eq_of_lt h]
  rw [shiftBit_of_even (by omega), ← UInt32.toNat_inj, toNat_shiftRight_one, h2,
    UInt32.toNat_ofNat', Nat.mod_eq_of_lt (by omega)]
  omega

/-! ### Whole bytes -/

theorem shiftByte_xor (a b : UInt32) : shiftByte (a ^^^ b) = shiftByte a ^^^ shiftByte b := by
  simp only [shiftByte, shiftBit_xor]

theorem shiftByte_injective : Function.Injective shiftByte := by
  intro a b h
  iterate 8 replace h := shiftBit_injective h
  exact h

theorem shiftByte_mul {n : Nat} (h : 256 * n < 2 ^ 32) :
    shiftByte (UInt32.ofNat (256 * n)) = UInt32.ofNat n := by
  have h256 : 256 * n = 2 * (2 * (2 * (2 * (2 * (2 * (2 * (2 * n))))))) := by omega
  rw [h256]
  unfold shiftByte
  iterate 8 rw [shiftBit_double (by omega)]

theorem feed_injective (b : UInt8) : Function.Injective fun r => feed r b := by
  intro r r' h
  exact (UInt32.xor_left_inj _).1 (shiftByte_injective h)

/-- Different registers stay different, whatever follows. -/
theorem foldl_feed_injective (bytes : Bytes) : Function.Injective fun r => bytes.foldl feed r := by
  induction bytes with
  | nil => exact fun _ _ h => h
  | cons b bytes ih => exact fun _ _ h => feed_injective b (ih h)

/-! ### Words -/

/-- A low byte and the bytes above it do not meet. -/
theorem xor_ofNat_mul (b : UInt8) {n : Nat} (h : 256 * n < 2 ^ 32) :
    b.toUInt32 ^^^ UInt32.ofNat (256 * n) = UInt32.ofNat (b.toNat + 256 * n) := by
  have hb := b.toNat_lt
  rw [← UInt32.toNat_inj, UInt32.toNat_xor, UInt8.toNat_toUInt32, UInt32.toNat_ofNat',
    UInt32.toNat_ofNat', Nat.mod_eq_of_lt h, Nat.mod_eq_of_lt (by omega), Nat.add_comm]
  apply Nat.eq_of_testBit_eq
  intro i
  rw [show 256 * n = 2 ^ 8 * n by omega, Nat.testBit_two_pow_mul_add n hb, Nat.testBit_xor,
    Nat.testBit_two_pow_mul]
  split
  case isTrue hi => simp [Nat.not_le.2 hi]
  case isFalse hi =>
    rw [Nat.testBit_lt_two_pow (hb.trans_le (Nat.pow_le_pow_right (by decide) (by omega)))]
    simp [Nat.not_lt.1 hi]

/-- Up to four bytes are one word that is added to the register and shifted through it. -/
theorem foldl_feed_word (word : Bytes) (h : word.length ≤ 4) (r : UInt32) :
    word.foldl feed r = shiftByte^[word.length] (r ^^^ UInt32.ofNat (ofLittleEndian word)) := by
  induction word generalizing r with
  | nil => simp [ofLittleEndian]
  | cons b word ih =>
    have hword : 256 * ofLittleEndian word < 2 ^ 32 := by
      have hlt := ofLittleEndian_lt word
      have hle : 256 ^ word.length ≤ 256 ^ 3 :=
        Nat.pow_le_pow_right (by decide) (Nat.le_of_succ_le_succ h)
      omega
    calc (b :: word).foldl feed r
        = shiftByte^[word.length] (feed r b ^^^ UInt32.ofNat (ofLittleEndian word)) :=
          ih (Nat.le_of_succ_le h) (feed r b)
      _ = shiftByte^[word.length] (shiftByte (r ^^^ b.toUInt32) ^^^
            shiftByte (UInt32.ofNat (256 * ofLittleEndian word))) := by
          rw [shiftByte_mul hword, feed]
      _ = shiftByte^[word.length + 1]
            (r ^^^ UInt32.ofNat (b.toNat + 256 * ofLittleEndian word)) := by
          rw [← shiftByte_xor, UInt32.xor_assoc, xor_ofNat_mul b hword, Function.iterate_succ_apply]

/-- Different words of one length leave different registers. -/
theorem foldl_feed_word_ne {word word' : Bytes} (hl : word.length = word'.length)
    (h : word.length ≤ 4) (hne : word ≠ word') (r : UInt32) :
    word.foldl feed r ≠ word'.foldl feed r := by
  intro heq
  rw [foldl_feed_word word h, foldl_feed_word word' (hl ▸ h), ← hl] at heq
  have hword := (UInt32.xor_right_inj r).1 (shiftByte_injective.iterate _ heq)
  have hlt : ∀ w : Bytes, w.length ≤ 4 → ofLittleEndian w < 2 ^ 32 := fun w hw =>
    (ofLittleEndian_lt w).trans_le (Nat.pow_le_pow_right (by decide) hw)
  have hnum := congrArg UInt32.toNat hword
  rw [UInt32.toNat_ofNat', UInt32.toNat_ofNat', Nat.mod_eq_of_lt (hlt word h),
    Nat.mod_eq_of_lt (hlt word' (hl ▸ h))] at hnum
  exact hne (ofLittleEndian_inj hl hnum)

/-! ### Bursts -/

/-- Damage within four consecutive bytes changes the checksum. -/
theorem checksum_ne_of_burst {first : Nat} {sent received : Bytes}
    (h : Burst first 4 sent received) : checksum received ≠ checksum sent := by
  intro heq
  have hfold := (UInt32.xor_left_inj _).1 heq
  have hsplit : ∀ bytes : Bytes, bytes =
      bytes.take first ++ ((bytes.drop first).take 4 ++ bytes.drop (first + 4)) := by
    intro bytes
    rw [← List.drop_drop, List.take_append_drop, List.take_append_drop]
  rw [hsplit received, hsplit sent, h.before, h.behind] at hfold
  simp only [List.foldl_append] at hfold
  have hwindow := foldl_feed_injective _ hfold
  refine foldl_feed_word_ne ?_ (List.length_take_le 4 _) h.window_ne _ hwindow
  simp [h.length_eq]

end EventVm.Crc32
