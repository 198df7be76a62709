import EventVm.Proofs.Decimal.Layout
import EventVm.Proofs.Decimal.Rounding

/-!
# Shown numbers read back

A decimal in the interval of a finite number is rounded to that number (`roundTo_of_holds`), and the
shortest one lies in it, so a number is read from the text that shows it (`read?_display`). Only the
NaNs, which have one word for all of them, are not told apart.
-/

namespace EventVm

namespace FloatFormat

variable {f : FloatFormat} {bits significand : Nat} {negative : Bool} {exponent : ℤ}

/-- The significands of the format have at most sixteen digits, and its numbers are not beyond the
range of the decimals that are looked at. -/
structure IsSmall (f : FloatFormat) : Prop where
  digits : 2 * f.hiddenBit ≤ 10 ^ 16
  least : -1200 ≤ f.leastExponent
  greatest : f.leastExponent + (f.infinityBits / f.hiddenBit : ℕ) + f.significandBits ≤ 1200

theorem isSmall_single : single.IsSmall :=
  ⟨by decide, by decide, by decide⟩

theorem isSmall_double : double.IsSmall :=
  ⟨by decide, by decide, by decide⟩

theorem hiddenBit_pos (f : FloatFormat) : 0 < f.hiddenBit :=
  Nat.pow_pos (by decide)

theorem withSign_decide (hbits : bits < 2 * f.signWeight) :
    f.withSign (decide (f.signWeight ≤ bits)) (bits % f.signWeight) = bits := by
  unfold withSign
  by_cases h : f.signWeight ≤ bits
  · rw [if_pos (decide_eq_true h), Nat.mod_eq_sub_mod h, Nat.mod_eq_of_lt (by omega)]
    omega
  · rw [if_neg (by simpa using h), Nat.mod_eq_of_lt (by omega)]

/-- The bits of a finite number are made of its exponent and its significand. -/
theorem bits_of_finite (hbits : bits < 2 * f.signWeight)
    (h : f.decode bits = .finite negative significand exponent) : ∃ k : Nat,
      exponent = f.leastExponent + k ∧
      bits = f.withSign negative (k * f.hiddenBit + significand) ∧
      k * f.hiddenBit + significand < f.infinityBits ∧ significand < 2 * f.hiddenBit ∧
      (k = 0 ∨ f.hiddenBit ≤ significand) := by
  have hsign := withSign_decide hbits
  have hfraction := Nat.mod_lt (bits % f.signWeight) f.hiddenBit_pos
  have hsplit := Nat.div_add_mod (bits % f.signWeight) f.hiddenBit
  unfold decode at h
  dsimp only at h
  generalize bits % f.signWeight = magnitude at *
  split at h
  · cases h
  split at h
  · cases h
  split at h
  · next hzero =>
    cases h
    rw [hzero, Nat.mul_zero, Nat.zero_add] at hsplit
    rw [hsplit] at hfraction ⊢
    exact ⟨0, by simp, by simpa using hsign.symm, by omega, by omega, .inl rfl⟩
  · next hzero =>
    cases h
    have hmagnitude : (magnitude / f.hiddenBit - 1) * f.hiddenBit +
        (f.hiddenBit + magnitude % f.hiddenBit) = magnitude := by
      rw [Nat.sub_mul, Nat.one_mul, Nat.mul_comm]
      have := Nat.le_mul_of_pos_right f.hiddenBit (Nat.pos_of_ne_zero hzero)
      omega
    refine ⟨magnitude / f.hiddenBit - 1, rfl, ?_, ?_, by omega, .inr (Nat.le_add_right ..)⟩
    · rw [hmagnitude, hsign]
    · omega

theorem bits_of_infinite (hbits : bits < 2 * f.signWeight)
    (h : f.decode bits = .infinite negative) : bits = f.withSign negative f.infinityBits := by
  have hsign := withSign_decide hbits
  unfold decode at h
  dsimp only at h
  split at h
  · cases h
  split at h
  · next hmagnitude =>
    cases h
    rw [← hmagnitude, hsign]
  · split at h <;> cases h

end FloatFormat

namespace Decimal

variable {f : FloatFormat} {d : Decimal} {tie : Tie} {m k bits : Nat} {negative : Bool} {e : ℤ}

/-! ### Rounding -/

theorem digits_ne_zero (h : 0 < d.value) : d.digits ≠ 0 := by
  intro hzero
  rw [value, hzero, Nat.cast_zero, zero_mul] at h
  exact lt_irrefl _ h

/-- The magnitude of a decimal is its decimal logarithm. -/
theorem magnitude_spec (h : 0 < d.value) :
    (10 : ℚ) ^ d.magnitude ≤ d.value ∧ d.value < 10 ^ (d.magnitude + 1) := by
  have hdigits := digits_ne_zero h
  have hlength : 0 < length d.digits := Nat.length_toDigits_pos
  have hpow := ten_zpow_pos d.exponent
  have hmagnitude : d.magnitude = ((length d.digits - 1 : Nat) : ℤ) + d.exponent := by
    unfold magnitude
    omega
  have hsucc : d.magnitude + 1 = (length d.digits : ℤ) + d.exponent := by
    unfold magnitude
    omega
  rw [hsucc, hmagnitude, zpow_add₀ (by norm_num), zpow_add₀ (by norm_num), zpow_natCast,
    zpow_natCast]
  constructor
  · refine mul_le_mul_of_nonneg_right ?_ hpow.le
    exact_mod_cast pow_length_le hdigits
  · refine mul_lt_mul_of_pos_right ?_ hpow
    exact_mod_cast lt_pow_length d.digits

theorem two_pow_le_ten_pow : (2 : ℚ) ^ 1300 ≤ 10 ^ 400 :=
  calc (2 : ℚ) ^ 1300 = (2 ^ 13) ^ 100 := by rw [← pow_mul]
    _ ≤ (10 ^ 4) ^ 100 := by gcongr; norm_num
    _ = 10 ^ 400 := by rw [← pow_mul]

/-- Decimals of a moderate size are within the range that is looked at. -/
theorem abs_magnitude_le (hlow : (2 : ℚ) ^ (-1300 : ℤ) ≤ d.value)
    (hhigh : d.value ≤ 2 ^ (1300 : ℤ)) : -400 ≤ d.magnitude ∧ d.magnitude ≤ 400 := by
  obtain ⟨hmagnitude, hmagnitude'⟩ := magnitude_spec (lt_of_lt_of_le (by positivity) hlow)
  have hlarge : (2 : ℚ) ^ (1300 : ℤ) ≤ 10 ^ (400 : ℤ) := by
    exact_mod_cast two_pow_le_ten_pow
  have hsmall : (10 : ℚ) ^ (-400 : ℤ) ≤ 2 ^ (-1300 : ℤ) := by
    rw [zpow_neg, zpow_neg]
    exact inv_anti₀ (by positivity) hlarge
  constructor
  · have := (hsmall.trans hlow).trans_lt hmagnitude'
    rw [zpow_lt_zpow_iff_right₀ (by norm_num)] at this
    omega
  · have := (hmagnitude.trans hhigh).trans hlarge
    rwa [zpow_le_zpow_iff_right₀ (by norm_num)] at this

/-- They are rounded as quotients. -/
theorem roundTo_eq (f : FloatFormat) (hlow : (2 : ℚ) ^ (-1300 : ℤ) ≤ d.value)
    (hhigh : d.value ≤ 2 ^ (1300 : ℤ)) : ∃ num den : Nat, 0 < num ∧ 0 < den ∧
      d.value = num / den ∧ roundTo f d = f.encodeRounded num den := by
  have hdigits := digits_ne_zero (lt_of_lt_of_le (by positivity) hlow)
  have hpow : 0 < Nat.pow 10 d.exponent.natAbs := Nat.pow_pos (by decide)
  obtain ⟨hsmall, hlarge⟩ := abs_magnitude_le hlow hhigh
  unfold roundTo
  rw [if_neg hdigits, if_neg (by omega), if_neg (by omega)]
  split
  · next he =>
    refine ⟨_, _, Nat.pos_of_ne_zero hdigits, hpow, ?_, rfl⟩
    rw [value, zpow_of_neg he]
    simp [div_eq_mul_inv]
  · next he =>
    refine ⟨_, _, Nat.mul_pos (Nat.pos_of_ne_zero hdigits) hpow, Nat.one_pos, ?_, rfl⟩
    rw [value, zpow_of_nonneg (not_lt.1 he)]
    simp

/-- A decimal in the interval of a number is rounded to that number. -/
theorem roundTo_of_holds (hf : f.IsSmall) (hm : 0 < m) (hlt : m < 2 * f.hiddenBit)
    (hnormal : k = 0 ∨ f.hiddenBit ≤ m) (hfinite : k * f.hiddenBit + m < f.infinityBits)
    (h : (Target.of f m (f.leastExponent + k)).Holds d.value) :
    roundTo f d = k * f.hiddenBit + m := by
  obtain ⟨hlow, hhigh⟩ := (FloatFormat.roundsTo_of_holds hm h).bounds hm hlt
  have hplaces : k ≤ f.infinityBits / f.hiddenBit :=
    (Nat.le_div_iff_mul_le f.hiddenBit_pos).2 (by omega)
  have hleast := hf.least
  have hgreatest := hf.greatest
  have hlow' : (2 : ℚ) ^ (-1300 : ℤ) ≤ 2 ^ (f.leastExponent + k - 1) :=
    zpow_le_zpow_right₀ (by norm_num) (by omega)
  have hhigh' : (2 : ℚ) ^ (f.significandBits + (f.leastExponent + k) + 1) ≤ 2 ^ (1300 : ℤ) :=
    zpow_le_zpow_right₀ (by norm_num) (by push_cast at hgreatest; omega)
  obtain ⟨num, den, hnum, hden, hvalue, hround⟩ :=
    roundTo_eq f (hlow'.trans hlow) (hhigh.trans hhigh')
  rw [hvalue] at h
  rw [hround, FloatFormat.encodeRounded_of_holds hm hlt hnormal hnum hden h]
  omega

/-- The shortest decimal is rounded to the number it stands for, however it is written. -/
theorem roundTo_shortest (hf : f.IsSmall) (hlt : m < 2 * f.hiddenBit)
    (hnormal : k = 0 ∨ f.hiddenBit ≤ m) (hfinite : k * f.hiddenBit + m < f.infinityBits)
    (hd : d.value = (shortest f tie m (f.leastExponent + k)).value) :
    roundTo f d = k * f.hiddenBit + m := by
  obtain rfl | hm := Nat.eq_zero_or_pos m
  · have hk : k = 0 := hnormal.resolve_right (not_le.2 f.hiddenBit_pos)
    have hzero : d.digits = 0 := by
      rw [shortest, if_pos rfl, value, value, Nat.cast_zero, zero_mul, mul_eq_zero] at hd
      exact_mod_cast hd.resolve_right (ten_zpow_pos d.exponent).ne'
    rw [roundTo, if_pos hzero, hk, Nat.zero_mul]
  · refine roundTo_of_holds hf hm hlt hnormal hfinite ?_
    rw [hd]
    exact holds_shortest hf.digits tie hm hlt

/-! ### Round trip -/

theorem read?_display_of_nan (h : f.decode bits = .nan) :
    read? f (display f bits).toList = some f.nanBits := by
  have hsign : readSign "NaN".toList = (false, "NaN".toList) := by decide
  have hword : magnitude? "NaN".toList = some .nan := by decide
  rw [display, h]
  dsimp only
  rw [read?, hsign]
  dsimp only
  rw [hword]
  rfl

theorem read?_display_of_infinite (hbits : bits < 2 * f.signWeight)
    (h : f.decode bits = .infinite negative) :
    read? f (display f bits).toList = some bits := by
  have hword : read? f (signText negative ++ "inf".toList) =
      some (f.withSign negative f.infinityBits) := by
    cases negative <;> rfl
  rw [display, h, FloatFormat.bits_of_infinite hbits h]
  simpa only [String.toList_ofList] using hword

theorem read?_display_of_finite (hf : f.IsSmall) (hbits : bits < 2 * f.signWeight)
    (h : f.decode bits = .finite negative m e) :
    read? f (display f bits).toList = some bits := by
  obtain ⟨k, rfl, hsign, hfinite, hlt, hnormal⟩ := FloatFormat.bits_of_finite hbits h
  obtain ⟨c, cs, htext, hc⟩ := positional_eq_cons (shortest f .up m (f.leastExponent + k))
  obtain ⟨d, hd, hvalue⟩ := finite?_positional (shortest f .up m (f.leastExponent + k))
  rw [htext] at hd
  rw [display, h]
  dsimp only
  rw [String.toList_ofList, htext, read?_signed negative hc, hd, Option.map_some,
    roundTo_shortest hf hlt hnormal hfinite hvalue, ← hsign]

/-- A number is read from the text that shows it. Every NaN is shown by one word, which is read as
the quiet one without sign. -/
theorem read?_display (hf : f.IsSmall) (hbits : bits < 2 * f.signWeight) :
    read? f (display f bits).toList = some bits ↔ (f.decode bits = .nan → bits = f.nanBits) := by
  cases h : f.decode bits with
  | nan =>
    rw [read?_display_of_nan h]
    exact ⟨fun heq _ => (Option.some.inj heq).symm, fun heq => by rw [heq rfl]⟩
  | infinite negative =>
    rw [read?_display_of_infinite hbits h]
    exact ⟨fun _ => nofun, fun _ => rfl⟩
  | finite negative m e =>
    rw [read?_display_of_finite hf hbits h]
    exact ⟨fun _ => nofun, fun _ => rfl⟩

end Decimal

end EventVm
