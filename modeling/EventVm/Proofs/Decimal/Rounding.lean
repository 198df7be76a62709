import EventVm.Proofs.Decimal.Shortest

/-!
# Rounding to the nearest number

`roundQuotient` finds the integer that is nearest to a quotient, the even one of two
(`roundQuotient_eq`). In the interval of a number, the significand is the nearest integer in units
of the last place (`roundsTo_of_holds`), so a quotient in the interval is encoded as that number
(`encodeRounded_of_holds`). Just below a power of two the last place is half as large: there the
quotient is rounded to twice the significand.
-/

namespace EventVm.FloatFormat

open Decimal (Target zpow_of_neg zpow_of_nonneg)

variable {f : FloatFormat} {num den n m k : Nat} {x : ℚ} {e : ℤ}

theorem two_zpow_pos (e : ℤ) : (0 : ℚ) < 2 ^ e :=
  zpow_pos (by norm_num) e

/-- The integer is nearest to the number, the even one of two. -/
structure RoundsTo (x : ℚ) (n : Nat) : Prop where
  below : (n : ℚ) ≤ x + 1 / 2
  above : x ≤ n + 1 / 2
  tie : n = x + 1 / 2 ∨ x = n + 1 / 2 → n % 2 = 0

/-- The rounded quotient is the only such integer. -/
theorem roundQuotient_eq (hden : 0 < den) (h : RoundsTo (num / den) n) :
    roundQuotient num den = n := by
  have hden' : (0 : ℚ) < den := by exact_mod_cast hden
  have hbelow : n * den * 2 ≤ num * 2 + den := by
    have := h.below
    rw [← sub_le_iff_le_add, le_div_iff₀ hden'] at this
    have : (n : ℚ) * den * 2 ≤ num * 2 + den := by linarith
    exact_mod_cast this
  have habove : num * 2 ≤ n * den * 2 + den := by
    have := h.above
    rw [div_le_iff₀ hden'] at this
    have : (num : ℚ) * 2 ≤ n * den * 2 + den := by linarith
    exact_mod_cast this
  have htie : n * den * 2 = num * 2 + den ∨ num * 2 = n * den * 2 + den → n % 2 = 0 := by
    refine fun heq => h.tie (heq.imp (fun heq => ?_) fun heq => ?_)
    · have : (n : ℚ) * den * 2 = num * 2 + den := by exact_mod_cast heq
      field_simp
      linarith
    · have : (num : ℚ) * 2 = n * den * 2 + den := by exact_mod_cast heq
      field_simp
      linarith
  have hsplit := Nat.div_add_mod num den
  have hmod := Nat.mod_lt num hden
  unfold roundQuotient
  dsimp only
  generalize num / den = q, num % den = r at hsplit hmod ⊢
  have hle : q ≤ n := by
    by_contra hlt
    have := Nat.mul_le_mul_left den (show n + 1 ≤ q by omega)
    rw [Nat.mul_add, Nat.mul_comm den n] at this
    omega
  have hge : n ≤ q + 1 := by
    by_contra hlt
    have := Nat.mul_le_mul_left den (show q + 2 ≤ n by omega)
    rw [Nat.mul_add, Nat.mul_comm den n] at this
    omega
  obtain rfl | rfl : n = q ∨ n = q + 1 := by omega
  · rw [Nat.mul_comm n den] at habove htie
    rw [if_neg (by omega)]
  · rw [Nat.add_mul, Nat.mul_comm q den] at hbelow htie
    rw [if_pos (by omega)]

/-! ### Logarithms -/

/-- The difference of two logarithms is at most one too large. -/
theorem log2_sub_spec (hnum : 0 < num) (hden : 0 < den) :
    (2 : ℚ) ^ ((num.log2 : ℤ) - den.log2 - 1) ≤ num / den ∧
      (num : ℚ) / den < 2 ^ ((num.log2 : ℤ) - den.log2 + 1) := by
  have hden' : (0 : ℚ) < den := by exact_mod_cast hden
  have hnumlow : (2 : ℚ) ^ num.log2 ≤ num := by exact_mod_cast Nat.log2_self_le hnum.ne'
  have hnumhigh : (num : ℚ) < 2 ^ (num.log2 + 1) := by exact_mod_cast Nat.lt_log2_self
  have hdenlow : (2 : ℚ) ^ den.log2 ≤ den := by exact_mod_cast Nat.log2_self_le hden.ne'
  have hdenhigh : (den : ℚ) < 2 ^ (den.log2 + 1) := by exact_mod_cast Nat.lt_log2_self
  generalize num.log2 = i at *
  generalize den.log2 = j at *
  constructor
  · rw [le_div_iff₀ hden']
    calc (2 : ℚ) ^ ((i : ℤ) - j - 1) * den
        ≤ 2 ^ ((i : ℤ) - j - 1) * 2 ^ (j + 1) :=
          mul_le_mul_of_nonneg_left hdenhigh.le (two_zpow_pos _).le
      _ = 2 ^ i := by
        rw [← zpow_natCast, ← zpow_add₀ (by norm_num), ← zpow_natCast]
        congr 1
        push_cast
        ring
      _ ≤ num := hnumlow
  · rw [div_lt_iff₀ hden']
    calc (num : ℚ) < 2 ^ (i + 1) := hnumhigh
      _ = 2 ^ ((i : ℤ) - j + 1) * 2 ^ j := by
        rw [← zpow_natCast, ← zpow_natCast, ← zpow_add₀ (by norm_num)]
        congr 1
        push_cast
        ring
      _ ≤ 2 ^ ((i : ℤ) - j + 1) * den :=
        mul_le_mul_of_nonneg_left hdenlow (two_zpow_pos _).le

theorem logQuotient_spec (hnum : 0 < num) (hden : 0 < den) :
    (2 : ℚ) ^ logQuotient num den ≤ num / den ∧
      (num : ℚ) / den < 2 ^ (logQuotient num den + 1) := by
  have hden' : (0 : ℚ) < den := by exact_mod_cast hden
  obtain ⟨hlow, hhigh⟩ := log2_sub_spec hnum hden
  unfold logQuotient
  dsimp only
  generalize (num.log2 : ℤ) - den.log2 = guess at hlow hhigh ⊢
  have hreached : (if guess < 0 then den ≤ num * Nat.pow 2 guess.natAbs
      else den * Nat.pow 2 guess.natAbs ≤ num) ↔ (2 : ℚ) ^ guess ≤ num / den := by
    rw [le_div_iff₀ hden']
    split
    · next h =>
      rw [zpow_of_neg h, inv_mul_le_iff₀ (by positivity), mul_comm]
      exact_mod_cast Iff.rfl
    · next h =>
      rw [zpow_of_nonneg (not_lt.1 h), mul_comm]
      exact_mod_cast Iff.rfl
  simp only [hreached]
  split
  · next h => exact ⟨h, hhigh⟩
  · next h => exact ⟨hlow, by simpa using not_le.1 h⟩

/-! ### Intervals -/

/-- The interval in units of the last place. -/
theorem bounds_of_holds (h : (Target.of f m e).Holds x) :
    ((Target.of f m e).low : ℚ) / 4 ≤ x / 2 ^ e ∧ x / 2 ^ e ≤ m + 1 / 2 ∧
      (x / 2 ^ e = (Target.of f m e).low / 4 ∨ x / 2 ^ e = m + 1 / 2 → m % 2 = 0) := by
  have hu := two_zpow_pos e
  have hhigh : ((Target.of f m e).high : ℚ) = 4 * (m + 1 / 2) := by
    simp only [Target.of, Nat.cast_add, Nat.cast_mul]
    norm_num
    ring
  have hquarter : (2 : ℚ) ^ (e - 2) = 2 ^ e / 4 := by
    rw [zpow_sub₀ (by norm_num)]
    norm_num
  have hbounds := h.bounds
  rw [Decimal.size_of, hquarter, hhigh] at hbounds
  rw [div_le_div_iff₀ (by norm_num) hu, div_le_iff₀ hu, div_eq_div_iff hu.ne' (by norm_num),
    div_eq_iff hu.ne']
  generalize (2 : ℚ) ^ e = u at *
  obtain ⟨hlow, hhigh, hend⟩ := hbounds
  refine ⟨by linarith, by linarith, fun hx => ?_⟩
  have hclosed := hend (hx.imp (fun _ => by linarith) fun _ => by linarith)
  simpa [Target.of] using hclosed

/-- A number in the interval of `m * 2 ^ e` rounds to `m` in units of the last place. -/
theorem roundsTo_of_holds (hm : 0 < m) (h : (Target.of f m e).Holds x) :
    RoundsTo (x / 2 ^ e) m := by
  obtain ⟨hlow, hhigh, hend⟩ := bounds_of_holds h
  have hhalf : 4 * m ≤ (Target.of f m e).low + 2 := by
    unfold Target.of
    dsimp only
    split <;> omega
  have hhalf' : (4 : ℚ) * m ≤ (Target.of f m e).low + 2 := by exact_mod_cast hhalf
  exact ⟨by linarith, hhigh, fun hx => hend (hx.imp_left fun _ => by linarith)⟩

/-- The interval of a power of two begins nearer to it. -/
theorem near_of_holds (hm : m = f.hiddenBit) (he : f.leastExponent < e)
    (h : (Target.of f m e).Holds x) : (m : ℚ) - 1 / 4 ≤ x / 2 ^ e := by
  have hlow := (bounds_of_holds h).1
  have hquarter : 4 * m ≤ (Target.of f m e).low + 1 := by
    unfold Target.of
    dsimp only
    rw [if_pos ⟨hm, he⟩]
    omega
  have hquarter' : (4 : ℚ) * m ≤ (Target.of f m e).low + 1 := by exact_mod_cast hquarter
  linarith

/-! ### Encoding -/

/-- The rounded quotient in units of `2 ^ e`. -/
theorem roundQuotient_scaled (hden : 0 < den) (h : RoundsTo ((num : ℚ) / den / 2 ^ e) n) :
    (if e < 0 then roundQuotient (num * Nat.pow 2 e.natAbs) den
      else roundQuotient num (den * Nat.pow 2 e.natAbs)) = n := by
  have hpow : 0 < Nat.pow 2 e.natAbs := Nat.pow_pos (by decide)
  split
  · next he =>
    refine roundQuotient_eq hden ?_
    rw [zpow_of_neg he, div_inv_eq_mul] at h
    simpa [div_mul_eq_mul_div] using h
  · next he =>
    refine roundQuotient_eq (Nat.mul_pos hden hpow) ?_
    rw [zpow_of_nonneg (not_lt.1 he), div_div] at h
    simpa using h

theorem encodeRounded_of_roundsTo (hnum : 0 < num) (hden : 0 < den)
    (he : max f.leastExponent (logQuotient num den - f.significandBits) = f.leastExponent + k)
    (h : RoundsTo ((num : ℚ) / den / 2 ^ (f.leastExponent + k)) n) :
    f.encodeRounded num den = min f.infinityBits (k * f.hiddenBit + n) := by
  unfold encodeRounded
  rw [if_neg hnum.ne']
  dsimp only
  rw [he, roundQuotient_scaled hden h]
  simp

theorem hiddenBit_mul_zpow (f : FloatFormat) (e : ℤ) :
    (f.hiddenBit : ℚ) * 2 ^ e = 2 ^ (f.significandBits + e) := by
  rw [zpow_add₀ (by norm_num), zpow_natCast]
  simp [hiddenBit]

/-- A number that rounds to a positive significand is about as large as that. -/
theorem RoundsTo.bounds (hm : 0 < m) (hlt : m < 2 * f.hiddenBit) (h : RoundsTo (x / 2 ^ e) m) :
    2 ^ (e - 1) ≤ x ∧ x ≤ 2 ^ (f.significandBits + e + 1) := by
  have hu := two_zpow_pos e
  have hm' : (1 : ℚ) ≤ m := by exact_mod_cast hm
  have hlt' : (m : ℚ) + 1 ≤ 2 * f.hiddenBit := by exact_mod_cast hlt
  have hbelow := h.below
  have habove := h.above
  rw [← sub_le_iff_le_add, le_div_iff₀ hu] at hbelow
  rw [div_le_iff₀ hu] at habove
  rw [zpow_sub_one₀ (by norm_num), zpow_add_one₀ (by norm_num), ← hiddenBit_mul_zpow]
  constructor <;> nlinarith

/-- A quotient below two hidden bits has its leading bit in that place or a lower one. -/
theorem logQuotient_le (hnum : 0 < num) (hden : 0 < den)
    (h : (num : ℚ) / den / 2 ^ e < 2 * f.hiddenBit) :
    logQuotient num den ≤ f.significandBits + e := by
  have hlow := (logQuotient_spec hnum hden).1
  rw [div_lt_iff₀ (two_zpow_pos e), mul_assoc, hiddenBit_mul_zpow, mul_comm,
    ← zpow_add_one₀ (by norm_num)] at h
  exact Int.lt_add_one_iff.1 ((zpow_lt_zpow_iff_right₀ (by norm_num)).1 (hlow.trans_lt h))

/-- A quotient of one hidden bit at least has its leading bit in that place or a higher one. -/
theorem le_logQuotient (hnum : 0 < num) (hden : 0 < den)
    (h : f.hiddenBit ≤ (num : ℚ) / den / 2 ^ e) :
    f.significandBits + e ≤ logQuotient num den := by
  have hhigh := (logQuotient_spec hnum hden).2
  rw [le_div_iff₀ (two_zpow_pos e), hiddenBit_mul_zpow] at h
  exact Int.lt_add_one_iff.1 ((zpow_lt_zpow_iff_right₀ (by norm_num)).1 (h.trans_lt hhigh))

/-- The bits of the number in whose interval a quotient lies. -/
theorem encodeRounded_of_holds (hm : 0 < m) (hlt : m < 2 * f.hiddenBit)
    (hnormal : k = 0 ∨ f.hiddenBit ≤ m) (hnum : 0 < num) (hden : 0 < den)
    (h : (Target.of f m (f.leastExponent + k)).Holds (num / den)) :
    f.encodeRounded num den = min f.infinityBits (k * f.hiddenBit + m) := by
  have hrounds := roundsTo_of_holds hm h
  have hlt' : (m : ℚ) + 1 ≤ 2 * f.hiddenBit := by exact_mod_cast hlt
  have hle := logQuotient_le hnum hden (f := f) (e := f.leastExponent + k)
    (by linarith [hrounds.above])
  by_cases hx : (f.hiddenBit : ℚ) ≤ num / den / 2 ^ (f.leastExponent + k)
  · have hge := le_logQuotient hnum hden hx
    exact encodeRounded_of_roundsTo hnum hden (by omega) hrounds
  cases k with
  | zero => exact encodeRounded_of_roundsTo hnum hden (by omega) hrounds
  | succ k =>
    -- the quotient is smaller than the power of two to which it rounds: it is rounded in units
    -- half as large
    have hone : m = f.hiddenBit := by
      have : (m : ℚ) < f.hiddenBit + 1 := by linarith [hrounds.below]
      have : m < f.hiddenBit + 1 := by exact_mod_cast this
      omega
    have hnear := near_of_holds hone (by omega) h
    have hhidden : (1 : ℚ) ≤ f.hiddenBit := by exact_mod_cast Nat.one_le_two_pow
    rw [Nat.cast_add_one, ← add_assoc, zpow_add_one₀ (by norm_num), ← div_div] at hx hnear
    rw [hone] at hnear ⊢
    generalize hy : (num : ℚ) / den / 2 ^ (f.leastExponent + k) = y at hx hnear
    have hrounds : RoundsTo y (2 * f.hiddenBit) := by
      constructor
      · push_cast
        linarith
      · push_cast
        linarith
      · exact fun _ => Nat.mul_mod_right 2 _
    subst hy
    have hle := logQuotient_le hnum hden (f := f) (e := f.leastExponent + k) (by linarith)
    have hge := le_logQuotient hnum hden (f := f) (e := f.leastExponent + k) (by linarith)
    rw [encodeRounded_of_roundsTo hnum hden (by omega) hrounds]
    congr 1
    ring

end EventVm.FloatFormat
