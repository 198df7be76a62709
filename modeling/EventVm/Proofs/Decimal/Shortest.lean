import EventVm.Decimal.Shortest
import Mathlib.Algebra.Order.Field.Power
import Mathlib.Algebra.Order.Floor.Semifield
import Mathlib.Data.Rat.Floor
import Mathlib.Tactic.FieldSimp
import Mathlib.Tactic.Linarith
import Mathlib.Tactic.Positivity
import Mathlib.Tactic.Ring

/-!
# The shortest decimal lies in the interval

The interval of a number holds the numbers that are nearer to it than to its neighbours
(`Target.Holds`). On every grid, a point that `pick?` takes lies in the interval, and if the
interval is longer than a step of the grid, `pick?` takes one (`isSome_pick?`). The seventeenth grid
is as fine as that for a significand below `10 ^ 16`, so the decimal that is found lies in the
interval (`holds_shortest`).
-/

namespace EventVm.Decimal

/-- The number that a decimal stands for. -/
def value (d : Decimal) : ℚ :=
  d.digits * (10 : ℚ) ^ d.exponent

theorem ten_zpow_pos (e : ℤ) : (0 : ℚ) < 10 ^ e :=
  zpow_pos (by norm_num) e

theorem zpow_of_nonneg {b : ℚ} {e : ℤ} (h : 0 ≤ e) : b ^ e = b ^ e.natAbs := by
  rw [← zpow_natCast, Int.natAbs_of_nonneg h]

theorem zpow_of_neg {b : ℚ} {e : ℤ} (h : e < 0) : b ^ e = (b ^ e.natAbs)⁻¹ := by
  rw [← zpow_natCast, ← zpow_neg, Int.ofNat_natAbs_of_nonpos h.le, neg_neg]

theorem value_stripZeros (fuel : Nat) (d : Decimal) : (stripZeros fuel d).value = d.value := by
  induction fuel generalizing d with
  | zero => rfl
  | succ fuel ih =>
    unfold stripZeros
    split
    · next h =>
      have hdigits : d.digits = d.digits / 10 * 10 := by omega
      rw [ih]
      unfold value
      rw [zpow_add_one₀ (by norm_num)]
      conv_rhs => rw [hdigits]
      push_cast
      ring
    · rfl

/-! ### How many digits a number has -/

theorem lt_pow_length (n : Nat) : n < 10 ^ length n :=
  (Nat.length_toDigits_le_iff (by decide) Nat.length_toDigits_pos).1 le_rfl

theorem pow_length_le {n : Nat} (h : n ≠ 0) : 10 ^ (length n - 1) ≤ n := by
  by_cases hone : length n - 1 = 0
  · rw [hone]
    exact Nat.one_le_iff_ne_zero.2 h
  · by_contra hlt
    have hlength := (Nat.length_toDigits_le_iff (by decide) (by omega)).2 (not_le.1 hlt)
    unfold length at hone hlength
    omega

/-- The decimal logarithm is not too large. -/
theorem pow_logQuotient_le {num den : Nat} (hnum : 0 < num) (hden : 0 < den) :
    (10 : ℚ) ^ logQuotient num den ≤ num / den := by
  have hden' : (0 : ℚ) < den := by exact_mod_cast hden
  have hnum' : (0 : ℚ) < num := by exact_mod_cast hnum
  unfold logQuotient
  split
  · next h =>
    have hq : num / den ≠ 0 := (Nat.div_pos h hden).ne'
    have hlength : 0 < length (num / den) := Nat.length_toDigits_pos
    have hpow := (Nat.le_div_iff_mul_le hden).1 (pow_length_le hq)
    have hpred : (length (num / den) : ℤ) - 1 = (length (num / den) - 1 : Nat) := by omega
    rw [le_div_iff₀ hden', hpred, zpow_natCast]
    exact_mod_cast hpow
  · next h =>
    -- the number of digits of one less than `⌈den / num⌉`
    have hpow := lt_pow_length ((den + num - 1) / num - 1)
    generalize length ((den + num - 1) / num - 1) = l at hpow
    have hceil : den ≤ 10 ^ l * num := by
      have hlt : (den + num - 1) / num < 10 ^ l + 1 := by omega
      have := (Nat.div_lt_iff_lt_mul hnum).1 hlt
      rw [Nat.add_mul, Nat.one_mul] at this
      omega
    rw [zpow_neg, zpow_natCast, inv_le_comm₀ (by positivity) (by positivity), inv_div,
      div_le_iff₀ hnum']
    exact_mod_cast hceil

/-! ### Targets -/

namespace Target

variable {t : Target} {tie : Tie} {n : Nat} {e : ℤ} {x : ℚ}

/-- The size of the unit in which the interval of a target is given. -/
def size (t : Target) : ℚ :=
  t.scale / t.unit

/-- The number lies in the interval. -/
def Holds (t : Target) (x : ℚ) : Prop :=
  if t.closed then t.low * t.size ≤ x ∧ x ≤ t.high * t.size
  else t.low * t.size < x ∧ x < t.high * t.size

/-- The ends belong to the interval only if it is closed. -/
theorem Holds.bounds (h : t.Holds x) : t.low * t.size ≤ x ∧ x ≤ t.high * t.size ∧
    (x = t.low * t.size ∨ x = t.high * t.size → t.closed = true) := by
  unfold Holds at h
  split at h
  · next hclosed => exact ⟨h.1, h.2, fun _ => hclosed⟩
  · refine ⟨h.1.le, h.2.le, fun hend => ?_⟩
    obtain hend | hend := hend
    · exact absurd hend h.1.ne'
    · exact absurd hend h.2.ne

/-- The interval has the value in it, and its unit is there. -/
structure Valid (t : Target) : Prop where
  scale : 0 < t.scale
  unit : 0 < t.unit
  low : t.low < t.value
  high : t.value < t.high

theorem Valid.size_pos (h : t.Valid) : 0 < t.size :=
  div_pos (by exact_mod_cast h.scale) (by exact_mod_cast h.unit)

theorem Valid.onGrid (h : t.Valid) (e : ℤ) : (t.onGrid e).Valid := by
  have hpow : 0 < Nat.pow 10 e.natAbs := Nat.pow_pos (by decide)
  unfold Target.onGrid
  split
  · exact ⟨Nat.mul_pos h.scale hpow, h.unit, h.low, h.high⟩
  · exact ⟨h.scale, Nat.mul_pos h.unit hpow, h.low, h.high⟩

theorem size_onGrid (t : Target) (e : ℤ) : (t.onGrid e).size = t.size / 10 ^ e := by
  unfold onGrid size
  split
  · next h =>
    rw [zpow_of_neg h]
    simp only [Nat.pow_eq, Nat.cast_mul, Nat.cast_pow, Nat.cast_ofNat, div_inv_eq_mul]
    ring
  · next h =>
    rw [zpow_of_nonneg (not_lt.1 h)]
    simp only [Nat.pow_eq, Nat.cast_mul, Nat.cast_pow, Nat.cast_ofNat, div_div]

theorem low_onGrid (t : Target) (e : ℤ) : (t.onGrid e).low = t.low := by
  unfold onGrid
  split <;> rfl

theorem high_onGrid (t : Target) (e : ℤ) : (t.onGrid e).high = t.high := by
  unfold onGrid
  split <;> rfl

theorem closed_onGrid (t : Target) (e : ℤ) : (t.onGrid e).closed = t.closed := by
  unfold onGrid
  split <;> rfl

/-- What lies in the interval on a grid lies in the interval. -/
theorem holds_onGrid : (t.onGrid e).Holds x ↔ t.Holds (x * 10 ^ e) := by
  have hpow := ten_zpow_pos e
  unfold Holds
  rw [size_onGrid, low_onGrid, high_onGrid, closed_onGrid]
  simp only [← mul_div_assoc, div_le_iff₀ hpow, le_div_iff₀ hpow, div_lt_iff₀ hpow,
    lt_div_iff₀ hpow]

theorem contains_iff (h : t.Valid) : t.contains n = true ↔ t.Holds n := by
  have hunit : (0 : ℚ) < t.unit := by exact_mod_cast h.unit
  unfold contains Holds size
  simp only [← mul_div_assoc, div_le_iff₀ hunit, le_div_iff₀ hunit, div_lt_iff₀ hunit,
    lt_div_iff₀ hunit]
  split <;> simp only [Bool.and_eq_true, decide_eq_true_eq] <;> exact_mod_cast Iff.rfl

/-- What a target is served with lies in its interval. -/
theorem contains_of_pick? (hn : t.pick? tie = some n) : t.contains n = true := by
  unfold pick? at hn
  dsimp only at hn
  split at hn
  · cases hn
  · next hlow _ =>
    cases hn
    exact hlow
  · next _ hhigh =>
    cases hn
    exact hhigh
  · next hlow hhigh =>
    split at hn
    · cases hn
      exact hlow
    · split at hn
      · cases hn
        exact hhigh
      · cases tie with
        | up =>
          cases hn
          exact hhigh
        | even =>
          cases hn
          split
          · exact hlow
          · exact hhigh

/-- A target is served unless neither of the integers around its value lies in its interval. -/
theorem not_contains_of_pick? (hnone : t.pick? tie = none) :
    t.contains (t.value * t.scale / t.unit) = false ∧
      t.contains (t.value * t.scale / t.unit + 1) = false := by
  unfold pick? at hnone
  dsimp only at hnone
  split at hnone
  · next hlow hhigh => exact ⟨hlow, hhigh⟩
  · cases hnone
  · cases hnone
  · split at hnone
    · cases hnone
    · split at hnone
      · cases hnone
      · cases tie <;> cases hnone

/-- An interval that is longer than the distance of two integers has one in it. -/
theorem isSome_pick? (h : t.Valid) (hlong : 1 < (t.high - t.low) * t.size) :
    (t.pick? tie).isSome = true := by
  rw [Option.isSome_iff_ne_none]
  intro hnone
  obtain ⟨hbelow, habove⟩ := not_contains_of_pick? hnone
  have hfloor : t.value * t.scale / t.unit = ⌊(t.value : ℚ) * t.size⌋₊ := by
    rw [← Nat.floor_div_eq_div (K := ℚ), size, ← mul_div_assoc, Nat.cast_mul]
  have hsize := h.size_pos
  have hlow : (t.low : ℚ) * t.size < t.value * t.size :=
    mul_lt_mul_of_pos_right (by exact_mod_cast h.low) hsize
  have hhigh : (t.value : ℚ) * t.size < t.high * t.size :=
    mul_lt_mul_of_pos_right (by exact_mod_cast h.high) hsize
  have hle : (⌊(t.value : ℚ) * t.size⌋₊ : ℚ) ≤ t.value * t.size := Nat.floor_le (by positivity)
  have hlt := Nat.lt_floor_add_one ((t.value : ℚ) * t.size)
  rw [hfloor, ← Bool.not_eq_true, contains_iff h, Holds] at hbelow habove
  rw [Nat.cast_add_one] at habove
  have hout : (⌊(t.value : ℚ) * t.size⌋₊ : ℚ) ≤ t.low * t.size ∧
      (t.high : ℚ) * t.size ≤ ⌊(t.value : ℚ) * t.size⌋₊ + 1 := by
    constructor <;> by_contra hin <;> rw [not_le] at hin
    · apply hbelow
      split <;> constructor <;> linarith
    · apply habove
      split <;> constructor <;> linarith
  linarith

theorem holds_of_pick? (h : t.Valid) (hn : (t.onGrid e).pick? tie = some n) :
    t.Holds (Decimal.value ⟨n, e⟩) :=
  holds_onGrid.1 ((contains_iff (h.onGrid e)).1 (contains_of_pick? hn))

/-- If the interval is longer than the step of the last grid, the decimal that is found lies in
it. -/
theorem holds_search {fuel : Nat} (h : t.Valid)
    (hlong : 10 ^ (e - fuel) < (t.high - t.low) * t.size) :
    t.Holds (t.search tie (fuel + 1) e).value := by
  induction fuel generalizing e with
  | zero =>
    have hsome : ((t.onGrid e).pick? tie).isSome = true := by
      refine isSome_pick? (h.onGrid e) ?_
      rw [high_onGrid, low_onGrid, size_onGrid, ← mul_div_assoc, one_lt_div (ten_zpow_pos e)]
      simpa using hlong
    unfold search
    split
    · next n hn => exact holds_of_pick? h hn
    · next hnone =>
      rw [hnone] at hsome
      cases hsome
  | succ fuel ih =>
    unfold search
    split
    · next n hn => exact holds_of_pick? h hn
    · exact ih (by rwa [sub_sub, add_comm 1, ← Nat.cast_add_one])

end Target

/-! ### The shortest decimal -/

variable {f : FloatFormat} {significand : Nat} {exponent : ℤ}

theorem size_of (f : FloatFormat) (significand : Nat) (exponent : ℤ) :
    (Target.of f significand exponent).size = 2 ^ (exponent - 2) := by
  unfold Target.of Target.size
  dsimp only
  split
  · next h =>
    rw [zpow_of_neg h]
    simp
  · next h =>
    rw [zpow_of_nonneg (not_lt.1 h)]
    simp

theorem valid_of (f : FloatFormat) (exponent : ℤ) (h : 0 < significand) :
    (Target.of f significand exponent).Valid := by
  have hpow : 0 < Nat.pow 2 (exponent - 2).natAbs := Nat.pow_pos (by decide)
  unfold Target.of
  constructor <;> dsimp only
  · split <;> omega
  · split <;> omega
  · split <;> omega
  · omega

/-- An interval is longer than the sixteenth decimal place of its value. -/
theorem long_of (exponent : ℤ) (hf : 2 * f.hiddenBit ≤ 10 ^ 16) (hpos : 0 < significand)
    (hlt : significand < 2 * f.hiddenBit) :
    (Target.of f significand exponent).value + (Target.of f significand exponent).low * 10 ^ 16 <
      (Target.of f significand exponent).high * 10 ^ 16 := by
  unfold Target.of
  dsimp only
  split
  · next h =>
    have := h.1
    omega
  · omega

/-- In a format whose significands have at most sixteen digits, the shortest decimal lies in the
interval. -/
theorem holds_shortest (hf : 2 * f.hiddenBit ≤ 10 ^ 16) (tie : Tie) (hpos : 0 < significand)
    (hlt : significand < 2 * f.hiddenBit) :
    (Target.of f significand exponent).Holds (shortest f tie significand exponent).value := by
  have hvalid := valid_of f exponent hpos
  have hlong := long_of exponent hf hpos hlt
  unfold shortest
  rw [if_neg hpos.ne']
  dsimp only
  rw [value_stripZeros]
  refine Target.holds_search hvalid ?_
  generalize Target.of f significand exponent = t at hvalid hlong
  have hvalue : 0 < t.value * t.scale := Nat.mul_pos (Nat.zero_lt_of_lt hvalid.low) hvalid.scale
  have hstart := pow_logQuotient_le hvalue hvalid.unit
  have hsize := hvalid.size_pos
  have hlong' : (t.value : ℚ) + t.low * 10 ^ 16 < t.high * 10 ^ 16 := by exact_mod_cast hlong
  rw [Nat.cast_mul, mul_div_assoc] at hstart
  rw [zpow_sub₀ (by norm_num), div_lt_iff₀ (by positivity)]
  calc (10 : ℚ) ^ logQuotient (t.value * t.scale) t.unit
      ≤ t.value * t.size := hstart
    _ < (t.high - t.low) * 10 ^ 16 * t.size := by
        refine mul_lt_mul_of_pos_right ?_ hsize
        linarith
    _ = (t.high - t.low) * t.size * 10 ^ ((16 : ℕ) : ℤ) := by
        rw [zpow_natCast]
        ring

end EventVm.Decimal
