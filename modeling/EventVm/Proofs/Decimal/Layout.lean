import EventVm.Decimal.Reading
import EventVm.Proofs.Decimal.Shortest
import Mathlib.Data.List.TakeWhile

/-!
# Positional text

A finite number is shown by digits, a sign and a point (`mem_display_of_finite`), and any number by
these and a few letters (`mem_display`). The digits are read as a decimal of the same value
(`finite?_positional`).
-/

namespace EventVm.Decimal

variable {f : FloatFormat} {d : Decimal} {bits significand : Nat} {negative : Bool} {exponent : ℤ}
  {cs front places : List Char} {c : Char}

/-! ### The characters -/

theorem isDigit_of_mem_digitText {n : Nat} (h : c ∈ digitText n) : c.isDigit = true :=
  Nat.isDigit_of_mem_toDigits (by decide) (by decide) h

theorem isDigit_of_mem_zeros {n : Nat} (h : c ∈ List.replicate n '0') : c.isDigit = true := by
  rw [List.eq_of_mem_replicate h]
  decide

theorem isDigit_of_mem_positionalParts
    (h : c ∈ (positionalParts d).1 ∨ c ∈ (positionalParts d).2) : c.isDigit = true := by
  unfold positionalParts at h
  dsimp only at h
  split at h
  · obtain h | h := h
    · obtain h | h := List.mem_append.1 h
      · exact isDigit_of_mem_digitText h
      · exact isDigit_of_mem_zeros h
    · cases h
  · have hpadded : c ∈ List.replicate (d.exponent.natAbs + 1 - (digitText d.digits).length) '0' ++
        digitText d.digits :=
      h.elim List.mem_of_mem_take List.mem_of_mem_drop
    obtain h | h := List.mem_append.1 hpadded
    · exact isDigit_of_mem_zeros h
    · exact isDigit_of_mem_digitText h

theorem mem_positional (h : c ∈ positional [] d) : c.isDigit = true ∨ c = '.' := by
  unfold positional at h
  split at h
  · next front hparts =>
    rw [List.append_nil] at h
    exact .inl (isDigit_of_mem_positionalParts (.inl (by rwa [hparts])))
  · next front places _ hparts =>
    obtain h | h := List.mem_append.1 h
    · exact .inl (isDigit_of_mem_positionalParts (.inl (by rwa [hparts])))
    · obtain rfl | h := List.mem_cons.1 h
      · exact .inr rfl
      · exact .inl (isDigit_of_mem_positionalParts (.inr (by rwa [hparts])))

theorem mem_signText (h : c ∈ signText negative) : c = '-' := by
  cases negative with
  | false => cases h
  | true => exact List.mem_singleton.1 h

theorem mem_display_of_finite (hf : f.decode bits = .finite negative significand exponent)
    (h : c ∈ (display f bits).toList) : c.isDigit = true ∨ c = '-' ∨ c = '.' := by
  unfold display at h
  rw [hf] at h
  dsimp only at h
  rw [String.toList_ofList] at h
  obtain h | h := List.mem_append.1 h
  · exact .inr (.inl (mem_signText h))
  · exact (mem_positional h).imp_right .inr

theorem mem_display (h : c ∈ (display f bits).toList) :
    c.isDigit = true ∨ c ∈ "-.NaNinf".toList := by
  cases hf : f.decode bits with
  | nan =>
    have hword : "NaN".toList ⊆ "-.NaNinf".toList := by decide
    rw [display, hf] at h
    exact .inr (hword h)
  | infinite negative =>
    have hword : signText negative ++ "inf".toList ⊆ "-.NaNinf".toList := by
      cases negative <;> decide
    rw [display, hf] at h
    dsimp only at h
    rw [String.toList_ofList] at h
    exact .inr (hword h)
  | finite =>
    obtain h | rfl | rfl := mem_display_of_finite hf h
    · exact .inl h
    · exact .inr (by decide)
    · exact .inr (by decide)

/-- No number is shown by a word with any other letter. -/
theorem display_ne {word : List Char} (h : c ∈ word) (hdigit : c.isDigit = false)
    (hletter : c ∉ "-.NaNinf".toList) : (display f bits).toList ≠ word := by
  rintro rfl
  obtain hc | hc := mem_display h
  · exact absurd hc (by rw [hdigit]; decide)
  · exact hletter hc

/-! ### Reading digits -/

theorem ofDigits_eq (ds : List Char) : ofDigits ds = Nat.ofDigitChars 10 ds 0 := by
  rw [Nat.ofDigitChars_eq_foldl, ofDigits]
  simp only [Nat.mul_comm]

/-- Digits write a number. -/
theorem finite?_digits (hfront : ∀ c ∈ front, isDigit c = true) (hne : front ≠ []) :
    finite? front = some ⟨ofDigits front, 0⟩ := by
  unfold finite?
  rw [List.takeWhile_eq_self_iff.2 hfront, List.dropWhile_eq_nil_iff.2 hfront]
  simp [hne, exponent?]

/-- So do digits with a point and more digits behind them. -/
theorem finite?_point (hfront : ∀ c ∈ front, isDigit c = true) (hne : front ≠ [])
    (hplaces : ∀ c ∈ places, isDigit c = true) :
    finite? (front ++ '.' :: places) = some ⟨ofDigits (front ++ places), -places.length⟩ := by
  have htake : (front ++ '.' :: places).takeWhile isDigit = front := by
    rw [List.takeWhile_append_of_pos hfront, List.takeWhile_cons_of_neg (by decide),
      List.append_nil]
  have hdrop : (front ++ '.' :: places).dropWhile isDigit = '.' :: places := by
    rw [List.dropWhile_append_of_pos hfront, List.dropWhile_cons_of_neg (by decide)]
  unfold finite?
  rw [htake, hdrop]
  simp only [List.takeWhile_eq_self_iff.2 hplaces, List.dropWhile_eq_nil_iff.2 hplaces]
  simp [hne, exponent?]

/-- A decimal with zeros behind its digits is read as a decimal of the same value. -/
theorem finite?_of_nonneg (he : 0 ≤ d.exponent) :
    ∃ d', finite? (positional [] d) = some d' ∧ d'.value = d.value := by
  have htext : positional [] d = digitText d.digits ++ List.replicate d.exponent.toNat '0' := by
    simp [positional, positionalParts, he]
  have hdigits : ∀ c ∈ digitText d.digits ++ List.replicate d.exponent.toNat '0',
      isDigit c = true := fun c hc =>
    (List.mem_append.1 hc).elim isDigit_of_mem_digitText isDigit_of_mem_zeros
  have hne : digitText d.digits ++ List.replicate d.exponent.toNat '0' ≠ [] :=
    List.append_ne_nil_of_left_ne_nil Nat.toDigits_ne_nil _
  refine ⟨_, by rw [htext, finite?_digits hdigits hne], ?_⟩
  obtain ⟨n, hn⟩ := Int.eq_ofNat_of_zero_le he
  rw [ofDigits_eq, Nat.ofDigitChars_append, Nat.ofDigitChars_replicate_zero, digitText,
    Nat.ofDigitChars_ten_toDigits, value, value, hn]
  simp [mul_comm]

/-- The digits around the point, with zeros in front of them if there are too few. -/
theorem positionalParts_of_neg (he : d.exponent < 0) : ∃ front places,
    positionalParts d = (front, places) ∧ front ≠ [] ∧ places.length = d.exponent.natAbs ∧
    ofDigits (front ++ places) = d.digits := by
  refine ⟨_, _, if_neg (not_le.2 he), ?_⟩
  generalize hpadded : List.replicate (d.exponent.natAbs + 1 - (digitText d.digits).length) '0' ++
    digitText d.digits = padded
  have hlength : d.exponent.natAbs < padded.length := by
    rw [← hpadded, List.length_append, List.length_replicate]
    omega
  refine ⟨?_, ?_, ?_⟩
  · rw [← List.length_pos_iff, List.length_take]
    omega
  · rw [List.length_drop]
    omega
  · rw [List.take_append_drop, ← hpadded, ofDigits_eq, Nat.ofDigitChars_append,
      Nat.ofDigitChars_replicate_zero, Nat.mul_zero, digitText, Nat.ofDigitChars_ten_toDigits]

/-- So is one with digits behind the point. -/
theorem finite?_of_neg (he : d.exponent < 0) :
    ∃ d', finite? (positional [] d) = some d' ∧ d'.value = d.value := by
  obtain ⟨front, places, hparts, hne, hlength, hdigits⟩ := positionalParts_of_neg he
  have hfront : ∀ c ∈ front, isDigit c = true := fun c hc =>
    isDigit_of_mem_positionalParts (.inl (by rwa [hparts]))
  have hplaces : ∀ c ∈ places, isDigit c = true := fun c hc =>
    isDigit_of_mem_positionalParts (.inr (by rwa [hparts]))
  have htext : positional [] d = front ++ '.' :: places := by
    cases places with
    | nil =>
      rw [List.length_nil] at hlength
      omega
    | cons p ps =>
      unfold positional
      rw [hparts]
  refine ⟨_, by rw [htext, finite?_point hfront hne hplaces], ?_⟩
  rw [hdigits, hlength, ← Int.eq_neg_natAbs_of_nonpos he.le]

/-- A decimal in positional notation is read as a decimal of the same value. -/
theorem finite?_positional (d : Decimal) :
    ∃ d', finite? (positional [] d) = some d' ∧ d'.value = d.value :=
  (le_or_gt 0 d.exponent).elim finite?_of_nonneg finite?_of_neg

/-- A decimal in positional notation begins with a digit. -/
theorem positional_eq_cons (d : Decimal) :
    ∃ c cs, positional [] d = c :: cs ∧ c.isDigit = true := by
  have hne : (positionalParts d).1 ≠ [] := by
    obtain he | he := le_or_gt 0 d.exponent
    · rw [positionalParts, if_pos he]
      exact List.append_ne_nil_of_left_ne_nil Nat.toDigits_ne_nil _
    · obtain ⟨front, places, hparts, hne, -⟩ := positionalParts_of_neg he
      rwa [hparts]
  obtain ⟨c, cs, hfront⟩ := List.exists_cons_of_ne_nil hne
  have hdigit : c.isDigit = true :=
    isDigit_of_mem_positionalParts (.inl (by rw [hfront]; exact List.mem_cons_self))
  unfold positional
  split
  · next front hparts =>
    obtain rfl : front = c :: cs := by rwa [hparts] at hfront
    exact ⟨c, cs ++ [], rfl, hdigit⟩
  · next front places _ hparts =>
    obtain rfl : front = c :: cs := by rwa [hparts] at hfront
    exact ⟨c, cs ++ '.' :: places, rfl, hdigit⟩

/-! ### Reading numerals -/

theorem toLower_of_isDigit (h : c.isDigit = true) : c.toLower = c := by
  rw [Char.isDigit, Bool.and_eq_true, decide_eq_true_eq, decide_eq_true_eq] at h
  refine dif_neg fun hupper => ?_
  have hdigit := UInt32.le_iff_toNat_le.1 h.2
  have hletter := UInt32.le_iff_toNat_le.1 hupper.1
  exact absurd (hletter.trans hdigit) (by decide)

/-- What begins with a digit is no word. -/
theorem magnitude?_digit (hc : c.isDigit = true) :
    magnitude? (c :: cs) = (finite? (c :: cs)).map .finite := by
  have hword : ∀ word : String, word.toList.head? = some 'i' ∨ word.toList.head? = some 'n' →
      String.ofList ((c :: cs).map Char.toLower) ≠ word := by
    rintro _ hhead rfl
    rw [String.toList_ofList, List.map_cons, toLower_of_isDigit hc] at hhead
    obtain hhead | hhead := hhead
    all_goals
      rw [Option.some.inj hhead] at hc
      exact absurd hc (by decide)
  unfold magnitude?
  dsimp only
  rw [if_neg, if_neg (hword _ (.inr (by decide)))]
  rintro (h | h)
  · exact hword _ (.inl (by decide)) h
  · exact hword _ (.inl (by decide)) h

theorem readSign_digit (hc : c.isDigit = true) : readSign (c :: cs) = (false, c :: cs) := by
  unfold readSign
  split
  · next heq =>
    rw [(List.cons.inj heq).1] at hc
    cases hc
  · next heq =>
    rw [(List.cons.inj heq).1] at hc
    cases hc
  · rfl

/-- What is read of a number that is shown by digits, with or without a sign. -/
theorem read?_signed (negative : Bool) (hc : c.isDigit = true) :
    read? f (signText negative ++ c :: cs) =
      (finite? (c :: cs)).map fun d => f.withSign negative (roundTo f d) := by
  have hsign : readSign (signText negative ++ c :: cs) = (negative, c :: cs) := by
    cases negative with
    | false => exact readSign_digit hc
    | true => rfl
  unfold read?
  rw [hsign]
  dsimp only
  rw [magnitude?_digit hc, Option.map_map]
  rfl

end EventVm.Decimal
