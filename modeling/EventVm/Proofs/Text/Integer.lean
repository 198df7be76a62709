import EventVm.Text.Hex
import EventVm.Text.Integer
import Mathlib.Tactic.Common
import Mathlib.Tactic.IntervalCases

/-!
# Integers read back

Integers as they are shown, in decimal or as an operand in hexadecimal, are read as literals of the
same value (`integerLiteral?_toString`, `integerLiteral?_operandHex`).
-/

namespace EventVm.Text

variable {b n m d : Nat} {c : Char} {cs ds : List Char}

/-! ### Digits -/

/-- The characters of a number are digits of its base. -/
theorem mem_toDigits (hb : 1 < b) (h : c ∈ Nat.toDigits b n) : ∃ d, d < b ∧ c = d.digitChar := by
  induction n using Nat.strongRecOn with
  | _ n ih =>
    rw [Nat.toDigits_eq_if hb] at h
    split at h
    · next hn => exact ⟨n, hn, List.mem_singleton.1 h⟩
    · next hn =>
      obtain h | h := List.mem_append.1 h
      · exact ih (n / b) (Nat.div_lt_self (by omega) hb) h
      · exact ⟨n % b, Nat.mod_lt _ (by omega), List.mem_singleton.1 h⟩

theorem digit?_digitChar (hb : b ≤ 16) (hd : d < b) : digit? b d.digitChar = some d := by
  have hd16 : d < 16 := by omega
  unfold digit?
  interval_cases d <;> simp [Nat.digitChar] <;> omega

theorem appendDigits_append (n : Nat) :
    appendDigits b n (cs ++ ds) = (appendDigits b n cs).bind fun m => appendDigits b m ds := by
  induction cs generalizing n with
  | nil => rfl
  | cons c cs ih =>
    rw [List.cons_append, appendDigits, appendDigits]
    cases digit? b c with
    | none => rfl
    | some d => exact ih _

theorem appendDigits_singleton (h : digit? b c = some d) :
    appendDigits b n [c] = some (n * b + d) := by
  rw [appendDigits, h]
  rfl

theorem appendDigits_toDigits (hb : 1 < b) (hb' : b ≤ 16) :
    appendDigits b 0 (Nat.toDigits b n) = some n := by
  induction n using Nat.strongRecOn with
  | _ n ih =>
    rw [Nat.toDigits_eq_if hb]
    split
    · next hn => rw [appendDigits_singleton (digit?_digitChar hb' hn), Nat.zero_mul, Nat.zero_add]
    · next hn =>
      have hdigit : n % b < b := Nat.mod_lt _ (by omega)
      rw [appendDigits_append, ih (n / b) (Nat.div_lt_self (by omega) hb), Option.bind_some,
        appendDigits_singleton (digit?_digitChar hb' hdigit), Nat.mul_comm, Nat.div_add_mod]

theorem natural?_of_appendDigits (h : appendDigits b 0 cs = some n) (hcs : cs ≠ []) :
    natural? b cs = some n := by
  cases cs with
  | nil => exact absurd rfl hcs
  | cons c cs => exact h

/-! ### Decimal literals -/

theorem notMem_toDigits_ten (hc : c.isDigit = false) : c ∉ Nat.toDigits 10 n := by
  intro h
  have hdigit := Nat.isDigit_of_mem_toDigits (by decide) (by decide) h
  rw [hc] at hdigit
  cases hdigit

theorem signed?_toDigits : signed? 10 (Nat.toDigits 10 n) = some (n : Int) := by
  have hnatural : natural? 10 (Nat.toDigits 10 n) = some n :=
    natural?_of_appendDigits (appendDigits_toDigits (by decide) (by decide)) Nat.toDigits_ne_nil
  unfold signed?
  split
  · next heq => exact absurd (heq ▸ List.mem_cons_self) (notMem_toDigits_ten (by decide))
  · next heq => exact absurd (heq ▸ List.mem_cons_self) (notMem_toDigits_ten (by decide))
  · rw [hnatural]
    rfl

theorem signed?_toString (i : Int) : signed? 10 (toString i).toList = some i := by
  cases i with
  | ofNat n =>
    change signed? 10 (Nat.repr n).toList = _
    rw [Nat.toList_repr, signed?_toDigits]
    rfl
  | negSucc n =>
    change signed? 10 ("-" ++ Nat.repr (n + 1)).toList = _
    rw [String.toList_append, Nat.toList_repr, show "-".toList = ['-'] by decide,
      List.singleton_append, signed?,
      natural?_of_appendDigits (appendDigits_toDigits (by decide) (by decide)) Nat.toDigits_ne_nil]
    rfl

/-- The characters of a shown integer are digits, but for a sign. -/
theorem isDigit_of_mem_toString {i : Int} (h : c ∈ (toString i).toList) :
    c.isDigit = true ∨ c = '-' := by
  cases i with
  | ofNat n =>
    change c ∈ (Nat.repr n).toList at h
    rw [Nat.toList_repr] at h
    exact .inl (Nat.isDigit_of_mem_toDigits (by decide) (by decide) h)
  | negSucc n =>
    change c ∈ ("-" ++ Nat.repr (n + 1)).toList at h
    rw [String.toList_append, Nat.toList_repr] at h
    obtain h | h := List.mem_append.1 h
    · exact .inr (List.mem_singleton.1 h)
    · exact .inl (Nat.isDigit_of_mem_toDigits (by decide) (by decide) h)

/-- An integer of 64 bits is read as it is shown. -/
theorem integerLiteral?_toString {i : Int} (hlow : -0x8000000000000000 ≤ i)
    (hhigh : i < 0x8000000000000000) : integerLiteral? (toString i).toList = some i := by
  have hother : ∀ {c}, c.isDigit = false → c ≠ '-' → c ∉ (toString i).toList := by
    intro c hc hminus h
    obtain hdigit | hdigit := isDigit_of_mem_toString h
    · rw [hc] at hdigit
      cases hdigit
    · exact hminus hdigit
  unfold integerLiteral?
  dsimp only
  split
  · next heq => exact absurd (heq ▸ by simp) (hother (c := 'x') (by decide) (by decide))
  · next heq => exact absurd (heq ▸ by simp) (hother (c := 'X') (by decide) (by decide))
  · rw [signed?_toString]
    simp [hlow, hhigh]

/-! ### Hexadecimal operands -/

theorem digit?_hexDigitUpper : digit? 16 (hexDigitUpper n) = some (n % 16) := by
  have hn : n % 16 < 16 := Nat.mod_lt _ (by decide)
  unfold hexDigitUpper
  generalize n % 16 = d at hn
  interval_cases d <;> decide

theorem appendDigits_fixedHex (width n : Nat) :
    appendDigits 16 0 (fixedHex width n) = some (n % 16 ^ width) := by
  induction width generalizing n with
  | zero => simp [fixedHex, appendDigits, Nat.mod_one]
  | succ width ih =>
    rw [fixedHex, appendDigits_append, ih, Option.bind_some,
      appendDigits_singleton digit?_hexDigitUpper, Nat.pow_succ, Nat.mul_comm (16 ^ width) 16,
      Nat.mod_mul, Nat.mul_comm, Nat.add_comm]

theorem length_fixedHex (width n : Nat) : (fixedHex width n).length = width := by
  induction width generalizing n with
  | zero => rfl
  | succ width ih => rw [fixedHex, List.length_append, ih, List.length_singleton]

theorem digit?_of_mem_fixedHex {width : Nat} (h : c ∈ fixedHex width n) :
    (digit? 16 c).isSome = true := by
  induction width generalizing n with
  | zero => cases h
  | succ width ih =>
    obtain h | h := List.mem_append.1 h
    · exact ih h
    · rw [List.mem_singleton.1 h, digit?_hexDigitUpper]
      rfl

theorem signed?_fixedHex (w : UInt32) : signed? 16 (fixedHex 8 w.toNat) = some (w.toNat : Int) := by
  have hvalue : appendDigits 16 0 (fixedHex 8 w.toNat) = some w.toNat := by
    rw [appendDigits_fixedHex, Nat.mod_eq_of_lt]
    exact w.toNat_lt
  have hnatural := natural?_of_appendDigits hvalue (by
    rw [← List.length_pos_iff, length_fixedHex]
    decide)
  have hsign : ∀ {c}, (digit? 16 c).isSome = false → c ∉ fixedHex 8 w.toNat := by
    intro c hc h
    rw [digit?_of_mem_fixedHex h] at hc
    cases hc
  unfold signed?
  split
  · next heq => exact absurd (heq ▸ List.mem_cons_self) (hsign (c := '-') (by decide))
  · next heq => exact absurd (heq ▸ List.mem_cons_self) (hsign (c := '+') (by decide))
  · rw [hnatural]
    rfl

theorem toList_operandHex (w : UInt32) :
    (operandHex w).toList = '0' :: 'x' :: fixedHex 8 w.toNat :=
  String.toList_ofList

theorem integerLiteral?_operandHex (w : UInt32) :
    integerLiteral? (operandHex w).toList = some (w.toNat : Int) := by
  have hw := w.toNat_lt
  rw [toList_operandHex, integerLiteral?]
  simp only [signed?_fixedHex]
  rw [Option.filter_some, if_pos]
  simp only [Bool.and_eq_true, decide_eq_true_eq]
  omega

end EventVm.Text
