import EventVm.Proofs.Text.Integer
import Mathlib.Data.List.Forall2
import Mathlib.Data.Nat.Digits.Defs

/-!
# The grammar of integers

A numeral is one or more digits of its base (`IsNumeral`), a letter being a digit in either case. An
integer is written as a decimal numeral, with or without a sign in front, or as a hexadecimal one
behind `0x` or `0X` (`WritesInteger`).

The reader takes exactly the integers of 64 bits that the grammar writes (`integerLiteral?_iff`).
One kind of text is left aside, `SignedHex`: behind `0x` the reader takes a sign too, which the
grammar has no place for.
-/

namespace EventVm.Text

variable {b n m d : Nat} {c : Char} {cs : List Char} {i : Int}

/-! ### Numerals -/

/-- Whether a character is the digit of some value, a letter in either case. -/
def IsDigitOf (c : Char) (d : Nat) : Prop :=
  c = d.digitChar ∨ c = d.digitChar.toUpper

instance (c : Char) (d : Nat) : Decidable (IsDigitOf c d) :=
  inferInstanceAs (Decidable (_ ∨ _))

/-- Whether a text is one or more digits of a base and writes a number with them. -/
def IsNumeral (base : Nat) (cs : List Char) (n : Nat) : Prop :=
  ∃ ds : List Nat, ds ≠ [] ∧ (∀ d ∈ ds, d < base) ∧ List.Forall₂ IsDigitOf cs ds ∧
    n = Nat.ofDigits base ds.reverse

theorem isDigitOf_of_digit? (h : digit? b c = some d) : IsDigitOf c d := by
  unfold digit? at h
  dsimp only at h
  have hc := Char.ofNat_toNat c
  split at h
  · next hrange =>
    have hlow : 48 ≤ c.toNat := UInt32.le_iff_toNat_le.1 hrange.1
    have hhigh : c.toNat ≤ 57 := UInt32.le_iff_toNat_le.1 hrange.2
    obtain ⟨-, rfl⟩ := Option.ite_some_none_eq_some.1 h
    rw [← hc]
    generalize c.toNat = k at hlow hhigh
    interval_cases k <;> decide
  split at h
  · next hrange =>
    have hlow : 97 ≤ c.toNat := UInt32.le_iff_toNat_le.1 hrange.1
    have hhigh : c.toNat ≤ 102 := UInt32.le_iff_toNat_le.1 hrange.2
    obtain ⟨-, rfl⟩ := Option.ite_some_none_eq_some.1 h
    rw [← hc]
    generalize c.toNat = k at hlow hhigh
    interval_cases k <;> decide
  split at h
  · next hrange =>
    have hlow : 65 ≤ c.toNat := UInt32.le_iff_toNat_le.1 hrange.1
    have hhigh : c.toNat ≤ 70 := UInt32.le_iff_toNat_le.1 hrange.2
    obtain ⟨-, rfl⟩ := Option.ite_some_none_eq_some.1 h
    rw [← hc]
    generalize c.toNat = k at hlow hhigh
    interval_cases k <;> decide
  · simp at h

theorem digit?_lt (h : digit? b c = some d) : d < b := by
  unfold digit? at h
  obtain ⟨hlt, rfl⟩ := Option.ite_some_none_eq_some.1 h
  exact hlt

/-- A digit is one of every base that its value is in. -/
theorem digit?_of_sixteen (h : digit? 16 c = some d) (hd : d < b) : digit? b c = some d := by
  unfold digit? at h ⊢
  dsimp only at h ⊢
  split at h
  · next hrange =>
    obtain ⟨-, rfl⟩ := Option.ite_some_none_eq_some.1 h
    rw [if_pos hrange, if_pos hd]
  split at h
  · next hrange' hrange =>
    obtain ⟨-, rfl⟩ := Option.ite_some_none_eq_some.1 h
    rw [if_neg hrange', if_pos hrange, if_pos hd]
  split at h
  · next hrange'' hrange' hrange =>
    obtain ⟨-, rfl⟩ := Option.ite_some_none_eq_some.1 h
    rw [if_neg hrange'', if_neg hrange', if_pos hrange, if_pos hd]
  · simp at h

theorem digit?_iff (hb : b ≤ 16) : digit? b c = some d ↔ d < b ∧ IsDigitOf c d := by
  refine ⟨fun h => ⟨digit?_lt h, isDigitOf_of_digit? h⟩, ?_⟩
  rintro ⟨hd, rfl | rfl⟩
  · exact digit?_digitChar hb hd
  · have hd16 : d < 16 := by omega
    refine digit?_of_sixteen ?_ hd
    interval_cases d <;> decide

theorem appendDigits_iff (hb : b ≤ 16) : appendDigits b n cs = some m ↔
    ∃ ds : List Nat, (∀ d ∈ ds, d < b) ∧ List.Forall₂ IsDigitOf cs ds ∧
      m = n * b ^ ds.length + Nat.ofDigits b ds.reverse := by
  induction cs generalizing n with
  | nil =>
    rw [appendDigits, Option.some_inj]
    constructor
    · rintro rfl
      exact ⟨[], by simp, .nil, by simp⟩
    · rintro ⟨_, -, ⟨⟩, rfl⟩
      simp
  | cons c cs ih =>
    have hvalue (d : Nat) (ds : List Nat) :
        n * b ^ (d :: ds).length + Nat.ofDigits b (d :: ds).reverse =
          (n * b + d) * b ^ ds.length + Nat.ofDigits b ds.reverse := by
      rw [List.length_cons, List.reverse_cons, Nat.ofDigits_append, List.length_reverse,
        Nat.ofDigits_singleton]
      ring
    simp only [appendDigits, Option.bind_eq_bind, Option.bind_eq_some_iff]
    constructor
    · rintro ⟨d, hdigit, hrest⟩
      obtain ⟨ds, hlt, hds, rfl⟩ := ih.1 hrest
      obtain ⟨hd, hc⟩ := (digit?_iff hb).1 hdigit
      exact ⟨d :: ds, List.forall_mem_cons.2 ⟨hd, hlt⟩, .cons hc hds, (hvalue d ds).symm⟩
    · rintro ⟨_, hlt, hds, rfl⟩
      obtain ⟨d, ds, hc, hrest, rfl⟩ := List.forall₂_cons_left_iff.1 hds
      obtain ⟨hd, hlt⟩ := List.forall_mem_cons.1 hlt
      exact ⟨d, (digit?_iff hb).2 ⟨hd, hc⟩, ih.2 ⟨ds, hlt, hrest, hvalue d ds⟩⟩

theorem natural?_iff (hb : b ≤ 16) : natural? b cs = some n ↔ IsNumeral b cs n := by
  cases cs with
  | nil =>
    constructor
    · rintro ⟨⟩
    · rintro ⟨_, hne, -, ⟨⟩, -⟩
      exact absurd rfl hne
  | cons c cs =>
    rw [natural?, appendDigits_iff hb]
    · simp only [Nat.zero_mul, Nat.zero_add]
      constructor
      · rintro ⟨ds, hlt, hds, rfl⟩
        have hne : ds ≠ [] := by
          rintro rfl
          cases hds
        exact ⟨ds, hne, hlt, hds, rfl⟩
      · rintro ⟨ds, -, hlt, hds, rfl⟩
        exact ⟨ds, hlt, hds, rfl⟩
    · simp

/-- The first character of a numeral is a digit. -/
theorem IsNumeral.head {base : Nat} (h : IsNumeral base (c :: cs) n) :
    ∃ d, d < base ∧ IsDigitOf c d := by
  obtain ⟨ds, -, hlt, hds, -⟩ := h
  obtain ⟨d, ds, hc, -, rfl⟩ := List.forall₂_cons_left_iff.1 hds
  exact ⟨d, hlt d List.mem_cons_self, hc⟩

theorem not_isDigitOf (hc : c = '-' ∨ c = '+' ∨ c = 'x' ∨ c = 'X') (hd : d < 16) :
    ¬ IsDigitOf c d := by
  obtain rfl | rfl | rfl | rfl := hc <;> interval_cases d <;> decide

/-! ### Integers -/

/-- Whether a text writes an integer. -/
inductive WritesInteger : List Char → Int → Prop where
  | decimal {cs : List Char} {n : Nat} (h : IsNumeral 10 cs n) : WritesInteger cs n
  | positive {cs : List Char} {n : Nat} (h : IsNumeral 10 cs n) : WritesInteger ('+' :: cs) n
  | negative {cs : List Char} {n : Nat} (h : IsNumeral 10 cs n) :
    WritesInteger ('-' :: cs) (-(n : Int))
  | hexadecimal {x : Char} {cs : List Char} {n : Nat} (hx : x = 'x' ∨ x = 'X')
    (h : IsNumeral 16 cs n) : WritesInteger ('0' :: x :: cs) n

/-- The integers that fit 64 bits, with a sign. -/
def Fits64 (i : Int) : Prop :=
  -0x8000000000000000 ≤ i ∧ i < 0x8000000000000000

/-- Whether a text is `0x` or `0X` with a sign behind it. -/
def SignedHex : List Char → Prop
  | '0' :: x :: c :: _ => (x = 'x' ∨ x = 'X') ∧ (c = '+' ∨ c = '-')
  | _ => False

theorem signed?_minus : signed? b ('-' :: cs) = some i ↔
    ∃ n : Nat, natural? b cs = some n ∧ i = -(n : Int) := by
  rw [signed?]
  cases natural? b cs <;> simp [eq_comm]

theorem signed?_plus : signed? b ('+' :: cs) = some i ↔
    ∃ n : Nat, natural? b cs = some n ∧ i = n := by
  simp [signed?, eq_comm]

/-- Without a sign in front there is only the number. -/
theorem signed?_of_unsigned (h : ∀ c, cs.head? = some c → c ≠ '+' ∧ c ≠ '-') :
    signed? b cs = some i ↔ ∃ n : Nat, natural? b cs = some n ∧ i = n := by
  unfold signed?
  split
  · exact absurd rfl (h '-' rfl).2
  · exact absurd rfl (h '+' rfl).1
  · simp [eq_comm]

theorem IsNumeral.head_ne {ds : List Char} (h : IsNumeral b (c :: ds) n) (hb : b ≤ 16) :
    c ≠ '-' ∧ c ≠ '+' ∧ c ≠ 'x' ∧ c ≠ 'X' := by
  obtain ⟨d, hd, hdigit⟩ := h.head
  have hc := mt (not_isDigitOf (d := d) · (by omega)) (not_not.2 hdigit)
  tauto

/-- A decimal numeral is not what stands behind `0x`. -/
theorem not_isNumeral_hexadecimal {x : Char} (hx : x = 'x' ∨ x = 'X') :
    ¬ IsNumeral 10 ('0' :: x :: cs) n := by
  rintro ⟨ds, -, hlt, hds, -⟩
  obtain ⟨d, ds, -, hrest, rfl⟩ := List.forall₂_cons_left_iff.1 hds
  obtain ⟨e, es, hdigit, -, rfl⟩ := List.forall₂_cons_left_iff.1 hrest
  have he : e < 10 := hlt e (by simp)
  exact not_isDigitOf (by tauto) (by omega) hdigit

theorem writesInteger_hexadecimal {x : Char} (hx : x = 'x' ∨ x = 'X') :
    WritesInteger ('0' :: x :: cs) i ↔ ∃ n : Nat, IsNumeral 16 cs n ∧ i = n := by
  constructor
  · rintro (h | - | - | ⟨-, h⟩)
    · exact absurd h (not_isNumeral_hexadecimal hx)
    · exact ⟨_, h, rfl⟩
  · rintro ⟨n, hn, rfl⟩
    exact .hexadecimal hx hn

/-- Away from `0x` the grammar is that of decimal integers. -/
theorem signed?_ten_iff (h : ∀ x ds, cs = '0' :: x :: ds → ¬ (x = 'x' ∨ x = 'X')) :
    signed? 10 cs = some i ↔ WritesInteger cs i := by
  have hten (ds : List Char) (n : Nat) : natural? 10 ds = some n ↔ IsNumeral 10 ds n :=
    natural?_iff (by decide)
  by_cases hsign : ∀ c, cs.head? = some c → c ≠ '+' ∧ c ≠ '-'
  · simp only [signed?_of_unsigned hsign, hten]
    constructor
    · rintro ⟨n, hn, rfl⟩
      exact .decimal hn
    · rintro (hn | - | - | ⟨hx, -⟩)
      · exact ⟨_, hn, rfl⟩
      · exact absurd rfl (hsign '+' rfl).1
      · exact absurd rfl (hsign '-' rfl).2
      · exact absurd hx (h _ _ rfl)
  · push Not at hsign
    obtain ⟨c, hc, hsign⟩ := hsign
    obtain ⟨ds, rfl⟩ := List.head?_eq_some_iff.1 hc
    by_cases hplus : c = '+'
    · subst hplus
      simp only [signed?_plus, hten]
      constructor
      · rintro ⟨n, hn, rfl⟩
        exact .positive hn
      · rintro (hn | hn)
        · exact absurd rfl (hn.head_ne (by decide)).2.1
        · exact ⟨_, hn, rfl⟩
    · obtain rfl := hsign hplus
      simp only [signed?_minus, hten]
      constructor
      · rintro ⟨n, hn, rfl⟩
        exact .negative hn
      · rintro (hn | - | hn)
        · exact absurd rfl (hn.head_ne (by decide)).1
        · exact ⟨_, hn, rfl⟩

theorem signed?_sixteen_iff {x : Char} (hx : x = 'x' ∨ x = 'X')
    (h : ¬ SignedHex ('0' :: x :: cs)) :
    signed? 16 cs = some i ↔ WritesInteger ('0' :: x :: cs) i := by
  have hsign : ∀ c, cs.head? = some c → c ≠ '+' ∧ c ≠ '-' := by
    intro c hc
    obtain ⟨ds, rfl⟩ := List.head?_eq_some_iff.1 hc
    simpa [SignedHex, hx] using h
  simp only [signed?_of_unsigned hsign, writesInteger_hexadecimal hx,
    natural?_iff (b := 16) (by decide)]

theorem integerLiteral?_hexadecimal {x : Char} (hx : x = 'x' ∨ x = 'X') :
    integerLiteral? ('0' :: x :: cs) = some i ↔ signed? 16 cs = some i ∧ Fits64 i := by
  obtain rfl | rfl := hx <;> simp [integerLiteral?, Option.filter_eq_some_iff, Fits64]

theorem integerLiteral?_decimal (h : ∀ x ds, cs = '0' :: x :: ds → ¬ (x = 'x' ∨ x = 'X')) :
    integerLiteral? cs = some i ↔ signed? 10 cs = some i ∧ Fits64 i := by
  unfold integerLiteral?
  dsimp only
  split
  · exact absurd (.inl rfl) (h _ _ rfl)
  · exact absurd (.inr rfl) (h _ _ rfl)
  · simp [Option.filter_eq_some_iff, Fits64]

theorem fits64_of_integerLiteral? (h : integerLiteral? cs = some i) : Fits64 i := by
  unfold integerLiteral? at h
  simpa [Fits64] using (Option.filter_eq_some_iff.1 h).2

/-- The reader takes the integers of 64 bits that the grammar writes. -/
theorem integerLiteral?_iff (h : ¬ SignedHex cs) :
    integerLiteral? cs = some i ↔ WritesInteger cs i ∧ Fits64 i := by
  by_cases hhex : ∃ x ds, cs = '0' :: x :: ds ∧ (x = 'x' ∨ x = 'X')
  · obtain ⟨x, ds, rfl, hx⟩ := hhex
    rw [integerLiteral?_hexadecimal hx, signed?_sixteen_iff hx h]
  · have hten : ∀ x ds, cs = '0' :: x :: ds → ¬ (x = 'x' ∨ x = 'X') :=
      fun x ds hcs hx => hhex ⟨x, ds, hcs, hx⟩
    rw [integerLiteral?_decimal hten, signed?_ten_iff hten]

end EventVm.Text
