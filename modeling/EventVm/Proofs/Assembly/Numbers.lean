import EventVm.Assembly.Statement
import EventVm.Proofs.Text.Numerals

/-!
# Literals of integers

The literal of an integer type is an integer of the grammar `Text.WritesInteger`, blanks around it
aside, that lies in the range of the type and of 64 bits with a sign; its value is that integer
(`IsIntegerLiteral`). Exactly these texts are read as values of the types. An operand that begins
with a decimal digit is a number exactly if it is such a literal of an unsigned one, and is refused
if it is none; an operand that begins with a sign is a name (`integer_literals_iff`). The grammar
would let a sign stand there (`sign_of_literals`).
-/

namespace EventVm

/-- Whether an integer lies in the range of a type. -/
def TypeTag.InRange (t : TypeTag) (i : Int) : Prop :=
  match t with
  | .int32 => -0x80000000 ≤ i ∧ i < 0x80000000
  | .int64 => Text.Fits64 i
  | .uint32 => 0 ≤ i ∧ i < 0x100000000
  | _ => False

/-- Whether a value of a type holds an integer. -/
inductive Value.HoldsInteger : TypeTag → Int → Value → Prop where
  | int32 (w : Int32) : HoldsInteger .int32 w.toInt (.int32 w)
  | int64 (w : Int64) : HoldsInteger .int64 w.toInt (.int64 w)
  | uint32 (w : UInt32) : HoldsInteger .uint32 w.toNat (.uint32 w)

/-- Whether a text is the literal of a value of an integer type. -/
def IsIntegerLiteral (t : TypeTag) (text : List Char) (v : Value) : Prop :=
  ∃ i, Text.WritesInteger (Text.trim text) i ∧ Text.Fits64 i ∧ t.InRange i ∧ v.HoldsInteger t i

/-- Whether a type is one of integers. -/
def TypeTag.IsInteger (t : TypeTag) : Prop :=
  t = .int32 ∨ t = .int64 ∨ t = .uint32

/-- Whether a text begins with a decimal digit. -/
def BeginsWithDigit (text : List Char) : Prop :=
  ∃ c cs, text = c :: cs ∧ '0' ≤ c ∧ c ≤ '9'

/-- Whether a text begins with a sign. -/
def BeginsWithSign (text : List Char) : Prop :=
  ∃ c cs, text = c :: cs ∧ (c = '+' ∨ c = '-')

namespace Value

variable {t : TypeTag} {text : List Char} {v : Value} {i : Int}

theorem holdsInteger_int32 (h : TypeTag.int32.InRange i) :
    HoldsInteger .int32 i v ↔ v = .int32 (Int32.ofInt i) := by
  have hi : (Int32.ofInt i).toInt = i := Int32.toInt_ofInt_of_le h.1 h.2
  constructor
  · rintro ⟨⟩
    rw [Int32.ofInt_toInt]
  · rintro rfl
    have hword := HoldsInteger.int32 (Int32.ofInt i)
    rwa [hi] at hword

theorem holdsInteger_int64 (h : TypeTag.int64.InRange i) :
    HoldsInteger .int64 i v ↔ v = .int64 (Int64.ofInt i) := by
  have hi : (Int64.ofInt i).toInt = i := Int64.toInt_ofInt_of_le h.1 h.2
  constructor
  · rintro ⟨⟩
    rw [Int64.ofInt_toInt]
  · rintro rfl
    have hword := HoldsInteger.int64 (Int64.ofInt i)
    rwa [hi] at hword

theorem holdsInteger_uint32 (h : TypeTag.uint32.InRange i) :
    HoldsInteger .uint32 i v ↔ v = .uint32 (UInt32.ofNat i.toNat) := by
  have hlow : 0 ≤ i := h.1
  have hhigh : i < 0x100000000 := h.2
  have hi : ((UInt32.ofNat i.toNat).toNat : Int) = i := by
    rw [UInt32.toNat_ofNat_of_lt' (by rw [UInt32.size]; omega)]
    omega
  constructor
  · rintro ⟨⟩
    rw [Int.toNat_natCast, UInt32.ofNat_toNat]
  · rintro rfl
    have hword := HoldsInteger.uint32 (UInt32.ofNat i.toNat)
    rwa [hi] at hword

/-- The literals of the integer types, by what the reader of integers makes of the text. -/
theorem ofLiteral?_iff_of_isInteger (ht : t.IsInteger) : ofLiteral? t text = some v ↔
    ∃ i, Text.integerLiteral? (Text.trim text) = some i ∧ t.InRange i ∧ v.HoldsInteger t i := by
  have hnull : Text.integerLiteral? "null".toList = none := by decide
  by_cases htext : Text.trim text = "null".toList
  · have hnone : ofLiteral? t text = none := by
      unfold ofLiteral?
      obtain rfl | rfl | rfl := ht <;> simp only [htext, if_true] <;> rfl
    simp only [hnone, htext, hnull, reduceCtorEq, false_and, exists_false]
  · unfold ofLiteral?
    obtain rfl | rfl | rfl := ht
    · simp only [if_neg htext, Option.bind_eq_bind, Option.bind_eq_some_iff,
        Option.ite_none_right_eq_some, Option.some_inj]
      refine exists_congr fun i => and_congr_right fun _ => and_congr_right fun hi => ?_
      rw [holdsInteger_int32 hi, eq_comm]
    · simp only [if_neg htext, Option.map_eq_some_iff]
      refine exists_congr fun i => and_congr_right fun hread => ?_
      have hi : TypeTag.int64.InRange i := Text.fits64_of_integerLiteral? hread
      rw [holdsInteger_int64 hi, eq_comm, and_iff_right hi]
    · simp only [if_neg htext, Option.bind_eq_bind, Option.bind_eq_some_iff,
        Option.ite_none_right_eq_some, Option.some_inj]
      refine exists_congr fun i => and_congr_right fun _ => and_congr_right fun hi => ?_
      rw [holdsInteger_uint32 hi, eq_comm]

end Value

namespace Assembly

variable {text : List Char} {t : TypeTag} {v : Value} {n : UInt32}

theorem ofLiteral?_iff (h : ¬ Text.SignedHex (Text.trim text)) (ht : t.IsInteger) :
    Value.ofLiteral? t text = some v ↔ IsIntegerLiteral t text v := by
  rw [Value.ofLiteral?_iff_of_isInteger ht]
  simp only [Text.integerLiteral?_iff h, IsIntegerLiteral, and_assoc]

/-- An operand is a number if it begins with a digit and is the literal of an unsigned integer. -/
theorem parseOperand_number : parseOperand text = .ok (.number n) ↔
    BeginsWithDigit text ∧ Value.ofLiteral? .uint32 text = some (.uint32 n) := by
  unfold parseOperand BeginsWithDigit
  split
  · split <;> simp
  · next c cs _ =>
    by_cases hc : '0' ≤ c ∧ c ≤ '9'
    · rw [if_pos hc]
      split
      · next m hm => simp [hm, hc]
      · next hno => simpa [hc] using hno n
    · rw [if_neg hc]
      simp [hc]
  · simp

/-- An operand that begins with a digit is a number or is refused; it is never a name. -/
theorem parseOperand_digit (h : BeginsWithDigit text) :
    (∃ n, parseOperand text = .ok (.number n)) ∨
      parseOperand text = .error (.invalidAddress (String.ofList text)) := by
  obtain ⟨c, cs, rfl, hc⟩ := h
  unfold parseOperand
  split
  · next heq =>
    cases heq
    exact absurd hc (by decide)
  · next heq =>
    cases heq
    rw [if_pos hc]
    split
    · next n _ => exact .inl ⟨n, rfl⟩
    · exact .inr rfl
  · next heq => cases heq

theorem parseOperand_sign (h : BeginsWithSign text) :
    parseOperand text = .ok (.name (String.ofList text)) := by
  obtain ⟨c, cs, rfl, rfl | rfl⟩ := h <;> rfl

/-- Literals of integers are those of the grammar, and so are the numbers among the operands: an
operand that begins with a digit is such a literal or is refused, one that begins with a sign is a
name. -/
theorem integer_literals_iff (h : ¬ Text.SignedHex (Text.trim text)) :
    (∀ t v, t.IsInteger → (Value.ofLiteral? t text = some v ↔ IsIntegerLiteral t text v)) ∧
      (∀ n, parseOperand text = .ok (.number n) ↔
        BeginsWithDigit text ∧ IsIntegerLiteral .uint32 text (.uint32 n)) ∧
      (BeginsWithDigit text → (∀ n, ¬ IsIntegerLiteral .uint32 text (.uint32 n)) →
        parseOperand text = .error (.invalidAddress (String.ofList text))) ∧
      (BeginsWithSign text → parseOperand text = .ok (.name (String.ofList text))) := by
  have hnumber : ∀ n, parseOperand text = .ok (.number n) ↔
      BeginsWithDigit text ∧ IsIntegerLiteral .uint32 text (.uint32 n) := by
    intro n
    rw [parseOperand_number, ofLiteral?_iff h (.inr (.inr rfl))]
  refine ⟨fun t v ht => ofLiteral?_iff h ht, hnumber, fun hdigit hno => ?_, parseOperand_sign⟩
  obtain ⟨n, hn⟩ | hrefused := parseOperand_digit hdigit
  · exact absurd ((hnumber n).1 hn).2 (hno n)
  · exact hrefused

theorem isNumeral_ff : Text.IsNumeral 16 ['F', 'f'] 255 :=
  ⟨[15, 15], by decide, by decide, .cons (by decide) (.cons (by decide) .nil), by decide⟩

/-- A hexadecimal literal as the largest number of one byte, an underscore among digits, and
a sign in front. -/
theorem integer_literals_ff :
    (¬ Text.SignedHex (Text.trim "0xFf".toList) ∧
      Value.ofLiteral? .int64 "0xFf".toList = some (.int64 255) ∧
      parseOperand "0xFf".toList = .ok (.number 255)) ∧
    (¬ Text.SignedHex (Text.trim "5_0".toList) ∧
      parseOperand "5_0".toList = .error (.invalidAddress "5_0")) ∧
    ¬ Text.SignedHex (Text.trim "-7".toList) ∧ parseOperand "-7".toList = .ok (.name "-7") := by
  have htrim : Text.trim "0xFf".toList = ['0', 'x', 'F', 'f'] := by decide
  have hhex : ¬ Text.SignedHex (Text.trim "0xFf".toList) := by
    rw [htrim]
    simp [Text.SignedHex]
  have hwrites : Text.WritesInteger (Text.trim "0xFf".toList) 255 :=
    htrim ▸ .hexadecimal (.inl rfl) isNumeral_ff
  have hfits : Text.Fits64 255 := ⟨by decide, by decide⟩
  obtain ⟨hliteral, hnumber, -, -⟩ := integer_literals_iff hhex
  have hunderscore : ¬ Text.SignedHex (Text.trim "5_0".toList) := by
    rw [show Text.trim "5_0".toList = ['5', '_', '0'] by decide]
    simp [Text.SignedHex]
  obtain ⟨hread, -, hrefused, -⟩ := integer_literals_iff hunderscore
  have hminus : ¬ Text.SignedHex (Text.trim "-7".toList) := by
    rw [show Text.trim "-7".toList = ['-', '7'] by decide]
    simp [Text.SignedHex]
  obtain ⟨-, -, -, hname⟩ := integer_literals_iff hminus
  refine ⟨⟨hhex, ?literal, ?number⟩, ⟨hunderscore, ?refused⟩, hminus, ?name⟩
  case literal =>
    exact (hliteral .int64 _ (.inr (.inl rfl))).2 ⟨255, hwrites, hfits, hfits, .int64 255⟩
  case number =>
    exact (hnumber 255).2 ⟨⟨'0', ['x', 'F', 'f'], by decide⟩, 255, hwrites, hfits,
      ⟨by decide, by decide⟩, .uint32 255⟩
  case refused =>
    refine hrefused ⟨'5', ['_', '0'], by decide⟩ fun n hn => ?_
    have hsome := (hread .uint32 _ (.inr (.inr rfl))).2 hn
    have hnone : Value.ofLiteral? .uint32 "5_0".toList = none := by decide
    cases hnone.symm.trans hsome
  case name => exact hname ⟨'-', ['7'], by decide⟩

/-- The grammar lets a sign stand in front of an operand, which is then a name, and none behind
`0x`, where the reader takes one. -/
theorem sign_of_literals :
    (IsIntegerLiteral .uint32 "+0".toList (.uint32 0) ∧
      parseOperand "+0".toList = .ok (.name "+0")) ∧
    Value.ofLiteral? .int32 "0x-5".toList = some (.int32 (-5)) ∧
      ¬ IsIntegerLiteral .int32 "0x-5".toList (.int32 (-5)) := by
  have hplus : Text.trim "+0".toList = ['+', '0'] := by decide
  have hhex : Text.trim "0x-5".toList = ['0', 'x', '-', '5'] := by decide
  have hzero : Text.IsNumeral 10 ['0'] 0 :=
    ⟨[0], by decide, by decide, .cons (by decide) .nil, by decide⟩
  refine ⟨⟨⟨0, hplus ▸ .positive hzero, ⟨by decide, by decide⟩, ⟨by decide, by decide⟩,
    .uint32 0⟩, by decide⟩, by decide, ?_⟩
  rintro ⟨i, hwrites, -⟩
  rw [hhex, Text.writesInteger_hexadecimal (.inl rfl)] at hwrites
  obtain ⟨n, hn, -⟩ := hwrites
  exact (hn.head_ne (by decide)).1 rfl

end Assembly

end EventVm
