import EventVm.Proofs.Decimal.RoundTrip
import EventVm.Proofs.Text.Lines
import EventVm.Proofs.Text.Quoted
import EventVm.Value.Literal
import Mathlib.Data.List.DropRight

/-!
# Literals read back

Null, Booleans and integers are read as they are shown, operands in hexadecimal as the words they
stand for. So are floating-point numbers, most NaNs (`ofLiteral?_double`) and the infinities of
single precision (`ofLiteral?_single`) left aside.
-/

namespace EventVm.Value

open Text

/-- The visible characters of ASCII are not blank. -/
theorem isBlank_of_visible {c : Char} (hlow : 0x21 ≤ c.toNat) (hhigh : c.toNat ≤ 0x7e) :
    isBlank c = false := by
  simp only [isBlank, inRanges, blankRanges, List.any_cons, List.any_nil, Bool.or_false,
    Bool.or_eq_false_iff, Bool.and_eq_false_iff, decide_eq_false_iff_not]
  omega

theorem toNat_le_of_le {c d : Char} (h : c ≤ d) : c.toNat ≤ d.toNat :=
  UInt32.le_iff_toNat_le.1 h

theorem isBlank_of_isDigit {c : Char} (h : c.isDigit = true) : isBlank c = false := by
  rw [Char.isDigit, Bool.and_eq_true, decide_eq_true_eq, decide_eq_true_eq] at h
  have hlow : 48 ≤ c.toNat := UInt32.le_iff_toNat_le.1 h.1
  have hhigh : c.toNat ≤ 57 := UInt32.le_iff_toNat_le.1 h.2
  exact isBlank_of_visible (by omega) (by omega)

theorem isBlank_of_digit? {base : Nat} {c : Char} (h : (digit? base c).isSome = true) :
    isBlank c = false := by
  unfold digit? at h
  dsimp only at h
  split at h
  · next hc =>
    have hlow : 48 ≤ c.toNat := toNat_le_of_le hc.1
    have hhigh : c.toNat ≤ 57 := toNat_le_of_le hc.2
    exact isBlank_of_visible (by omega) (by omega)
  split at h
  · next hc =>
    have hlow : 97 ≤ c.toNat := toNat_le_of_le hc.1
    have hhigh : c.toNat ≤ 102 := toNat_le_of_le hc.2
    exact isBlank_of_visible (by omega) (by omega)
  split at h
  · next hc =>
    have hlow : 65 ≤ c.toNat := toNat_le_of_le hc.1
    have hhigh : c.toNat ≤ 70 := toNat_le_of_le hc.2
    exact isBlank_of_visible (by omega) (by omega)
  · simp at h

theorem isTrimmed_toString (i : Int) : IsTrimmed (toString i).toList := by
  refine isTrimmed_of_forall fun c hc => ?_
  obtain hdigit | rfl := isDigit_of_mem_toString hc
  · exact isBlank_of_isDigit hdigit
  · decide

/-- No integer is shown by a word with a letter. -/
theorem toString_ne {word : List Char} {c : Char} (h : c ∈ word) (hdigit : c.isDigit = false)
    (hminus : c ≠ '-') (i : Int) : (toString i).toList ≠ word := by
  rintro rfl
  obtain hc | hc := isDigit_of_mem_toString h
  · exact absurd hc (by rw [hdigit]; decide)
  · exact hminus hc

theorem toString_ne_null (i : Int) : (toString i).toList ≠ "null".toList :=
  toString_ne (c := 'n') (by decide) (by decide) (by decide) i

theorem ofLiteral?_null {t : TypeTag} (h : t.isNullable = true) :
    ofLiteral? t "null".toList = some .null := by
  have htrim : trim "null".toList = "null".toList := by decide
  unfold ofLiteral?
  simp only [htrim, if_true, h]

theorem ofLiteral?_boolean (b : Bool) :
    ofLiteral? .boolean (boolean b).display.toList = some (.boolean b) := by
  cases b <;> decide

theorem ofLiteral?_int32 (i : Int32) :
    ofLiteral? .int32 (int32 i).display.toList = some (.int32 i) := by
  have hlow := i.le_toInt
  have hhigh := i.toInt_lt
  have hread : integerLiteral? (toString i.toInt).toList = some i.toInt :=
    integerLiteral?_toString (by omega) (by omega)
  unfold ofLiteral? display
  simp only [show trim (toString i.toInt).toList = _ from isTrimmed_toString _,
    if_neg (toString_ne_null _), hread, Option.bind_eq_bind, Option.bind_some]
  rw [if_pos (by omega), Int32.ofInt_toInt]

theorem ofLiteral?_int64 (i : Int64) :
    ofLiteral? .int64 (int64 i).display.toList = some (.int64 i) := by
  have hread : integerLiteral? (toString i.toInt).toList = some i.toInt :=
    integerLiteral?_toString i.le_toInt i.toInt_lt
  unfold ofLiteral? display
  simp only [show trim (toString i.toInt).toList = _ from isTrimmed_toString _,
    if_neg (toString_ne_null _), hread, Option.map_some, Int64.ofInt_toInt]

/-- What reads as an unsigned integer is the literal of that word. -/
theorem ofLiteral?_uint32_of_read {text : List Char} {w : UInt32} (htrim : IsTrimmed text)
    (hnull : text ≠ "null".toList) (hread : integerLiteral? text = some (w.toNat : Int)) :
    ofLiteral? .uint32 text = some (.uint32 w) := by
  have hrange : (0 : Int) ≤ w.toNat ∧ (w.toNat : Int) < 0x100000000 := by
    have hw := w.toNat_lt
    omega
  unfold ofLiteral?
  rw [show trim text = text from htrim]
  dsimp only
  rw [if_neg hnull, hread, Option.bind_eq_bind, Option.bind_some, if_pos hrange,
    Int.toNat_natCast, UInt32.ofNat_toNat]

theorem ofLiteral?_uint32 (w : UInt32) :
    ofLiteral? .uint32 (uint32 w).display.toList = some (.uint32 w) := by
  have hlow : -0x8000000000000000 ≤ (w.toNat : Int) := by omega
  have hhigh : (w.toNat : Int) < 0x8000000000000000 := by
    have hw := w.toNat_lt
    omega
  rw [show (uint32 w).display = toString (w.toNat : Int) from rfl]
  exact ofLiteral?_uint32_of_read (isTrimmed_toString _) (toString_ne_null _)
    (integerLiteral?_toString hlow hhigh)

theorem isBlank_of_mem_operandHex {w : UInt32} {c : Char} (h : c ∈ (operandHex w).toList) :
    isBlank c = false := by
  rw [toList_operandHex] at h
  obtain rfl | h := List.mem_cons.1 h
  · decide
  · obtain rfl | h := List.mem_cons.1 h
    · decide
    · exact isBlank_of_digit? (digit?_of_mem_fixedHex h)

theorem isTrimmed_operandHex (w : UInt32) : IsTrimmed (operandHex w).toList :=
  isTrimmed_of_forall fun _ => isBlank_of_mem_operandHex

theorem ofLiteral?_operandHex (w : UInt32) :
    ofLiteral? .uint32 (operandHex w).toList = some (.uint32 w) := by
  refine ofLiteral?_uint32_of_read (isTrimmed_operandHex w) ?_ (integerLiteral?_operandHex w)
  rw [toList_operandHex, show "null".toList = ['n', 'u', 'l', 'l'] by decide]
  exact fun h => absurd (List.cons.inj h).1 (by decide)

/-! ### Floating-point numbers -/

theorem isTrimmed_decimal (f : FloatFormat) (bits : Nat) :
    IsTrimmed (Decimal.display f bits).toList := by
  have hword : "-.NaNinf".toList.all (fun c => !isBlank c) = true := by decide
  refine isTrimmed_of_forall fun c hc => ?_
  obtain hdigit | hc := Decimal.mem_display hc
  · exact isBlank_of_isDigit hdigit
  · simpa using List.all_eq_true.1 hword c hc

theorem decimal_ne_null (f : FloatFormat) (bits : Nat) :
    (Decimal.display f bits).toList ≠ "null".toList :=
  Decimal.display_ne (c := 'u') (by decide) (by decide) (by decide)

/-- The literal of a double is read unless it is a NaN other than the one that is read for all. -/
theorem ofLiteral?_double {bits : UInt64} (h : FloatFormat.double.decode bits.toNat = .nan →
      bits.toNat = FloatFormat.double.nanBits) :
    ofLiteral? .double (double bits).display.toList = some (.double bits) := by
  have hread := (Decimal.read?_display FloatFormat.isSmall_double bits.toNat_lt).2 h
  unfold ofLiteral? display
  simp only [show trim _ = _ from isTrimmed_decimal .double bits.toNat,
    if_neg (decimal_ne_null .double bits.toNat), hread, Option.map_some, UInt64.ofNat_toNat]

/-- Only the infinities are shown with the letter at the end that literals may have. -/
theorem trimEnd_decimal {f : FloatFormat} {bits : Nat}
    (h : ∀ negative, f.decode bits ≠ .infinite negative) :
    (Decimal.display f bits).toList.rdropWhile (· == 'f') = (Decimal.display f bits).toList := by
  rw [List.rdropWhile_eq_self_iff]
  intro hne hlast
  have hmem := List.getLast_mem hne
  rw [beq_iff_eq.1 hlast] at hmem
  cases hf : f.decode bits with
  | nan =>
    have hword : 'f' ∉ "NaN".toList := by decide
    rw [Decimal.display, hf] at hmem
    exact absurd hmem hword
  | infinite negative => exact h negative hf
  | finite negative significand exponent =>
    obtain hc | hc | hc := Decimal.mem_display_of_finite hf hmem <;> exact absurd hc (by decide)

/-- The literal of a single is, unless it is infinite. -/
theorem ofLiteral?_single {bits : UInt32}
    (hfinite : ∀ negative, FloatFormat.single.decode bits.toNat ≠ .infinite negative)
    (h : FloatFormat.single.decode bits.toNat = .nan →
      bits.toNat = FloatFormat.single.nanBits) :
    ofLiteral? .single (single bits).display.toList = some (.single bits) := by
  have hread := (Decimal.read?_display FloatFormat.isSmall_single bits.toNat_lt).2 h
  have hend := trimEnd_decimal hfinite
  rw [List.rdropWhile] at hend
  unfold ofLiteral? display
  simp only [show trim _ = _ from isTrimmed_decimal .single bits.toNat,
    if_neg (decimal_ne_null .single bits.toNat), hend, hread, Option.map_some, UInt32.ofNat_toNat]

/-! ### One line -/

theorem isLine_operandHex (w : UInt32) : IsLine (operandHex w).toList := by
  refine isLine_of_forall fun c hc => ?_
  have hblank := isBlank_of_mem_operandHex hc
  constructor <;> rintro rfl <;> exact absurd hblank (by decide)

theorem ne_of_isDigit {c d : Char} (h : c.isDigit = true) (hd : d.isDigit = false) : c ≠ d := by
  rintro rfl
  rw [h] at hd
  cases hd

theorem isLine_of_digits {cs : List Char} (h : ∀ c ∈ cs, c.isDigit = true ∨ c = '-' ∨ c = '.') :
    IsLine cs := by
  refine isLine_of_forall fun c hc => ?_
  obtain hdigit | rfl | rfl := h c hc
  · exact ⟨ne_of_isDigit hdigit (by decide), ne_of_isDigit hdigit (by decide)⟩
  · decide
  · decide

theorem isLine_toString (i : Int) : IsLine (toString i).toList :=
  isLine_of_digits fun _ hc => (isDigit_of_mem_toString hc).imp_right .inl

theorem isLine_decimal (f : FloatFormat) (bits : Nat) : IsLine (Decimal.display f bits).toList := by
  refine isLine_of_forall fun c hc => ?_
  obtain hdigit | hc := Decimal.mem_display hc
  · exact ⟨ne_of_isDigit hdigit (by decide), ne_of_isDigit hdigit (by decide)⟩
  · constructor <;> rintro rfl <;> exact absurd hc (by decide)

theorem isLine_quoted (cs : List Char) : IsLine (quoted cs) where
  newline := newline_notMem_quoted
  last := by
    rw [quoted, List.getLast?_concat]
    decide

/-- A shown value stands in one line. -/
theorem isLine_display (v : Value) : IsLine v.display.toList := by
  cases v with
  | null => decide
  | boolean b => cases b <;> decide
  | int32 i => exact isLine_toString _
  | int64 i => exact isLine_toString _
  | uint32 n => exact isLine_toString n.toNat
  | single bits => exact isLine_decimal ..
  | double bits => exact isLine_decimal ..
  | string s =>
    rw [display, Text.quote, String.toList_ofList]
    exact isLine_quoted _
  | object o =>
    have hkind : IsLine o.kind.name.toList := by
      cases o.kind <;> decide
    change IsLine (o.kind.name ++ "#" ++ Nat.repr o.id.toNat).toList
    rw [String.toList_append, String.toList_append, Nat.toList_repr]
    refine (hkind.append (by decide)).append (isLine_of_digits fun c hc => .inl ?_)
    exact Nat.isDigit_of_mem_toDigits (by decide) (by decide) hc

end EventVm.Value
