import EventVm.Proofs.Assembly.InitialValues
import EventVm.Proofs.Assembly.Listing

/-!
# Which values read back

The text that shows a value is an initial value that puts the same value back for most values and
types, but not for all (`Value.ReadsBack`). An infinity of single precision is shown as `inf`, and
the `f` is cut off as the end of a literal. Some characters are shown by escapes that the assembler
does not have. A literal for a slot of any value is null or a string. All else reads back, host
objects aside, and a data line of a listing declares what it shows (`display_reads_back`).
-/

namespace EventVm.Assembly

open Text (quoted)

variable {t : TypeTag} {v : Value}

/-- A value that fits a type has this type, unless it is null or the type takes all values. -/
theorem type?_of_fits (hfits : v.fits t = true) (hobject : t ≠ .object) (hnull : v ≠ .null) :
    v.type? = some t := by
  cases v with
  | null => exact absurd rfl hnull
  | object o =>
    obtain ⟨kind, id⟩ := o
    cases t <;> cases kind <;> first | rfl | contradiction
  | _ => cases t <;> first | rfl | contradiction

/-- What fits a type and reads back can be written for it. -/
theorem isWritten_of_fits (hfits : v.fits t = true) (h : v.ReadsBack t) : IsWritten t v := by
  cases v with
  | null =>
    refine .null ?_
    cases t <;> first | rfl | exact hfits
  | string s => exact .string s
  | object o => exact h.elim
  | boolean | int32 | int64 | uint32 =>
    cases type?_of_fits hfits h nofun
    constructor
  | single | double =>
    cases type?_of_fits hfits h.1 nofun
    constructor

theorem ReadsInitial.initialValue?_eq {literal : List Char}
    (h : ReadsInitial t literal (.value v)) : initialValue? t literal = some v := by
  have hparsed := h.parsed
  unfold parseInitial at hparsed
  dsimp only at hparsed
  split at hparsed
  · cases hparsed
  · split at hparsed
    · next hv =>
      cases hparsed
      exact hv
    · cases hparsed

theorem readsBack_of_initialValue? (h : initialValue? t v.display.toList = some v) :
    v.ReadsBack t := by
  have hwritten := isWritten_initialValue? h
  cases hwritten with
  | null => trivial
  | string s =>
    have hquote : (quoted s.toList).head? = some '"' := rfl
    rw [Value.display, Text.quote, String.toList_ofList, initialValue?, if_pos hquote] at h
    obtain ⟨s', hs, heq⟩ := Option.map_eq_some_iff.1 h
    cases heq
    refine Text.quotedString?_quoted.1 ?_
    rw [hs, String.ofList_toList]
  | boolean | int32 | int64 | uint32 => exact TypeTag.noConfusion
  | single bits =>
    refine ⟨TypeTag.noConfusion, fun negative hf => ?_, fun hf => ?_⟩
    · have hword : initialValue? .single (Decimal.signText negative ++ "inf".toList) = none := by
        cases negative <;> decide
      rw [Value.display, Decimal.display, hf] at h
      dsimp only at h
      rw [String.toList_ofList, hword] at h
      cases h
    · have hword : initialValue? .single "NaN".toList = some (.single 0x7FC00000) := by decide
      rw [Value.display, Decimal.display, hf] at h
      cases hword.symm.trans h
      rfl
  | double bits =>
    refine ⟨TypeTag.noConfusion, fun hf => ?_⟩
    have hword : initialValue? .double "NaN".toList = some (.double 0x7FF8000000000000) := by decide
    rw [Value.display, Decimal.display, hf] at h
    cases hword.symm.trans h
    rfl

/-- The text that shows a value is read as this value, where one of a type that it fits is expected,
if and only if the value is one of those that read back. Then a listing declares the variable with
that value. -/
theorem display_reads_back (hfits : v.fits t = true) :
    (initialValue? t v.display.toList = some v ↔ v.ReadsBack t) ∧
      (v.ReadsBack t → ∀ (h : Heap) (s : Symbol) (declared : TypeTag), s.type = t →
        IsIdentifier s.name.toList → h.slot? s.address = some ⟨declared, .value v⟩ →
        Reads .data (declarationLine h s) (.declare s.name t (.value v))) := by
  refine ⟨⟨readsBack_of_initialValue?, fun hv => ?_⟩, fun hv h s declared htype hname hslot => ?_⟩
  · exact (readsInitial_display (isWritten_of_fits hfits hv) hv).initialValue?_eq
  · have hread := readsInitial_display (isWritten_of_fits hfits hv) hv
    have hstatement := statement?_declare hname hread.uncommented hread.trimmed hread.ne_nil
      hread.parsed
    rw [String.ofList_toList] at hstatement
    unfold Reads declarationLine
    rw [literalText_eq hslot, htype]
    exact hstatement

/-- A string with a quote, a backslash and a tab reads back, also where any value is expected. -/
theorem display_reads_back_text :
    initialValue? .object (Value.string "\"a\\\t").display.toList = some (.string "\"a\\\t") ∧
      Reads .data
        (declarationLine ⟨[⟨.object, .value (.string "\"a\\\t")⟩]⟩ ⟨"x", 0, .object, true⟩)
        (.declare "x" .object (.value (.string "\"a\\\t"))) :=
  have hfits : (Value.string "\"a\\\t").fits .object = true := rfl
  have hv : (Value.string "\"a\\\t").ReadsBack .object := by decide
  ⟨(display_reads_back hfits).1.2 hv,
    (display_reads_back hfits).2 hv _ _ .object rfl (by decide) rfl⟩

/-- An infinity of single precision fits the type, but the text that shows it is no literal. -/
theorem display_of_infinite_unread :
    (Value.single 0x7F800000).fits .single = true ∧
      initialValue? .single (Value.single 0x7F800000).display.toList = none :=
  ⟨rfl, by decide +kernel⟩

end EventVm.Assembly
