import EventVm.Assembly.Listing
import EventVm.Proofs.Assembly.Names

/-!
# Initial values read back

What a data line can put in a slot (`IsWritten`), so what the heap of an assembled program is made
of. Such a value is read from the text that shows it (`readsInitial_display`), unless something of it
is lost in that text or in reading it (`Value.ReadsBack`): that happens to floating-point numbers and
to characters without a key only (`readsInitial_shown`).
-/

namespace EventVm

namespace Value

/-- Whether the text that shows a value is read as that value where one of the type is expected. -/
def ReadsBack (t : TypeTag) : Value → Prop
  | null => True
  | boolean _ | int32 _ | int64 _ | uint32 _ => t ≠ .object
  | single bits => t ≠ .object ∧
      (∀ negative, FloatFormat.single.decode bits.toNat ≠ .infinite negative) ∧
      (FloatFormat.single.decode bits.toNat = .nan → bits.toNat = FloatFormat.single.nanBits)
  | double bits => t ≠ .object ∧
      (FloatFormat.double.decode bits.toNat = .nan → bits.toNat = FloatFormat.double.nanBits)
  | string s => ∀ c ∈ s.toList, Text.IsReadable c
  | object _ => False

instance (t : TypeTag) : DecidablePred (ReadsBack t)
  | null => inferInstanceAs (Decidable True)
  | boolean _ | int32 _ | int64 _ | uint32 _ => inferInstanceAs (Decidable (t ≠ .object))
  | single _ | double _ => inferInstanceAs (Decidable (_ ∧ _))
  | string s => List.decidableBAll Text.IsReadable s.toList
  | object _ => inferInstanceAs (Decidable False)

end Value

namespace Assembly

open Text (IsTrimmed IsKeyboard IsReadable quoted escape)

variable {type : TypeTag} {v : Value} {s : Slot} {cs rest : List Char}

/-! ### Values that can be written -/

/-- Which values a data line can write for a type. -/
inductive IsWritten : TypeTag → Value → Prop
  | null {type : TypeTag} (h : type.isNullable = true) : IsWritten type .null
  | string {type : TypeTag} (t : String) : IsWritten type (.string t)
  | boolean (b : Bool) : IsWritten .boolean (.boolean b)
  | int32 (i : Int32) : IsWritten .int32 (.int32 i)
  | int64 (i : Int64) : IsWritten .int64 (.int64 i)
  | uint32 (n : UInt32) : IsWritten .uint32 (.uint32 n)
  | single (bits : UInt32) : IsWritten .single (.single bits)
  | double (bits : UInt64) : IsWritten .double (.double bits)

theorem isWritten_ofLiteral? {literal : List Char} (h : Value.ofLiteral? type literal = some v) :
    IsWritten type v := by
  unfold Value.ofLiteral? at h
  dsimp only at h
  split at h
  · split at h
    · next hnull =>
      cases h
      exact .null hnull
    · cases h
  · cases type with
    | boolean =>
      dsimp only at h
      split at h
      · cases h
        exact .boolean true
      · split at h
        · cases h
          exact .boolean false
        · cases h
    | int32 =>
      obtain ⟨n, -, h⟩ := Option.bind_eq_some_iff.1 h
      split at h
      · cases h
        exact .int32 _
      · cases h
    | uint32 =>
      obtain ⟨n, -, h⟩ := Option.bind_eq_some_iff.1 h
      split at h
      · cases h
        exact .uint32 _
      · cases h
    | int64 =>
      obtain ⟨n, -, rfl⟩ := Option.map_eq_some_iff.1 h
      exact .int64 _
    | single =>
      obtain ⟨n, -, rfl⟩ := Option.map_eq_some_iff.1 h
      exact .single _
    | double =>
      obtain ⟨n, -, rfl⟩ := Option.map_eq_some_iff.1 h
      exact .double _
    | string | object =>
      obtain ⟨t, -, rfl⟩ := Option.map_eq_some_iff.1 h
      exact .string _
    | gameObject | transform | behaviour => cases h

theorem isWritten_initialValue? {literal : List Char} (h : initialValue? type literal = some v) :
    IsWritten type v := by
  unfold initialValue? at h
  split at h
  · obtain ⟨t, -, rfl⟩ := Option.map_eq_some_iff.1 h
    exact .string t
  · exact isWritten_ofLiteral? h

theorem isWritten_default (type : TypeTag) : IsWritten type type.default := by
  cases type with
  | boolean => exact .boolean false
  | int32 => exact .int32 0
  | int64 => exact .int64 0
  | uint32 => exact .uint32 0
  | single => exact .single 0
  | double => exact .double 0
  | object | string | gameObject | transform | behaviour => exact .null rfl

/-- Whether a slot holds what a data line can put in it. -/
def IsWrittenSlot (s : Slot) : Prop :=
  match s.content with
  | .value v => IsWritten s.declared v
  | .pending target => target = s.declared

theorem isWrittenSlot_of_parseInitial {literal : Option (List Char)} {initial : Initial}
    (h : parseInitial type literal = .ok initial) : IsWrittenSlot (initial.slot type) := by
  unfold parseInitial at h
  split at h
  · cases h
    exact isWritten_default type
  · split at h
    · cases h
      rfl
    · split at h
      · next v hv =>
        cases h
        exact isWritten_initialValue? hv
      · cases h

variable {name source : String} {ss : List Placed} {is : List Instruction} {p : Program}

/-- The heap of an assembled program is made of what data lines and texts in quotes put in it. -/
theorem Compiles.isWrittenSlot (hc : Compiles name ss is p) (hss : statements source = .ok ss) :
    ∀ s ∈ p.heap.slots, IsWrittenSlot s := by
  rw [hc.slots]
  simp only [List.forall_mem_append, List.forall_mem_map]
  refine ⟨fun v hv => ?_, fun t _ => .string t⟩
  obtain ⟨s, hs, hv⟩ := List.mem_filterMap.1 hv
  split at hv
  · next x type initial hstatement =>
    cases hv
    obtain ⟨raw, -, hsays⟩ := says_of_statementsFrom hss s hs
    rw [hstatement] at hsays
    cases hsays with
    | declare head tail type literal initial hr htext hhead hinitial hexport hsync =>
      exact isWrittenSlot_of_parseInitial hinitial
  · cases hv

/-! ### Shown and read -/

/-- What a variable is shown to hold at first. -/
def shown (s : Slot) : String :=
  match s.content with
  | .value v => v.display
  | .pending _ => "this"

/-- The initial value that puts the content in the slot. -/
def initialOf (s : Slot) : Initial :=
  match s.content with
  | .value v => .value v
  | .pending _ => .this

theorem literalText_eq {h : Heap} {address : UInt32} (hs : h.slot? address = some s) :
    literalText h address = shown s := by
  unfold literalText shown
  rw [hs]
  obtain ⟨declared, content⟩ := s
  cases content <;> rfl

/-- Inside quotes, no character that is written there begins a comment or ends the quotes. -/
theorem stripComment_spells {c : Char} {w : List Char} (h : Text.Spells c w) :
    stripComment true (w ++ rest) = w ++ stripComment true rest := by
  cases h with
  | plain _ hquote hbackslash =>
    exact stripComment_cons hquote (fun _ => rfl) (fun heq => absurd heq hbackslash)
  | escaped e => exact stripComment_escape

theorem stripComment_flatMap {f : Char → List Char} (h : ∀ c ∈ cs, Text.Spells c (f c)) :
    stripComment true (cs.flatMap f ++ rest) = cs.flatMap f ++ stripComment true rest := by
  induction cs with
  | nil => rfl
  | cons c cs ih =>
    obtain ⟨hc, hcs⟩ := List.forall_mem_cons.1 h
    rw [List.flatMap_cons, List.append_assoc, stripComment_spells hc, ih hcs, List.append_assoc]

theorem stripComment_quoted (h : ∀ c ∈ cs, IsReadable c) :
    stripComment false (quoted cs) = quoted cs := by
  unfold quoted
  rw [List.cons_append, stripComment_quote, Bool.not_false,
    stripComment_flatMap fun c hc => Text.spells_escape (h c hc)]
  rfl

theorem isTrimmed_quoted (cs : List Char) : IsTrimmed (quoted cs) := by
  have hquote : Text.isBlank '"' = false := by decide
  have hlast : ('"' :: (cs.flatMap escape ++ ['"'])).getLast? = some '"' := by
    rw [← List.cons_append, List.getLast?_concat]
  exact Text.isTrimmed_of_ends hquote hquote hlast

/-- The text behind a type in a data line is read as an initial value. -/
structure ReadsInitial (type : TypeTag) (literal : List Char) (initial : Initial) : Prop where
  uncommented : stripComment false literal = literal
  trimmed : IsTrimmed literal
  ne_nil : literal ≠ []
  parsed : parseInitial type (some literal) = .ok initial

theorem readsInitial_this (type : TypeTag) : ReadsInitial type "this".toList .this where
  uncommented := by decide
  trimmed := by decide
  ne_nil := by decide
  parsed := rfl

theorem readsInitial_quoted (type : TypeTag) (h : ∀ c ∈ cs, IsReadable c) :
    ReadsInitial type (quoted cs) (.value (.string (String.ofList cs))) where
  uncommented := stripComment_quoted h
  trimmed := isTrimmed_quoted cs
  ne_nil := List.cons_ne_nil _ _
  parsed := by
    have hthis : quoted cs ≠ "this".toList := by
      intro hquoted
      exact absurd (congrArg List.head? hquoted) (by simp [quoted])
    have hvalue : initialValue? type (quoted cs) = some (.string (String.ofList cs)) := by
      have hquote : (quoted cs).head? = some '"' := rfl
      rw [initialValue?, if_pos hquote, Text.quotedString?_quoted.2 h, Option.map_some]
    unfold parseInitial
    simp only [if_neg hthis, hvalue]

theorem ofLiteral?_nil (type : TypeTag) : Value.ofLiteral? type [] = none := by
  cases type <;> rfl

/-- A word or a number that is the literal of a value is read as that value. -/
theorem readsInitial_word (hcs : cs.all (fun c => isWordChar c || c == '-' || c == '.') = true)
    (hthis : cs ≠ "this".toList) (h : Value.ofLiteral? type cs = some v) :
    ReadsInitial type cs (.value v) := by
  have hword : ∀ c ∈ cs, isWordChar c = true ∨ c = '-' ∨ c = '.' := by
    simpa only [List.all_eq_true, Bool.or_eq_true, beq_iff_eq, or_assoc] using hcs
  have hquote : cs.head? ≠ some '"' := by
    intro hhead
    obtain hc | hc | hc := hword _ (List.mem_of_head? hhead) <;> exact absurd hc (by decide)
  have hvalue : initialValue? type cs = some v := by
    rw [initialValue?, if_neg hquote, h]
  constructor
  case uncommented =>
    refine stripComment_eq_self fun c hc => ?_
    obtain hc | rfl | rfl := hword c hc
    · exact isPlain_of_isWordChar hc
    · decide
    · decide
  case trimmed =>
    refine Text.isTrimmed_of_forall fun c hc => ?_
    obtain hc | rfl | rfl := hword c hc
    · exact isBlank_of_isWordChar hc
    · decide
    · decide
  case ne_nil =>
    rintro rfl
    rw [ofLiteral?_nil] at h
    cases h
  case parsed =>
    unfold parseInitial
    simp only [if_neg hthis, hvalue]

theorem readsInitial_integer (i : Int) (h : Value.ofLiteral? type (toString i).toList = some v) :
    ReadsInitial type (toString i).toList (.value v) := by
  have hthis : (toString i).toList ≠ "this".toList :=
    Value.toString_ne (c := 't') (by decide) (by decide) (by decide) i
  refine readsInitial_word (List.all_eq_true.2 fun c hc => ?_) hthis h
  obtain hdigit | rfl := Text.isDigit_of_mem_toString hc
  · simp [isWordChar, Char.isAlphanum, hdigit]
  · decide

theorem readsInitial_decimal {f : FloatFormat} {bits : Nat}
    (h : Value.ofLiteral? type (Decimal.display f bits).toList = some v) :
    ReadsInitial type (Decimal.display f bits).toList (.value v) := by
  have hthis : (Decimal.display f bits).toList ≠ "this".toList :=
    Decimal.display_ne (c := 't') (by decide) (by decide) (by decide)
  have hword : "-.NaNinf".toList.all (fun c => isWordChar c || c == '-' || c == '.') = true := by
    decide
  refine readsInitial_word (List.all_eq_true.2 fun c hc => ?_) hthis h
  obtain hdigit | hc := Decimal.mem_display hc
  · simp [isWordChar, Char.isAlphanum, hdigit]
  · exact List.all_eq_true.1 hword c hc

/-- What can be written and reads back is read as an initial value. -/
theorem readsInitial_display (hv : IsWritten type v) (h : v.ReadsBack type) :
    ReadsInitial type v.display.toList (.value v) := by
  cases hv with
  | null hnull => exact readsInitial_word (by decide) (by decide) (Value.ofLiteral?_null hnull)
  | string t =>
    have hread := readsInitial_quoted type h
    rw [String.ofList_toList] at hread
    rwa [Value.display, Text.quote, String.toList_ofList]
  | boolean b =>
    refine readsInitial_word ?_ ?_ (Value.ofLiteral?_boolean b) <;> cases b <;> decide
  | int32 i => exact readsInitial_integer i.toInt (Value.ofLiteral?_int32 i)
  | int64 i => exact readsInitial_integer i.toInt (Value.ofLiteral?_int64 i)
  | uint32 n => exact readsInitial_integer n.toNat (Value.ofLiteral?_uint32 n)
  | single bits => exact readsInitial_decimal (Value.ofLiteral?_single h.2.1 h.2.2)
  | double bits => exact readsInitial_decimal (Value.ofLiteral?_double h.2)

theorem IsWritten.readsBack (h : IsWritten type v) (hsingle : type ≠ .single)
    (hdouble : type ≠ .double)
    (hstring : ∀ t, v = .string t → ∀ c ∈ t.toList, IsKeyboard c) : v.ReadsBack type := by
  cases h with
  | null => trivial
  | string t => exact fun c hc => (hstring t rfl c hc).isReadable
  | boolean | int32 | int64 | uint32 => exact nofun
  | single bits => exact absurd rfl hsingle
  | double bits => exact absurd rfl hdouble

/-- What a slot is shown to hold is read back, unless it is a floating-point number or a string
with characters that have no key. -/
theorem readsInitial_shown (hs : IsWrittenSlot s) (hsingle : s.declared ≠ .single)
    (hdouble : s.declared ≠ .double)
    (hstring : ∀ t, s.content = .value (.string t) → ∀ c ∈ t.toList, IsKeyboard c) :
    ReadsInitial s.declared (shown s).toList (initialOf s) := by
  obtain ⟨declared, content⟩ := s
  cases content with
  | pending target => exact readsInitial_this declared
  | value v =>
    change IsWritten declared v at hs
    exact readsInitial_display hs (hs.readsBack hsingle hdouble fun t ht => hstring t (ht ▸ rfl))

/-- The initial value that is read puts the same content in the slot. -/
theorem slot_initialOf (hs : IsWrittenSlot s) : (initialOf s).slot s.declared = s := by
  obtain ⟨declared, content⟩ := s
  cases content with
  | value v => rfl
  | pending target =>
    change target = declared at hs
    subst hs
    rfl

end Assembly

end EventVm
