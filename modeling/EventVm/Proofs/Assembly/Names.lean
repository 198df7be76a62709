import EventVm.Proofs.Assembly.Comments
import EventVm.Proofs.Assembly.Compilation
import EventVm.Proofs.Text.Lines
import EventVm.Proofs.Value.Literal

/-!
# The names in a program

Almost any text can be the name of a variable or a label. What is known of a name in an assembled
program is what a source line leaves possible (`IsName`); the name of a variable has no colon, and
an exported name is not empty.
-/

namespace EventVm.Assembly

open Text (IsTrimmed isBlank trim)

/-- A text that can be a name: it stands in one line, without blanks around it, without comment, and
does not begin like an export or a synced variable. -/
structure IsName (n : List Char) : Prop where
  newline : '\n' ∉ n
  trimmed : IsTrimmed n
  uncommented : stripComment false n = n
  notExport : ¬ ".export".toList <+: n
  notSync : ¬ ".sync".toList <+: n

theorem afterKeyword?_eq_none {keyword cs : List Char} :
    afterKeyword? keyword cs = none ↔ ¬ keyword <+: cs := by
  unfold afterKeyword?
  rw [← List.isPrefixOf_iff_prefix]
  split <;> simp [*]

theorem isPlain_of_isBlank {c : Char} (h : isBlank c = true) : isPlain c = true := by
  rw [isPlain, Bool.and_eq_true, bne_iff_ne, bne_iff_ne]
  constructor <;> rintro rfl <;> exact absurd h (by decide)

theorem trim_prefix_of_isTrimmed {head tail : List Char} (h : IsTrimmed (head ++ tail)) :
    trim head <+: head := by
  obtain ⟨bs, bs', hbs, -, hhead⟩ := Text.exists_trim head
  cases bs with
  | nil =>
    rw [List.nil_append] at hhead
    exact ⟨bs', hhead.symm⟩
  | cons b bs =>
    rw [hhead] at h
    have hb := hbs b List.mem_cons_self
    rw [IsTrimmed.head h] at hb
    cases hb

/-- What stands in front of a part of a line is a name, blanks aside. -/
theorem isName_trim_of_line {raw head tail : List Char} (hraw : '\n' ∉ raw)
    (htext : trim (stripComment false raw) = head ++ tail)
    (hexport : afterKeyword? ".export".toList (head ++ tail) = none)
    (hsync : afterKeyword? ".sync".toList (head ++ tail) = none) : IsName (trim head) := by
  obtain ⟨bs, bs', hbs, -, hstrip⟩ := Text.exists_trim (stripComment false raw)
  have htrimmed : IsTrimmed (head ++ tail) := htext ▸ Text.isTrimmed_trim _
  have hprefix := trim_prefix_of_isTrimmed htrimmed
  obtain ⟨more, hmore⟩ := hprefix
  rw [htext] at hstrip
  have hplain : ∀ c ∈ bs, isPlain c = true := fun c hc => isPlain_of_isBlank (hbs c hc)
  have huncommented : stripComment false (trim head ++ (more ++ tail ++ bs')) =
      trim head ++ (more ++ tail ++ bs') := by
    have hidem := stripComment_idem false raw
    rw [hstrip, List.append_assoc, stripComment_append hplain, List.append_right_inj] at hidem
    rw [← List.append_assoc, ← List.append_assoc, hmore]
    exact hidem
  constructor
  case newline =>
    intro hn
    apply hraw
    refine (stripComment_isPrefix false raw).subset ?_
    rw [hstrip, ← hmore]
    simp [hn]
  case trimmed => exact Text.isTrimmed_trim head
  case uncommented => exact stripComment_of_append huncommented
  case notExport =>
    intro hn
    refine afterKeyword?_eq_none.1 hexport (hn.trans ?_)
    exact ⟨more ++ tail, by rw [← List.append_assoc, hmore]⟩
  case notSync =>
    intro hn
    refine afterKeyword?_eq_none.1 hsync (hn.trans ?_)
    exact ⟨more ++ tail, by rw [← List.append_assoc, hmore]⟩

/-! ### Identifiers -/

/-- Whether a character is a letter or digit of ASCII or an underscore. -/
def isWordChar (c : Char) : Bool :=
  c.isAlphanum || c == '_'

/-- Whether a name is an identifier: word characters, of which the first is not a digit. -/
structure IsIdentifier (n : List Char) : Prop where
  wordChars : ∀ c ∈ n, isWordChar c = true
  first : ∃ c, n.head? = some c ∧ c.isDigit = false

instance : DecidablePred IsIdentifier := fun n =>
  decidable_of_iff (n.all isWordChar = true ∧ (n.head?.any fun c => !c.isDigit) = true) (by
    simp only [List.all_eq_true, Option.any_eq_true, Bool.not_eq_true']
    exact ⟨fun h => ⟨h.1, h.2⟩, fun h => ⟨h.wordChars, h.first⟩⟩)

theorem toNat_of_isWordChar {c : Char} (h : isWordChar c = true) :
    0x30 ≤ c.toNat ∧ c.toNat ≤ 0x7a := by
  simp only [isWordChar, Char.isAlphanum, Char.isAlpha, Char.isUpper, Char.isLower, Char.isDigit,
    Bool.or_eq_true, Bool.and_eq_true, decide_eq_true_eq, beq_iff_eq, ge_iff_le,
    UInt32.le_iff_toNat_le] at h
  unfold Char.toNat
  obtain ((⟨h, h'⟩ | ⟨h, h'⟩) | ⟨h, h'⟩) | rfl := h
  · change 65 ≤ c.val.toNat at h
    change c.val.toNat ≤ 90 at h'
    omega
  · change 97 ≤ c.val.toNat at h
    change c.val.toNat ≤ 122 at h'
    omega
  · change 48 ≤ c.val.toNat at h
    change c.val.toNat ≤ 57 at h'
    omega
  · decide

theorem ne_of_isWordChar {c d : Char} (h : isWordChar c = true) (hd : isWordChar d = false) :
    c ≠ d := by
  rintro rfl
  rw [h] at hd
  cases hd

theorem isPlain_of_isWordChar {c : Char} (h : isWordChar c = true) : isPlain c = true := by
  rw [isPlain, Bool.and_eq_true, bne_iff_ne, bne_iff_ne]
  exact ⟨ne_of_isWordChar h (by decide), ne_of_isWordChar h (by decide)⟩

theorem isBlank_of_isWordChar {c : Char} (h : isWordChar c = true) : isBlank c = false := by
  obtain ⟨hlow, hhigh⟩ := toNat_of_isWordChar h
  exact Value.isBlank_of_visible (by omega) (by omega)

theorem notMem_of_wordChars {n : List Char} {d : Char} (h : ∀ c ∈ n, isWordChar c = true)
    (hd : isWordChar d = false) : d ∉ n :=
  fun hmem => ne_of_isWordChar (h d hmem) hd rfl

theorem IsIdentifier.ne_nil {n : List Char} (h : IsIdentifier n) : n ≠ [] := by
  obtain ⟨c, hc, -⟩ := h.first
  rintro rfl
  cases hc

theorem IsIdentifier.isName {n : List Char} (h : IsIdentifier n) : IsName n := by
  have hprefix : ∀ keyword : List Char, keyword.head? = some '.' → ¬ keyword <+: n := by
    rintro keyword hdot ⟨rest, rfl⟩
    have hmem : '.' ∈ keyword := List.mem_of_head? hdot
    exact notMem_of_wordChars h.wordChars (d := '.') (by decide) (List.mem_append_left _ hmem)
  constructor
  case newline => exact notMem_of_wordChars h.wordChars (by decide)
  case trimmed =>
    exact Text.isTrimmed_of_forall fun c hc => isBlank_of_isWordChar (h.wordChars c hc)
  case uncommented =>
    exact stripComment_eq_self fun c hc => isPlain_of_isWordChar (h.wordChars c hc)
  case notExport => exact hprefix _ (by decide)
  case notSync => exact hprefix _ (by decide)

/-- The name of a constant is an identifier. -/
theorem isIdentifier_signatureName (n : Nat) :
    IsIdentifier (Builder.signatureName n).toList := by
  rw [Builder.toList_signatureName]
  constructor
  case wordChars =>
    intro c hc
    obtain hc | hc := List.mem_append.1 hc
    · have hprefix : "__extern_".toList.all isWordChar = true := by decide
      exact List.all_eq_true.1 hprefix c hc
    · have hdigit := Nat.isDigit_of_mem_toDigits (by decide) (by decide) hc
      simp [isWordChar, Char.isAlphanum, hdigit]
  case first => exact ⟨'_', rfl, by decide⟩

/-! ### Names of a program -/

variable {name source : String} {ss : List Placed} {is : List Instruction} {p : Program}

theorem isName_of_mem_declarationsOf (h : statements source = .ok ss) {v : Declaration}
    (hv : v ∈ declarationsOf ss) : IsName v.name.toList ∧ ':' ∉ v.name.toList := by
  obtain ⟨s, hs, hv⟩ := List.mem_filterMap.1 hv
  split at hv
  · next x type initial hstatement =>
    cases hv
    obtain ⟨raw, hraw, hsays⟩ := says_of_statementsFrom h s hs
    rw [hstatement] at hsays
    cases hsays with
    | declare head tail type literal initial hr htext hhead hinitial hexport hsync =>
      rw [htext] at hexport hsync
      have hname := isName_trim_of_line (Text.newline_notMem_of_mem_lines hraw) htext hexport hsync
      rw [String.toList_ofList]
      refine ⟨hname, fun hcolon => hhead ?_⟩
      obtain ⟨bs, bs', -, -, hhead_eq⟩ := Text.exists_trim head
      rw [hhead_eq]
      simp [hcolon]
  · cases hv

theorem exists_label_of_mem_marksFrom {k : Nat} {m : Mark} (h : m ∈ marksFrom k ss) :
    ∃ s ∈ ss, s.statement = .label m.name := by
  induction ss generalizing k with
  | nil => cases h
  | cons s ss ih =>
    obtain ⟨r, s⟩ := s
    cases s with
    | label name =>
      obtain rfl | h := List.mem_cons.1 h
      · exact ⟨_, List.mem_cons_self, rfl⟩
      · obtain ⟨s, hs, hlabel⟩ := ih h
        exact ⟨s, List.mem_cons_of_mem _ hs, hlabel⟩
    | enter _ | exportName _ | sync _ _ | declare _ _ _ | instruction _ _ =>
      obtain ⟨s, hs, hlabel⟩ := ih h
      exact ⟨s, List.mem_cons_of_mem _ hs, hlabel⟩

theorem isName_of_mem_marksOf (h : statements source = .ok ss) {m : Mark} (hm : m ∈ marksOf ss) :
    IsName m.name.toList := by
  obtain ⟨s, hs, hlabel⟩ := exists_label_of_mem_marksFrom hm
  obtain ⟨raw, hraw, hsays⟩ := says_of_statementsFrom h s hs
  rw [hlabel] at hsays
  generalize m.name = n at hsays
  cases hsays with
  | label head hr htext hexport hsync =>
    rw [htext] at hexport hsync
    rw [String.toList_ofList]
    exact isName_trim_of_line (Text.newline_notMem_of_mem_lines hraw) htext hexport hsync

theorem ne_empty_of_mem_exportsOf (h : statements source = .ok ss) {r : Region} {x : String}
    (hx : x ∈ exportsOf r ss) : x.toList ≠ [] := by
  obtain ⟨s, hs, hx⟩ := List.mem_filterMap.1 hx
  split at hx
  · next y hstatement =>
    split at hx
    · cases hx
      obtain ⟨raw, hraw, hsays⟩ := says_of_statementsFrom h s hs
      rw [hstatement] at hsays
      cases hsays with
      | exportName rest hrest hr hname => rwa [String.toList_ofList]
    · cases hx
  · cases hx

/-- The name of a variable can be a name and has no colon. -/
theorem isName_of_mem_symbols (hss : statements source = .ok ss) (hc : Compiles name ss is p)
    {s : Symbol} (hs : s ∈ p.symbols.symbols) : IsName s.name.toList ∧ ':' ∉ s.name.toList := by
  rw [hc.symbols] at hs
  obtain hs | hs := List.mem_append.1 hs
  · have hname := List.mem_map_of_mem (f := Symbol.name) hs
    rw [names_symbolsOf] at hname
    obtain ⟨v, hv, hv_name⟩ := List.mem_map.1 hname
    rw [← hv_name]
    exact isName_of_mem_declarationsOf hss hv
  · obtain ⟨n, hn, rfl⟩ := List.mem_mapIdx.1 hs
    have hidentifier := isIdentifier_signatureName n
    exact ⟨hidentifier.isName, notMem_of_wordChars hidentifier.wordChars (by decide)⟩

theorem isName_of_mem_entryPoints (hss : statements source = .ok ss) (hc : Compiles name ss is p)
    {s : Symbol} (hs : s ∈ p.entryPoints.symbols) : IsName s.name.toList := by
  rw [hc.entryPoints, List.map_map] at hs
  obtain ⟨m, hm, rfl⟩ := List.mem_map.1 hs
  exact isName_of_mem_marksOf hss hm

/-- An exported name is not empty. -/
theorem ne_empty_of_exported_symbol (hss : statements source = .ok ss)
    (hc : Compiles name ss is p) {s : Symbol} (hs : s ∈ p.symbols.symbols)
    (hexported : s.exported = true) : s.name.toList ≠ [] := by
  rw [hc.symbols] at hs
  obtain hs | hs := List.mem_append.1 hs
  · obtain ⟨n, hn, rfl⟩ := List.mem_mapIdx.1 hs
    exact ne_empty_of_mem_exportsOf hss (by simpa using hexported)
  · obtain ⟨n, hn, rfl⟩ := List.mem_mapIdx.1 hs
    cases hexported

theorem ne_empty_of_exported_entryPoint (hss : statements source = .ok ss)
    (hc : Compiles name ss is p) {s : Symbol} (hs : s ∈ p.entryPoints.symbols)
    (hexported : s.exported = true) : s.name.toList ≠ [] := by
  rw [hc.entryPoints, List.map_map] at hs
  obtain ⟨m, hm, rfl⟩ := List.mem_map.1 hs
  exact ne_empty_of_mem_exportsOf hss (by simpa [entryOf] using hexported)

end EventVm.Assembly
