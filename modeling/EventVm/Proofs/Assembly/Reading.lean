import EventVm.Assembly.Listing
import EventVm.Proofs.Assembly.Names

/-!
# Listed lines read back

What the assembler reads in each line that a listing has. Exports, labels and instructions are read
exactly; of a synced variable and of a declaration it is known what kind of statement they make, if
they can be read at all.
-/

namespace EventVm.Assembly

open Text (IsTrimmed isBlank trim trimEnd)

variable {r : Region} {bs cs n text : List Char} {s : Statement}

/-! ### Lines in general -/

/-- Indentation does not count. -/
theorem statement?_indented (hbs : ∀ c ∈ bs, isBlank c = true) (hstrip : stripComment false cs = cs)
    (hne : trim cs ≠ []) :
    statement? r (bs ++ cs) = (parseStatement r (trim cs)).map some := by
  have hplain : ∀ c ∈ bs, isPlain c = true := fun c hc => isPlain_of_isBlank (hbs c hc)
  unfold statement?
  dsimp only
  rw [stripComment_append hplain, hstrip, Text.trim_append hbs, if_neg (by simpa using hne)]

theorem trim_blank_cons : trim (' ' :: cs) = trim cs := by
  have hblank : ∀ c ∈ [' '], isBlank c = true := List.forall_mem_singleton.2 (by decide)
  exact Text.trim_append hblank

theorem trimEnd_blank_cons (h : IsTrimmed cs) (hne : cs ≠ []) :
    trimEnd (' ' :: cs) = ' ' :: cs := by
  have hend : trimEnd ([' '] ++ cs) = [' '] ++ cs := h.trimEnd_append hne
  exact hend

theorem statement?_comment : statement? r ('#' :: cs) = .ok none :=
  rfl

theorem statement?_empty : statement? r [] = .ok none :=
  rfl

theorem indentation : ∀ c ∈ "    ".toList, isBlank c = true :=
  List.all_eq_true.1 (by decide)

theorem deepIndentation : ∀ c ∈ "        ".toList, isBlank c = true :=
  List.all_eq_true.1 (by decide)

theorem mem_of_region? {r' : Region} (h : region? text = some r') :
    text ∈ [".data_start".toList, ".code_start".toList, ".data_end".toList,
      ".code_end".toList] := by
  unfold region? at h
  simp only [List.mem_cons, List.not_mem_nil, or_false]
  split at h
  · next hword => exact .inl hword
  split at h
  · next hword => exact .inr (.inl hword)
  split at h
  · next hword => exact .inr (.inr hword)
  · cases h

/-- The words that begin and end regions begin with a point and have neither colon nor blank. -/
theorem region?_eq_none (h : ':' ∈ text ∨ ' ' ∈ text ∨ text.head? ≠ some '.') :
    region? text = none := by
  by_contra hregion
  obtain ⟨r', hr'⟩ := Option.ne_none_iff_exists'.1 hregion
  have hmem := mem_of_region? hr'
  simp only [List.mem_cons, List.not_mem_nil, or_false] at hmem
  obtain rfl | rfl | rfl | rfl := hmem <;> revert h <;> decide

/-- None of these words begins like a synced variable. -/
theorem region?_of_sync (h : ".sync".toList <+: text) : region? text = none := by
  by_contra hregion
  obtain ⟨r', hr'⟩ := Option.ne_none_iff_exists'.1 hregion
  have hmem := mem_of_region? hr'
  simp only [List.mem_cons, List.not_mem_nil, or_false] at hmem
  obtain rfl | rfl | rfl | rfl := hmem <;> revert h <;> decide

/-- A keyword without colon begins a text in front of its first colon or not at all. -/
theorem afterKeyword?_colon {keyword : List Char} (hkeyword : ':' ∉ keyword)
    (h : ¬ keyword <+: n) : afterKeyword? keyword (n ++ ':' :: cs) = none := by
  rw [afterKeyword?_eq_none]
  intro hprefix
  obtain hle | hlt := le_or_gt keyword.length n.length
  · exact h (List.prefix_of_prefix_length_le hprefix (List.prefix_append ..) hle)
  · have hcolon : n ++ [':'] <+: keyword := by
      have hn : n ++ [':'] <+: n ++ ':' :: cs := ⟨cs, by simp⟩
      have hlength : (n ++ [':']).length ≤ keyword.length := by
        rw [List.length_append]
        exact hlt
      exact List.prefix_of_prefix_length_le hn hprefix hlength
    exact hkeyword (hcolon.subset (by simp))

theorem afterKeyword?_append {keyword : List Char} :
    afterKeyword? keyword (keyword ++ cs) = some cs := by
  unfold afterKeyword?
  rw [if_pos (List.isPrefixOf_iff_prefix.2 (List.prefix_append ..)), List.drop_left]

/-- A text that begins with no keyword is what its region makes of it. -/
theorem parseStatement_of_none (hregion : region? text = none)
    (hexport : afterKeyword? ".export".toList text = none)
    (hsync : afterKeyword? ".sync".toList text = none) :
    parseStatement .data text = parseDeclaration text ∧
      parseStatement .code text = parseCodeLine text := by
  unfold parseStatement
  rw [hregion, hexport, hsync]
  exact ⟨rfl, rfl⟩

theorem parseStatement_colon (hn : IsName n) :
    parseStatement .data (n ++ ':' :: cs) = parseDeclaration (n ++ ':' :: cs) ∧
      parseStatement .code (n ++ ':' :: cs) = parseCodeLine (n ++ ':' :: cs) :=
  parseStatement_of_none (region?_eq_none (.inl (by simp)))
    (afterKeyword?_colon (by decide) hn.notExport) (afterKeyword?_colon (by decide) hn.notSync)

theorem parseStatement_sync : parseStatement r (".sync".toList ++ cs) = parseSync r cs := by
  have hexport : afterKeyword? ".export".toList (".sync".toList ++ cs) = none := by
    rw [afterKeyword?_eq_none]
    simp
  unfold parseStatement
  rw [region?_of_sync (List.prefix_append ..), hexport, afterKeyword?_append]

/-! ### Regions of variables -/

/-- An export is read. -/
theorem statement?_export (hr : r ≠ .outside) (hn : IsName n) (hne : n ≠ []) :
    statement? r ("    .export ".toList ++ n) = .ok (some (.exportName (String.ofList n))) := by
  have hplain : ∀ c ∈ ".export ".toList, isPlain c = true := List.all_eq_true.1 (by decide)
  have hstrip : stripComment false (".export ".toList ++ n) = ".export ".toList ++ n := by
    rw [stripComment_append hplain, hn.uncommented]
  have hkeyword : IsTrimmed ".export".toList := by decide
  have htrim : trim (".export ".toList ++ n) = ".export ".toList ++ n :=
    hkeyword.append hn.trimmed (by decide) hne " ".toList
  have hline : "    .export ".toList ++ n = "    ".toList ++ (".export ".toList ++ n) := rfl
  have hexport : afterKeyword? ".export".toList (".export ".toList ++ n) = some (' ' :: n) :=
    afterKeyword?_append
  have hname : trim (' ' :: n) = n :=
    trim_blank_cons.trans hn.trimmed
  rw [hline, statement?_indented indentation hstrip (by rw [htrim]; simp), htrim]
  unfold parseStatement
  rw [region?_eq_none (.inr (.inl (by simp))), hexport]
  simp [parseExport, hname, hr, hne, Except.map]

theorem parseSync_ok {rest : List Char} (h : parseSync r rest = .ok s) :
    ∃ x i, s = .sync x i := by
  unfold parseSync at h
  split at h
  · cases h
  · dsimp only at h
    split at h
    · cases h
      exact ⟨_, _, rfl⟩
    · split at h
      · cases h
        exact ⟨_, _, rfl⟩
      · cases h

/-- A line that begins like a synced variable makes one, if it can be read. -/
theorem exists_sync_of_statement? {text : Option Statement}
    (h : statement? r ("    .sync ".toList ++ cs) = .ok text) : ∃ x i, text = some (.sync x i) := by
  have hplain : ∀ c ∈ "    .sync ".toList, isPlain c = true := List.all_eq_true.1 (by decide)
  have htrim : trim ("    .sync ".toList ++ stripComment false cs) =
      ".sync".toList ++ trimEnd (' ' :: stripComment false cs) := by
    have hline : "    .sync ".toList ++ stripComment false cs =
        "    ".toList ++ (".sync".toList ++ ' ' :: stripComment false cs) := rfl
    rw [hline, Text.trim_append indentation, IsTrimmed.trim_append (by decide) (by decide)]
  unfold statement? at h
  dsimp only at h
  rw [stripComment_append hplain, htrim, if_neg (by simp)] at h
  obtain ⟨s, hs, rfl⟩ := map_eq_ok.1 h
  rw [parseStatement_sync] at hs
  obtain ⟨x, i, rfl⟩ := parseSync_ok hs
  exact ⟨x, i, rfl⟩

theorem splitComma_append {xs ys : List Char} (h : ',' ∉ xs) :
    splitComma (xs ++ ',' :: ys) = (trim xs, some (trim ys)) := by
  rw [splitComma, Text.splitAt?_append h]

/-- A synced variable is read. -/
theorem statement?_sync (hn : IsIdentifier n) (i : Interpolation) :
    statement? .data ("    .sync ".toList ++ n ++ ", ".toList ++ i.keyword.toList) =
      .ok (some (.sync (String.ofList n) i)) := by
  have hname := hn.isName
  have hkeyword : IsTrimmed i.keyword.toList := by
    cases i <;> decide
  have hkeyword_ne : i.keyword.toList ≠ [] := by
    cases i <;> decide
  have hline : "    .sync ".toList ++ n ++ ", ".toList ++ i.keyword.toList =
      "    ".toList ++ (".sync".toList ++ (' ' :: n ++ ", ".toList) ++ i.keyword.toList) := by
    simp
  have hbody : IsTrimmed (".sync".toList ++ (' ' :: n ++ ", ".toList) ++ i.keyword.toList) :=
    IsTrimmed.append (by decide) hkeyword (by decide) hkeyword_ne _
  have hplain : ∀ c ∈ ".sync".toList ++ (' ' :: n ++ ", ".toList) ++ i.keyword.toList,
      isPlain c = true := by
    have hword : ∀ c ∈ i.keyword.toList, isPlain c = true := by
      apply List.all_eq_true.1
      cases i <;> decide
    have hn_plain : ∀ c ∈ n, isPlain c = true := fun c hc =>
      isPlain_of_isWordChar (hn.wordChars c hc)
    have hrest : ∀ c ∈ ".sync".toList ++ ' ' :: ", ".toList, isPlain c = true :=
      List.all_eq_true.1 (by decide)
    simp only [List.forall_mem_append, List.forall_mem_cons] at hrest ⊢
    exact ⟨⟨hrest.1, ⟨hrest.2.1, hn_plain⟩, hrest.2.2⟩, hword⟩
  have hrest : trim (' ' :: n ++ ", ".toList ++ i.keyword.toList) =
      n ++ ',' :: ' ' :: i.keyword.toList := by
    have htrim := hname.trimmed.append hkeyword hn.ne_nil hkeyword_ne ", ".toList
    rw [List.cons_append, List.cons_append, trim_blank_cons, htrim]
    simp
  have hsplit : splitComma (n ++ ',' :: ' ' :: i.keyword.toList) = (n, some i.keyword.toList) := by
    rw [splitComma_append (notMem_of_wordChars hn.wordChars (by decide)), trim_blank_cons,
      hkeyword, hname.trimmed]
  rw [hline, statement?_indented indentation (stripComment_eq_self hplain) (by rw [hbody]; simp),
    hbody, List.append_assoc, parseStatement_sync]
  simp only [parseSync, hrest, hsplit]
  simp [Except.map]

/-! ### Declarations -/

/-- A trimmed text with a colon behind it is trimmed. -/
theorem isTrimmed_colon (hn : IsTrimmed n) : IsTrimmed (n ++ [':']) := by
  cases n with
  | nil => decide
  | cons c n =>
    exact Text.isTrimmed_of_ends hn.head (by decide) (List.getLast?_concat (l := c :: n))

theorem exists_declare_of_statement? {text : Option Statement} (hn : IsName n) (hcolon : ':' ∉ n)
    (h : statement? .data ("    ".toList ++ (n ++ ':' :: cs)) = .ok text) :
    ∃ type initial, text = some (.declare (String.ofList n) type initial) := by
  obtain ⟨q, hq⟩ := exists_stripComment_append hn.uncommented (c := ':') (by decide) (by decide)
    (by decide)
  have hplain : ∀ c ∈ "    ".toList, isPlain c = true := List.all_eq_true.1 (by decide)
  have htrim : trim (n ++ ':' :: stripComment q cs) = n ++ ':' :: trimEnd (stripComment q cs) := by
    have htrim : trim (n ++ [':'] ++ stripComment q cs) =
        n ++ [':'] ++ trimEnd (stripComment q cs) :=
      (isTrimmed_colon hn.trimmed).trim_append (by simp)
    simpa using htrim
  unfold statement? at h
  dsimp only at h
  rw [stripComment_append hplain, hq, Text.trim_append indentation, htrim,
    if_neg (by simp)] at h
  obtain ⟨s, hs, rfl⟩ := map_eq_ok.1 h
  rw [(parseStatement_colon hn).1] at hs
  obtain ⟨head, tail, type, literal, initial, hsplit, -, rfl⟩ := parseDeclaration_ok hs
  rw [Text.splitAt?_append hcolon] at hsplit
  cases hsplit
  rw [hn.trimmed]
  exact ⟨type, initial, rfl⟩

/-- A declaration is read. -/
theorem statement?_declare {literal : List Char} {type : TypeTag} {initial : Initial}
    (hn : IsIdentifier n) (hstrip : stripComment false literal = literal)
    (hliteral : IsTrimmed literal) (hne : literal ≠ [])
    (hinitial : parseInitial type (some literal) = .ok initial) :
    statement? .data ("    ".toList ++ (n ++ ':' ::
        (" %".toList ++ type.name.toList ++ ", ".toList ++ literal))) =
      .ok (some (.declare (String.ofList n) type initial)) := by
  have hname := hn.isName
  have hn_plain : ∀ c ∈ n, isPlain c = true := fun c hc =>
    isPlain_of_isWordChar (hn.wordChars c hc)
  have htype : ∀ c ∈ ':' :: (" %".toList ++ type.name.toList ++ ", ".toList), isPlain c = true := by
    apply List.all_eq_true.1
    cases type <;> decide
  have htype_comma : ',' ∉ '%' :: type.name.toList := by
    cases type <;> decide
  have htype_trimmed : IsTrimmed ('%' :: type.name.toList) := by
    cases type <;> decide
  have hline : n ++ ':' :: (" %".toList ++ type.name.toList ++ ", ".toList ++ literal) =
      n ++ (':' :: (" %".toList ++ type.name.toList ++ ", ".toList)) ++ literal := by
    simp
  have hbody : trim (n ++ (':' :: (" %".toList ++ type.name.toList ++ ", ".toList)) ++ literal) =
      n ++ ':' :: (" %".toList ++ type.name.toList ++ ", ".toList ++ literal) :=
    (hname.trimmed.append hliteral hn.ne_nil hne _).trans hline.symm
  have hbody_strip : stripComment false
      (n ++ (':' :: (" %".toList ++ type.name.toList ++ ", ".toList)) ++ literal) =
      n ++ (':' :: (" %".toList ++ type.name.toList ++ ", ".toList)) ++ literal := by
    rw [stripComment_append (List.forall_mem_append.2 ⟨hn_plain, htype⟩), hstrip]
  have htail : trim (" %".toList ++ type.name.toList ++ ", ".toList ++ literal) =
      ('%' :: type.name.toList) ++ ',' :: ' ' :: literal := by
    have htrim := htype_trimmed.append hliteral (List.cons_ne_nil _ _) hne ", ".toList
    have hblank : " %".toList ++ type.name.toList ++ ", ".toList ++ literal =
        ' ' :: ('%' :: type.name.toList ++ ", ".toList ++ literal) := rfl
    rw [hblank, trim_blank_cons, htrim]
    simp
  have hcomma : splitComma (trim (" %".toList ++ type.name.toList ++ ", ".toList ++ literal)) =
      ('%' :: type.name.toList, some literal) := by
    rw [htail, splitComma_append htype_comma, trim_blank_cons, hliteral, htype_trimmed]
  have htype_name : TypeTag.ofName? (String.ofList type.name.toList) = some type := by
    rw [String.ofList_toList, TypeTag.ofName?_name]
  have hcolon : ':' ∉ n := notMem_of_wordChars hn.wordChars (by decide)
  rw [hline, statement?_indented indentation hbody_strip (by rw [hbody]; simp), hbody,
    (parseStatement_colon hname).1,
    parseDeclaration_of_parts (Text.splitAt?_append hcolon) hcomma htype_name, hinitial,
    hname.trimmed]
  rfl

/-! ### Regions of code -/

/-- A label is read. -/
theorem statement?_label (hn : IsName n) :
    statement? .code ("    ".toList ++ (n ++ [':'])) = .ok (some (.label (String.ofList n))) := by
  obtain ⟨q, hq⟩ := exists_stripComment_append hn.uncommented (c := ':') (by decide) (by decide)
    (by decide)
  have hstrip : stripComment false (n ++ [':']) = n ++ [':'] := by
    rw [hq, stripComment]
  have htrim : trim (n ++ [':']) = n ++ [':'] := isTrimmed_colon hn.trimmed
  have hlast : Text.dropLast? ':' (n ++ [':']) = some n := by
    simp [Text.dropLast?]
  rw [statement?_indented indentation hstrip (by simp [htrim]), htrim, (parseStatement_colon hn).2]
  simp only [parseCodeLine, hlast, show trim n = n from hn.trimmed]
  rfl

theorem head?_of_isPrefix {keyword : List Char} {c : Char} (h : keyword <+: text)
    (hc : keyword.head? = some c) : text.head? = some c := by
  obtain ⟨rest, rfl⟩ := h
  rw [List.head?_append, hc]
  rfl

theorem parseStatement_code (hfirst : text.head? ≠ some '.') :
    parseStatement .code text = parseCodeLine text :=
  (parseStatement_of_none (region?_eq_none (.inr (.inr hfirst)))
    (afterKeyword?_eq_none.2 fun h => hfirst (head?_of_isPrefix h (by decide)))
    (afterKeyword?_eq_none.2 fun h => hfirst (head?_of_isPrefix h (by decide)))).2

/-- A line of code that does not begin with a point nor end in a colon is an instruction. -/
theorem parseStatement_instruction (hfirst : text.head? ≠ some '.')
    (hlast : text.getLast? ≠ some ':') : parseStatement .code text = parseInstruction text := by
  rw [parseStatement_code hfirst, parseCodeLine, Text.dropLast?, if_neg hlast]

/-- An instruction without operand is read. -/
theorem statement?_instruction_none {op : Opcode} (hop : op.hasOperand = false) :
    statement? .code ("        ".toList ++ op.mnemonic.toList) =
      .ok (some (.instruction op none)) := by
  have hword : IsTrimmed op.mnemonic.toList := by
    cases op <;> decide
  have hplain : ∀ c ∈ op.mnemonic.toList, isPlain c = true := by
    apply List.all_eq_true.1
    cases op <;> decide
  have hcomma : splitComma op.mnemonic.toList = (op.mnemonic.toList, none) := by
    have hnone : ',' ∉ op.mnemonic.toList := by
      cases op <;> decide
    rw [splitComma, Text.splitAt?_eq_none hnone]
    exact Prod.ext hword rfl
  have hne : op.mnemonic.toList ≠ [] := by
    cases op <;> decide
  rw [statement?_indented deepIndentation (stripComment_eq_self hplain) (by rwa [hword]), hword,
    parseStatement_instruction (by cases op <;> decide) (by cases op <;> decide)]
  unfold parseInstruction
  simp only [hcomma, String.ofList_toList, Opcode.ofMnemonic?_mnemonic, hop]
  rfl

section Operands

variable {op : Opcode} {o : List Char}

theorem stripComment_operand (hstrip : stripComment false o = o) :
    stripComment false (op.mnemonic.toList ++ ',' :: ' ' :: o) =
      op.mnemonic.toList ++ ',' :: ' ' :: o := by
  have hplain : ∀ c ∈ op.mnemonic.toList ++ [',', ' '], isPlain c = true := by
    apply List.all_eq_true.1
    cases op <;> decide
  have happend : stripComment false (op.mnemonic.toList ++ [',', ' '] ++ o) =
      op.mnemonic.toList ++ [',', ' '] ++ stripComment false o := stripComment_append hplain
  simpa [hstrip] using happend

theorem trim_operand : trim (op.mnemonic.toList ++ ',' :: ' ' :: o) =
    op.mnemonic.toList ++ ',' :: trimEnd (' ' :: o) := by
  have hword : IsTrimmed (op.mnemonic.toList ++ [',']) := by
    cases op <;> decide
  have htrim : trim (op.mnemonic.toList ++ [','] ++ ' ' :: o) =
      op.mnemonic.toList ++ [','] ++ trimEnd (' ' :: o) := hword.trim_append (by simp)
  simpa using htrim

theorem head?_operand : (op.mnemonic.toList ++ ',' :: cs).head? ≠ some '.' := by
  cases op <;> exact fun h => absurd (Option.some.inj h) (by decide)

/-- An instruction whose operand does not end in a colon is read with that operand. -/
theorem statement?_instruction (hop : op.hasOperand = true) (hstrip : stripComment false o = o)
    (ho : IsTrimmed o) (hcolon : o.getLast? ≠ some ':') :
    statement? .code ("        ".toList ++ (op.mnemonic.toList ++ ',' :: ' ' :: o)) =
      (parseOperand o).map fun operand => some (.instruction op (some operand)) := by
  have hsplit : splitComma (op.mnemonic.toList ++ ',' :: trimEnd (' ' :: o)) =
      (op.mnemonic.toList, some o) := by
    have hmnemonic : ',' ∉ op.mnemonic.toList := by
      cases op <;> decide
    have hmnemonic_trimmed : IsTrimmed op.mnemonic.toList := by
      cases op <;> decide
    rw [splitComma_append hmnemonic, Text.trim_trimEnd, trim_blank_cons, ho, hmnemonic_trimmed]
  have hlast : (op.mnemonic.toList ++ ',' :: trimEnd (' ' :: o)).getLast? ≠ some ':' := by
    by_cases hne : o = []
    · have hblank : trimEnd (' ' :: o) = [] := Text.trimEnd_blank (by simp [hne]; decide)
      rw [hblank, List.getLast?_concat]
      decide
    · have hlong : trimEnd (' ' :: o) = ' ' :: o := trimEnd_blank_cons ho hne
      have hcons : op.mnemonic.toList ++ ',' :: ' ' :: o =
          op.mnemonic.toList ++ [',', ' '] ++ o := by simp
      rw [hlong, hcons, List.getLast?_append_of_ne_nil _ hne]
      exact hcolon
  rw [statement?_indented deepIndentation (stripComment_operand hstrip)
    (by rw [trim_operand]; simp), trim_operand, parseStatement_instruction head?_operand hlast]
  unfold parseInstruction
  simp only [hsplit, String.ofList_toList, Opcode.ofMnemonic?_mnemonic, hop]
  cases parseOperand o <;> rfl

/-- An instruction whose operand ends in a colon is read as a label. -/
theorem exists_label_of_colon (hstrip : stripComment false o = o)
    (hcolon : o.getLast? = some ':') :
    ∃ x, statement? .code ("        ".toList ++ (op.mnemonic.toList ++ ',' :: ' ' :: o)) =
      .ok (some (.label x)) := by
  obtain ⟨init, rfl⟩ := List.getLast?_eq_some_iff.1 hcolon
  have hend : trimEnd (' ' :: (init ++ [':'])) = ' ' :: init ++ [':'] :=
    Text.trimEnd_append (l := ' ' :: init) (by decide)
  have hlast : Text.dropLast? ':' (op.mnemonic.toList ++ ',' :: (' ' :: init ++ [':'])) =
      some (op.mnemonic.toList ++ ',' :: ' ' :: init) := by
    have hconcat : op.mnemonic.toList ++ ',' :: (' ' :: init ++ [':']) =
        (op.mnemonic.toList ++ ',' :: ' ' :: init) ++ [':'] := by simp
    rw [hconcat, Text.dropLast?, if_pos List.getLast?_concat, List.dropLast_concat]
  rw [statement?_indented deepIndentation (stripComment_operand hstrip)
    (by rw [trim_operand]; simp), trim_operand, hend, parseStatement_code head?_operand,
    parseCodeLine, hlast]
  exact ⟨_, rfl⟩

end Operands

end EventVm.Assembly
