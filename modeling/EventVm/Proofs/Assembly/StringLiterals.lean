import EventVm.Proofs.Assembly.InitialValues
import EventVm.Proofs.Assembly.Reading

/-!
# String literals and comments

A string is written between quotes with a backslash in front of quotes and backslashes and with
escapes for line feed and tab (`stringLiteral`). Two readers go over such a text: the one that cuts
off comments, and the one that undoes the escapes. Both take it character by character, each
character in one of the ways that `Text.Spells` lists, so they agree on where it ends
(`closed_stringLiteral`, `quotedString?_stringLiteral`). A line that ends in a literal says the same
with a comment behind it (`Closed.statement?_comment`).
-/

namespace EventVm.Assembly

open Text (IsTrimmed isBlank trim trimEnd Spells quotedString?)

variable {r : Region} {c : Char} {cs ds line bs : List Char} {s : String}

/-! ### Literals -/

/-- The way a character is written in a string literal. -/
def protect (c : Char) : List Char :=
  if c = '\n' then ['\\', 'n']
  else if c = '\t' then ['\\', 't']
  else if c = '"' ∨ c = '\\' then ['\\', c]
  else [c]

/-- The literal of a string. -/
def stringLiteral (s : String) : List Char :=
  '"' :: s.toList.flatMap protect ++ ['"']

theorem spells_protect (c : Char) : Spells c (protect c) := by
  unfold protect
  split
  · next hc =>
    subst hc
    exact .escaped 'n'
  · next hnewline =>
    split
    · next hc =>
      subst hc
      exact .escaped 't'
    · split
      · next hc =>
        rcases hc with rfl | rfl
        · exact .escaped '"'
        · exact .escaped '\\'
      · next hplain =>
        rw [not_or] at hplain
        exact .plain c hplain.1 hplain.2

theorem quotedString?_stringLiteral (s : String) : quotedString? (stringLiteral s) = some s := by
  have hinner : Text.unquoted? (stringLiteral s) = some (s.toList.flatMap protect) := by
    simp [Text.unquoted?, stringLiteral, Text.dropLast?]
  unfold quotedString?
  rw [hinner, Option.bind_eq_bind, Option.bind_some,
    Text.unescape?_flatMap fun c _ => spells_protect c]
  exact congrArg some String.ofList_toList

theorem newline_notMem_stringLiteral (s : String) : '\n' ∉ stringLiteral s := by
  have hprotect : ∀ c, '\n' ∉ protect c := by
    intro c
    unfold protect
    split
    · decide
    · next hnewline =>
      split
      · decide
      · split
        · simp [Ne.symm hnewline]
        · simp [Ne.symm hnewline]
  simp [stringLiteral, hprotect]

theorem isTrimmed_stringLiteral (s : String) : IsTrimmed (stringLiteral s) :=
  Text.isTrimmed_of_ends (by decide) (by decide) (List.getLast?_concat (l := '"' :: _))

/-! ### Comments behind a text -/

/-- Whether a text has no comment and leaves no quote open, so that what follows it is read as if it
stood alone. -/
def Closed (cs : List Char) : Prop :=
  ∀ rest, stripComment false (cs ++ rest) = cs ++ stripComment false rest

theorem closed_of_plain (h : ∀ c ∈ cs, isPlain c = true) : Closed cs :=
  fun _ => stripComment_append h

theorem Closed.append (hcs : Closed cs) (hds : Closed ds) : Closed (cs ++ ds) := by
  intro rest
  rw [List.append_assoc, hcs, hds, List.append_assoc]

theorem Closed.uncommented (h : Closed cs) : stripComment false cs = cs := by
  have hnil := h []
  rwa [stripComment, List.append_nil] at hnil

theorem closed_stringLiteral (s : String) : Closed (stringLiteral s) := by
  intro rest
  have hquote : stripComment true ('"' :: rest) = '"' :: stripComment false rest :=
    stripComment_quote
  unfold stringLiteral
  rw [List.cons_append, List.cons_append, stripComment_quote, List.append_assoc, Bool.not_false,
    stripComment_flatMap fun c _ => spells_protect c, List.singleton_append, hquote]
  simp

/-- Blanks in front of a line do not count. -/
theorem statement?_blank (hbs : ∀ c ∈ bs, isBlank c = true) :
    statement? r (bs ++ cs) = statement? r cs := by
  have hplain : ∀ c ∈ bs, isPlain c = true := fun c hc => isPlain_of_isBlank (hbs c hc)
  unfold statement?
  rw [stripComment_append hplain, Text.trim_append hbs]

/-- A comment behind a closed text does not count. -/
theorem Closed.statement?_comment (h : Closed cs) :
    statement? r (cs ++ " # ".toList ++ ds) = statement? r cs := by
  have hcomment : stripComment false (" # ".toList ++ ds) = [' '] := rfl
  have htrim : trim (cs ++ [' ']) = trim cs := by
    have hend : trimEnd (cs ++ [' ']) = trimEnd cs :=
      List.rdropWhile_concat_pos isBlank cs ' ' (by decide)
    rw [← Text.trim_trimEnd, hend, Text.trim_trimEnd]
  unfold statement?
  rw [List.append_assoc, h, hcomment, htrim, h.uncommented]

/-! ### The two lines -/

/-- The line that declares a string variable. -/
def stringLine (x : String) (s : String) : List Char :=
  x.toList ++ ": %SystemString, ".toList ++ stringLiteral s

/-- The line that calls the host function of a signature. -/
def callLine (s : String) : List Char :=
  "EXTERN, ".toList ++ stringLiteral s

theorem newline_notMem_stringLine {x : String} (hx : IsIdentifier x.toList) (s : String) :
    '\n' ∉ stringLine x s := by
  have htype : '\n' ∉ ": %SystemString, ".toList := by decide
  rw [stringLine, List.mem_append, List.mem_append, not_or, not_or]
  exact ⟨⟨hx.isName.newline, htype⟩, newline_notMem_stringLiteral s⟩

theorem newline_notMem_callLine (s : String) : '\n' ∉ callLine s := by
  have hcall : '\n' ∉ "EXTERN, ".toList := by decide
  unfold callLine
  rw [List.mem_append, not_or]
  exact ⟨hcall, newline_notMem_stringLiteral s⟩

theorem closed_stringLine {x : String} (hx : IsIdentifier x.toList) (s : String) :
    Closed (stringLine x s) := by
  have hname : Closed x.toList :=
    closed_of_plain fun c hc => isPlain_of_isWordChar (hx.wordChars c hc)
  exact (hname.append (closed_of_plain (List.all_eq_true.1 (by decide)))).append
    (closed_stringLiteral s)

theorem closed_callLine (s : String) : Closed (callLine s) :=
  (closed_of_plain (List.all_eq_true.1 (by decide))).append (closed_stringLiteral s)

/-- A data line with the literal of a string declares a variable with that string. -/
theorem statement?_stringLine {x : String} (hx : IsIdentifier x.toList) (s : String) :
    statement? .data (stringLine x s ++ " # ".toList ++ ds) =
      .ok (some (.declare x .string (.value (.string s)))) := by
  have hthis : stringLiteral s ≠ "this".toList := by
    intro hliteral
    exact absurd (congrArg List.head? hliteral) (by simp [stringLiteral])
  have hinitial : parseInitial .string (some (stringLiteral s)) = .ok (.value (.string s)) := by
    have hquote : (stringLiteral s).head? = some '"' := rfl
    unfold parseInitial
    simp only [if_neg hthis, initialValue?, if_pos hquote, quotedString?_stringLiteral,
      Option.map_some]
  have hread := statement?_declare hx (closed_stringLiteral s).uncommented
    (isTrimmed_stringLiteral s) (List.cons_ne_nil _ _) hinitial
  have hline : stringLine x s = x.toList ++ ':' ::
      (" %".toList ++ TypeTag.string.name.toList ++ ", ".toList ++ stringLiteral s) := by
    simp [stringLine, TypeTag.name]
  rw [(closed_stringLine hx s).statement?_comment, hline]
  rwa [statement?_blank indentation, String.ofList_toList] at hread

/-- A code line with the literal of a string calls with that string. -/
theorem statement?_callLine (s : String) :
    statement? .code (callLine s ++ " # ".toList ++ ds) =
      .ok (some (.instruction .call (some (.string s)))) := by
  have hlast : (stringLiteral s).getLast? ≠ some ':' := by
    have hquote : (stringLiteral s).getLast? = some '"' := List.getLast?_concat (l := '"' :: _)
    rw [hquote]
    decide
  have hoperand : parseOperand (stringLiteral s) = .ok (.string s) := by
    have hcons : stringLiteral s = '"' :: (s.toList.flatMap protect ++ ['"']) := rfl
    have hread := quotedString?_stringLiteral s
    rw [hcons] at hread ⊢
    simp only [parseOperand, hread]
  have hcall : Opcode.call.hasOperand = true := rfl
  have hread := statement?_instruction hcall (closed_stringLiteral s).uncommented
    (isTrimmed_stringLiteral s) hlast
  rw [statement?_blank deepIndentation, hoperand] at hread
  rw [(closed_callLine s).statement?_comment]
  exact hread

/-! ### In a source -/

/-- Whether a line stands in a source, in a region of the given kind, behind the statements `ss`. -/
def HasLine (source : String) (ss : List Placed) (r : Region) (line : List Char) : Prop :=
  ∃ front back, source.toList = front ++ (line ++ back) ∧ Text.EndsLine front ∧
    (back = [] ∨ back.head? = some '\n') ∧ statements (String.ofList front) = .ok ss ∧
    Region.outside.behind ss = r

/-- Whether an address stands for a string slot that holds the text. On a heap with more slots than
addresses, an address stands for every slot whose position it is cut from. -/
def TextAt (h : Heap) (address : UInt32) (s : String) : Prop :=
  (∃ k, address = UInt32.ofNat k ∧ h.slots[k]? = some ⟨.string, .value (.string s)⟩) ∧
    (h.size ≤ 2 ^ 32 → h.slot? address = some ⟨.string, .value (.string s)⟩)

theorem textAt_of_getElem? {h : Heap} {k : Nat}
    (hk : h.slots[k]? = some ⟨.string, .value (.string s)⟩) : TextAt h (UInt32.ofNat k) s := by
  refine ⟨⟨k, rfl, hk⟩, fun hsize => ?_⟩
  have hlt : k < h.size := (List.getElem?_eq_some_iff.1 hk).1
  rw [Heap.slot?, UInt32.toNat_ofNat_of_lt' (by show k < 2 ^ 32; omega), hk]

/-- Whether a program declares a variable of the given name in a string slot that holds the text. -/
def DeclaresText (p : Program) (x s : String) : Prop :=
  ∃ a, p.symbols.addressOf? x = some a ∧ TextAt p.heap a s

/-- Whether the instruction behind `k` others calls with a string slot that holds the text. -/
def CallsText (p : Program) (k : Nat) (s : String) : Prop :=
  ∃ is i a, Instruction.decodeAll p.code = .ok is ∧ is[k]? = some i ∧ i.opcode = .call ∧
    i.operand = some a ∧ TextAt p.heap a s

section Sources

variable {source name : String} {ss us : List Placed} {st : Statement} {p : Program}
  {is : List Instruction}

/-- A line with a comment is read as a line with a comment: at most the last character of the
comment, a carriage return, belongs to the end of the line. -/
theorem exists_lines_comment {front back : List Char} (hfront : Text.EndsLine front)
    (hline : '\n' ∉ line) (hcs : '\n' ∉ cs) (hback : back = [] ∨ back.head? = some '\n') :
    ∃ ds, Text.lines (front ++ (line ++ " # ".toList ++ cs ++ back)) =
      Text.lines front ++ (line ++ " # ".toList ++ ds) :: Text.lines back.tail := by
  have hnewline : '\n' ∉ line ++ " # ".toList ++ cs := by
    simp [hline, hcs]
  obtain ⟨l, hl, hlines⟩ := Text.exists_lines_append hnewline (by simp) hback
  rw [hfront.lines_append, hlines]
  rcases hl with rfl | hl
  · exact ⟨cs, rfl⟩
  · rcases List.eq_nil_or_concat' cs with rfl | ⟨ds, d, rfl⟩
    · have hlast := congrArg List.getLast? hl
      rw [List.append_nil, List.getLast?_concat, List.getLast?_append_of_ne_nil _ (by decide)]
        at hlast
      exact absurd hlast (by decide)
    · rw [← List.append_assoc] at hl
      obtain rfl := List.append_inj_left' hl rfl
      exact ⟨ds, rfl⟩

/-- The statement of a commented line comes where the line stands. -/
theorem HasLine.exists_statements {ts : List Placed}
    (h : HasLine source ss r (line ++ " # ".toList ++ cs)) (hline : '\n' ∉ line) (hcs : '\n' ∉ cs)
    (hst : ∀ ds, statement? r (line ++ " # ".toList ++ ds) = .ok (some st))
    (hts : statements source = .ok ts) : ∃ us, ts = ss ++ ⟨r, st⟩ :: us := by
  obtain ⟨front, back, hsource, hfront, hback, hss, rfl⟩ := h
  obtain ⟨ds, hlines⟩ := exists_lines_comment hfront hline hcs hback
  unfold statements at hts hss
  rw [hsource, hlines] at hts
  rw [String.toList_ofList] at hss
  obtain ⟨ss₁, ss₂, hss₁, hss₂, rfl⟩ := exists_statementsFrom_append hts
  cases hss.symm.trans hss₁
  rw [statementsFrom_statement (hst ds)] at hss₂
  obtain ⟨us, -, rfl⟩ := map_eq_ok.1 hss₂
  exact ⟨us, rfl⟩

/-- A variable declared with a string has a slot with that string. -/
theorem Compiles.declaresText {x : String}
    (hc : Compiles name (ss ++ ⟨r, .declare x .string (.value (.string s))⟩ :: us) is p) :
    DeclaresText p x s := by
  have hdeclared : declarationsOf (ss ++ ⟨r, .declare x .string (.value (.string s))⟩ :: us) =
      declarationsOf ss ++ ⟨x, .string, .value (.string s)⟩ :: declarationsOf us :=
    declarationsOf_append
  have hslot : p.heap.slots[(declarationsOf ss).length]? =
      some ⟨.string, .value (.string s)⟩ := by
    rw [hc.slots, hdeclared]
    simp [Declaration.slot, Initial.slot]
  refine ⟨UInt32.ofNat (declarationsOf ss).length, ?_, textAt_of_getElem? hslot⟩
  have hsymbol : ∃ v ∈ p.symbols.symbols,
      v.name = x ∧ v.address = UInt32.ofNat (declarationsOf ss).length := by
    have hat : ∃ v, p.symbols.symbols[(declarationsOf ss).length]? = some v ∧
        v.name = x ∧ v.address = UInt32.ofNat (declarationsOf ss).length := by
      rw [hc.symbols, hdeclared, symbolsOf, List.getElem?_append_left (by simp)]
      simp
    obtain ⟨v, hv, hprops⟩ := hat
    exact ⟨v, List.mem_of_getElem? hv, hprops⟩
  obtain ⟨v, hv, rfl, haddress⟩ := hsymbol
  rw [SymbolTable.Raw.addressOf?, SymbolTable.get?_of_mem hv, Option.map_some, haddress]

/-- A string written as an operand has a slot. -/
theorem Compiles.textAt_operand (hc : Compiles name ss is p) (ht : s ∈ textsOf (instructionsOf ss)) :
    TextAt p.heap (UInt32.ofNat
      ((declarationsOf ss).length + (textsOf (instructionsOf ss)).idxOf s)) s := by
  apply textAt_of_getElem?
  rw [hc.slots, List.getElem?_append_right (by simp)]
  simp [List.getElem?_idxOf ht, Build.signatureSlot]

/-- A call written with a string becomes a call with the address of a slot with that string. -/
theorem Compiles.callsText
    (hc : Compiles name (ss ++ ⟨r, .instruction .call (some (.string s))⟩ :: us) is p) :
    CallsText p (instructionsOf ss).length s := by
  have hlisted : instructionsOf (ss ++ ⟨r, .instruction .call (some (.string s))⟩ :: us) =
      instructionsOf ss ++ ⟨.call, some (.string s)⟩ :: instructionsOf us :=
    instructionsOf_append
  have hdrop := List.forall₂_drop (instructionsOf ss).length hc.instructions
  rw [hlisted, List.drop_left, ← hlisted] at hdrop
  obtain ⟨i, is', ⟨hop, hoperand⟩, -, his⟩ := List.forall₂_cons_left_iff.1 hdrop
  have hi : is[(instructionsOf ss).length]? = some i := by
    rw [← List.head?_drop, his]
    rfl
  generalize hw : i.operand = w at hoperand
  cases hoperand with
  | text _ _ ht => exact ⟨is, i, _, hc.listed, hi, hop, hw, hc.textAt_operand ht⟩

end Sources

/-! ### Sources of one line -/

/-- The source with one line in a data region. -/
def dataSource (line : List Char) : String :=
  String.ofList (".data_start\n".toList ++ (line ++ "\n.data_end\n".toList))

/-- The source with one line in a code region. -/
def codeSource (line : List Char) : String :=
  String.ofList (".code_start\n".toList ++ (line ++ "\n.code_end\n".toList))

theorem hasLine_dataSource (line : List Char) :
    HasLine (dataSource line) [⟨.outside, .enter .data⟩] .data line := by
  have hfront : ".data_start\n".toList.getLast? = some '\n' := by decide
  have hback : "\n.data_end\n".toList.head? = some '\n' := by decide
  refine ⟨".data_start\n".toList, "\n.data_end\n".toList, String.toList_ofList, Or.inr hfront,
    Or.inr hback, ?_, rfl⟩
  decide

theorem hasLine_codeSource (line : List Char) :
    HasLine (codeSource line) [⟨.outside, .enter .code⟩] .code line := by
  have hfront : ".code_start\n".toList.getLast? = some '\n' := by decide
  have hback : "\n.code_end\n".toList.head? = some '\n' := by decide
  refine ⟨".code_start\n".toList, "\n.code_end\n".toList, String.toList_ofList, Or.inr hfront,
    Or.inr hback, ?_, rfl⟩
  decide

section Alone

variable (name s : String) (hcs : '\n' ∉ cs)

include hcs

theorem exists_assemble_stringLine {x : String} (hx : IsIdentifier x.toList) :
    ∃ p, assemble name (dataSource (stringLine x s ++ " # ".toList ++ cs)) = .ok p := by
  have hfront : ".data_start\n".toList.getLast? = some '\n' := by decide
  have hback : "\n.data_end\n".toList.head? = some '\n' := by decide
  obtain ⟨ds, hlines⟩ := exists_lines_comment (Or.inr hfront) (newline_notMem_stringLine hx s) hcs
    (Or.inr hback)
  have hstatements : statements (dataSource (stringLine x s ++ " # ".toList ++ cs)) =
      .ok [⟨.outside, .enter .data⟩, ⟨.data, .declare x .string (.value (.string s))⟩,
        ⟨.data, .enter .outside⟩] := by
    have hstart : Text.lines ".data_start\n".toList = [".data_start".toList] := by decide
    have hend : Text.lines "\n.data_end\n".toList.tail = [".data_end".toList] := by decide
    have hopen : statement? .outside ".data_start".toList = .ok (some (.enter .data)) := by decide
    have hclose : statement? .data ".data_end".toList = .ok (some (.enter .outside)) := by decide
    unfold statements dataSource
    rw [String.toList_ofList, hlines, hstart, hend, List.singleton_append,
      statementsFrom_statement hopen]
    simp only [Region.after]
    rw [statementsFrom_statement (statement?_stringLine hx s)]
    simp only [Region.after]
    rw [statementsFrom_statement hclose]
    rfl
  refine exists_assemble hstatements ?_
  constructor
  case toOrderly =>
    constructor <;> simp [declarationsOf, marksOf, marksFrom, exportsOf, syncsOf, Declaration.slot,
      Initial.slot, Slot.isWellTyped, Value.fits, Value.type?]
  case operands => simp [instructionsOf]

theorem exists_assemble_callLine :
    ∃ p, assemble name (codeSource (callLine s ++ " # ".toList ++ cs)) = .ok p := by
  have hfront : ".code_start\n".toList.getLast? = some '\n' := by decide
  have hback : "\n.code_end\n".toList.head? = some '\n' := by decide
  obtain ⟨ds, hlines⟩ := exists_lines_comment (Or.inr hfront) (newline_notMem_callLine s) hcs
    (Or.inr hback)
  have hstart : Text.lines ".code_start\n".toList = [".code_start".toList] := by decide
  have hend : Text.lines "\n.code_end\n".toList.tail = [".code_end".toList] := by decide
  have hopen : statement? .outside ".code_start".toList = .ok (some (.enter .code)) := by decide
  have hclose : statement? .code ".code_end".toList = .ok (some (.enter .outside)) := by decide
  have hread : statement? .code (callLine s ++ " # ".toList ++ ds) = _ := statement?_callLine s
  have hdraft : Draft.read name (codeSource (callLine s ++ " # ".toList ++ cs)).toList =
      .ok { Draft.new name with
        instructions := [⟨2, ⟨.call, some (.string s)⟩⟩], offset := 0 + Opcode.call.size } := by
    unfold Draft.read codeSource
    rw [String.toList_ofList, hlines, hstart, hend]
    simp only [List.singleton_append, List.zipIdx_cons, List.zipIdx_nil, List.foldlM_cons,
      List.foldlM_nil, addLine_eq, Draft.new, hopen, hread, hclose, Draft.add, bind, Except.bind,
      pure, Except.pure]
    rfl
  unfold assemble
  rw [hdraft]
  exact ⟨_, rfl⟩

end Alone

/-! ### The main result -/

/-- A string literal is read as its string, and ends where it was written to end, whatever comment
follows. As the value of a data line it puts the string in the slot of the variable; as the operand
of a call it stands for a string slot with the string. Such a line makes no source a faulty one by
itself: alone in its region it is assembled. -/
theorem stringLiteral_exact (name s : String) (cs : List Char) (hcs : '\n' ∉ cs) :
    (∀ x : String, IsIdentifier x.toList →
      let line := stringLine x s ++ " # ".toList ++ cs
      statement? .data line = .ok (some (.declare x .string (.value (.string s)))) ∧
      (∃ p, assemble name (dataSource line) = .ok p ∧ DeclaresText p x s) ∧
      ∀ source ss p, HasLine source ss .data line → assemble name source = .ok p →
        DeclaresText p x s) ∧
    let line := callLine s ++ " # ".toList ++ cs
    statement? .code line = .ok (some (.instruction .call (some (.string s)))) ∧
    (∃ p, assemble name (codeSource line) = .ok p ∧ CallsText p 0 s) ∧
    ∀ source ss p, HasLine source ss .code line → assemble name source = .ok p →
      CallsText p (instructionsOf ss).length s := by
  constructor
  · intro x hx line
    have hdeclares : ∀ source ss p, HasLine source ss .data line → assemble name source = .ok p →
        DeclaresText p x s := by
      intro source ss p hsource hp
      obtain ⟨ts, is, hts, hc⟩ := exists_compiles hp
      obtain ⟨us, rfl⟩ := hsource.exists_statements (newline_notMem_stringLine hx s) hcs
        (fun ds => statement?_stringLine hx s) hts
      exact hc.declaresText
    obtain ⟨p, hp⟩ := exists_assemble_stringLine name s hcs hx
    refine ⟨statement?_stringLine hx s, ⟨p, hp, ?_⟩, hdeclares⟩
    exact hdeclares _ _ p (hasLine_dataSource line) hp
  · intro line
    have hcalls : ∀ source ss p, HasLine source ss .code line → assemble name source = .ok p →
        CallsText p (instructionsOf ss).length s := by
      intro source ss p hsource hp
      obtain ⟨ts, is, hts, hc⟩ := exists_compiles hp
      obtain ⟨us, rfl⟩ := hsource.exists_statements (newline_notMem_callLine s) hcs
        (fun ds => statement?_callLine s) hts
      exact hc.callsText
    obtain ⟨p, hp⟩ := exists_assemble_callLine name s hcs
    refine ⟨statement?_callLine s, ⟨p, hp, ?_⟩, hcalls⟩
    exact hcalls _ _ p (hasLine_codeSource line) hp

theorem stringLiteral_exact_tricky :
    let s := "a # \"b\", c: \\"
    let comment := " # say \"c: \\".toList
    stringLiteral s = "\"a # \\\"b\\\", c: \\\\\"".toList ∧
    (∃ p, assemble "tricky" (dataSource (stringLine "x" s ++ comment)) = .ok p ∧
      DeclaresText p "x" s) ∧
    ∃ p, assemble "tricky" (codeSource (callLine s ++ comment)) = .ok p ∧ CallsText p 0 s := by
  intro s comment
  have hcomment : comment = " # ".toList ++ "say \"c: \\".toList := by decide
  obtain ⟨hdata, -, hcode, -⟩ :=
    stringLiteral_exact "tricky" s "say \"c: \\".toList (by decide)
  obtain ⟨-, hdeclared, -⟩ := hdata "x" (by decide)
  rw [hcomment, ← List.append_assoc, ← List.append_assoc]
  exact ⟨by decide, hdeclared, hcode⟩

end EventVm.Assembly
