import EventVm.Proofs.Assembly.Reading
import EventVm.Proofs.Program.Verified

/-!
# Listings taken apart

The lines of a listing, and what the assembler reads in the two regions that they make. A line of a
region, once it can be read, makes exactly one statement and does not leave the region
(`Stays`), so that the statements of a listing are those of its lines, one by one
(`statements_listing`).
-/

namespace EventVm.Assembly

open Text (IsLine)

variable {p : Program} {is : List Instruction} {i : Instruction} {r : Region} {text : String}
  {raw : List Char} {raws raws' : List (List Char)} {ss : List Placed} {s : Statement}

/-! ### The lines -/

/-- The line in front of all others. -/
def titleLine (p : Program) : List Char :=
  "# ".toList ++ p.name.toList ++ " (".toList ++ p.instructionSet.toList ++ " ".toList ++
    p.version.display.toList ++ ")".toList

/-- The line that exports a name. -/
def exportLine (s : Symbol) : List Char :=
  "    .export ".toList ++ s.name.toList

/-- The line of a synced variable. -/
def syncLine (e : SyncEntry) : List Char :=
  "    .sync ".toList ++ e.name.toList ++ ", ".toList ++ e.interpolation.keyword.toList

/-- The line of a variable. -/
def declarationLine (h : Heap) (s : Symbol) : List Char :=
  "    ".toList ++ (s.name.toList ++ ':' ::
    (" %".toList ++ s.type.name.toList ++ ", ".toList ++ (literalText h s.address).toList))

/-- The lines between the marks of the data region. -/
def dataBody (p : Program) : List (List Char) :=
  p.symbols.exported.map exportLine ++ p.sync.entries.map syncLine ++
    p.symbols.symbols.map (declarationLine p.heap)

/-- The line of a label. -/
def labelLine (s : Symbol) : List Char :=
  "    ".toList ++ (s.name.toList ++ [':'])

/-- The entry points at an instruction. -/
def entriesAt (p : Program) (i : Instruction) : List Symbol :=
  p.entryPoints.symbols.filter fun s => s.address == i.offset

/-- The lines of an entry point. -/
def entryLines (s : Symbol) : List (List Char) :=
  if s.exported then [exportLine s, labelLine s] else [labelLine s]

/-- The line of an instruction. -/
def operandLine (p : Program) (i : Instruction) : List Char :=
  match i.operand with
  | none => "        ".toList ++ i.opcode.mnemonic.toList
  | some w => "        ".toList ++ (i.opcode.mnemonic.toList ++
      ',' :: ' ' :: (operandText p i.opcode w).toList)

/-- The lines of an instruction and the entry points at it. -/
def blockLines (p : Program) (i : Instruction) : List (List Char) :=
  (entriesAt p i).flatMap entryLines ++ [operandLine p i]

/-- The lines of a listing. -/
def listingLines (p : Program) (is : List Instruction) : List (List Char) :=
  [titleLine p, ".data_start".toList] ++ dataBody p ++
    [".data_end".toList, [], ".code_start".toList] ++
    is.flatMap (blockLines p) ++ [".code_end".toList]

theorem toList_instructionLine : (instructionLine p i).toList = operandLine p i := by
  unfold instructionLine operandLine
  cases i.operand with
  | none => simp
  | some w => simp [toString]

theorem toList_export (s : Symbol) : (s!"    .export {s.name}").toList = exportLine s :=
  String.toList_append

theorem toList_sync (e : SyncEntry) :
    (s!"    .sync {e.name}, {e.interpolation.keyword}").toList = syncLine e := by
  unfold syncLine
  simp only [toString, String.toList_append]

theorem toList_declaration (h : Heap) (s : Symbol) :
    (s!"    {s.name}: %{s.type.name}, {literalText h s.address}").toList =
      declarationLine h s := by
  unfold declarationLine
  simp [toString]

theorem toList_label (s : Symbol) : (s!"    {s.name}:").toList = labelLine s := by
  unfold labelLine
  simp [toString]

theorem toList_labelLines (s : Symbol) : (labelLines s).map String.toList = entryLines s := by
  unfold labelLines entryLines
  rw [List.map_append, List.map_singleton, toList_label]
  split
  · rw [List.map_singleton, toList_export]
    rfl
  · rfl

theorem toList_dataLines (p : Program) : (dataLines p).map String.toList =
    ".data_start".toList :: dataBody p ++ [".data_end".toList] := by
  simp only [dataLines, List.map_append, List.map_map, Function.comp_def, toList_export,
    toList_sync, toList_declaration]
  rfl

theorem toList_codeLines (p : Program) (is : List Instruction) :
    (codeLines p is).map String.toList =
      ".code_start".toList :: is.flatMap (blockLines p) ++ [".code_end".toList] := by
  simp only [codeLines, List.map_append, List.map_flatMap, List.map_cons, List.map_nil,
    toList_labelLines, toList_instructionLine]
  rfl

/-! ### A listing as lines -/

/-- What a program has to be for the lines of its listing to be read line by line. -/
structure Listable (p : Program) : Prop where
  name : '\n' ∉ p.name.toList
  instructionSet : p.instructionSet = instructionSetName
  version : p.version = instructionSetVersion
  symbols : ∀ s ∈ p.symbols.symbols, IsName s.name.toList ∧ ':' ∉ s.name.toList
  entryPoints : ∀ s ∈ p.entryPoints.symbols, IsName s.name.toList
  exportedSymbols : ∀ s ∈ p.symbols.symbols, s.exported = true → s.name.toList ≠ []
  exportedEntries : ∀ s ∈ p.entryPoints.symbols, s.exported = true → s.name.toList ≠ []
  synced : ∀ e ∈ p.sync.entries, e.name ∈ p.symbols.names

theorem IsName.isLine {n : List Char} (h : IsName n) : IsLine n where
  newline := h.newline
  last hlast := by
    obtain ⟨init, rfl⟩ := List.getLast?_eq_some_iff.1 hlast
    have hblank := Text.IsTrimmed.last h.trimmed
    exact absurd hblank (by decide)

theorem isLine_titleLine (h : Listable p) : IsLine (titleLine p) where
  newline := by
    have hsign : '\n' ∉ "# ".toList := by decide
    have hset : '\n' ∉ " (".toList ++ instructionSetName.toList ++ " ".toList ++
        instructionSetVersion.display.toList ++ ")".toList := by decide
    unfold titleLine
    rw [h.instructionSet, h.version]
    simp only [List.mem_append, not_or] at hset ⊢
    exact ⟨⟨⟨⟨⟨⟨hsign, h.name⟩, hset.1.1.1.1⟩, hset.1.1.1.2⟩, hset.1.1.2⟩, hset.1.2⟩, hset.2⟩
  last := by
    unfold titleLine
    rw [List.getLast?_append_of_ne_nil _ (by decide)]
    decide

theorem isLine_exportLine {s : Symbol} (h : IsName s.name.toList) : IsLine (exportLine s) :=
  IsLine.append (by decide) h.isLine

theorem isLine_syncLine {e : SyncEntry} (h : IsName e.name.toList) : IsLine (syncLine e) := by
  have hkeyword : IsLine e.interpolation.keyword.toList := by
    cases e.interpolation <;> decide
  exact ((IsLine.append (by decide) h.isLine).append (by decide)).append hkeyword

theorem isLine_literalText (h : Heap) (address : UInt32) :
    IsLine (literalText h address).toList := by
  unfold literalText
  split
  · exact Value.isLine_display _
  · decide
  · decide

theorem isLine_declarationLine {h : Heap} {s : Symbol} (hs : IsName s.name.toList) :
    IsLine (declarationLine h s) := by
  have htype : IsLine (':' :: (" %".toList ++ s.type.name.toList ++ ", ".toList)) := by
    cases s.type <;> decide
  have hrest := htype.append (isLine_literalText h s.address)
  exact IsLine.append (by decide) (hs.isLine.append hrest)

theorem isLine_labelLine {s : Symbol} (h : IsName s.name.toList) : IsLine (labelLine s) :=
  IsLine.append (by decide) (h.isLine.append (by decide))

theorem mem_of_operandSymbol? {op : Opcode} {w : UInt32} {s : Symbol}
    (h : operandSymbol? p op w = some s) :
    s.address = w ∧ ((op.takesCodeOffset = true ∧ s ∈ p.entryPoints.symbols) ∨
      (op.takesCodeOffset = false ∧ s ∈ p.symbols.symbols)) := by
  unfold operandSymbol? at h
  split at h
  · next hop =>
    split at h
    · cases h
    · have haddress := List.find?_some h
      exact ⟨by simpa using haddress, .inl ⟨hop, List.mem_of_find?_eq_some h⟩⟩
  · next hop =>
    have haddress := List.find?_some h
    exact ⟨by simpa using haddress, .inr ⟨by simpa using hop, List.mem_of_find?_eq_some h⟩⟩

theorem Listable.isName (h : Listable p) {op : Opcode} {w : UInt32} {s : Symbol}
    (hs : operandSymbol? p op w = some s) : IsName s.name.toList := by
  obtain ⟨-, ⟨-, hs⟩ | ⟨-, hs⟩⟩ := mem_of_operandSymbol? hs
  · exact h.entryPoints s hs
  · exact (h.symbols s hs).1

theorem isLine_operandText (h : Listable p) (op : Opcode) (w : UInt32) :
    IsLine (operandText p op w).toList := by
  unfold operandText
  split
  · next s hs => exact (h.isName hs).isLine
  · exact Value.isLine_operandHex w

theorem isLine_operandLine (h : Listable p) (i : Instruction) : IsLine (operandLine p i) := by
  unfold operandLine
  have hmnemonic : IsLine i.opcode.mnemonic.toList := by
    cases i.opcode <;> decide
  split
  · exact IsLine.append (by decide) hmnemonic
  · next w _ =>
    have hcomma : IsLine [',', ' '] := by decide
    have hoperand := hcomma.append (isLine_operandText h i.opcode w)
    exact IsLine.append (by decide) (hmnemonic.append hoperand)

theorem isLine_blockLines (h : Listable p) (i : Instruction) :
    ∀ raw ∈ blockLines p i, IsLine raw := by
  refine List.forall_mem_append.2 ⟨?_, List.forall_mem_singleton.2 (isLine_operandLine h i)⟩
  rw [List.forall_mem_flatMap]
  intro s hs
  have hname := h.entryPoints s (List.mem_of_mem_filter hs)
  unfold entryLines
  split
  · simp [isLine_exportLine hname, isLine_labelLine hname]
  · simp [isLine_labelLine hname]

theorem isLine_dataBody (h : Listable p) : ∀ raw ∈ dataBody p, IsLine raw := by
  simp only [dataBody, List.forall_mem_append, List.forall_mem_map]
  refine ⟨⟨fun s hs => ?_, fun e he => ?_⟩, fun s hs => ?_⟩
  · exact isLine_exportLine (h.symbols s (List.mem_of_mem_filter hs)).1
  · obtain ⟨s, hs, hname⟩ := List.mem_map.1 (h.synced e he)
    exact isLine_syncLine (hname ▸ (h.symbols s hs).1)
  · exact isLine_declarationLine (h.symbols s hs).1

theorem isLine_of_mem_listingLines (h : Listable p) (is : List Instruction) :
    ∀ raw ∈ listingLines p is, IsLine raw := by
  have hbegin : ∀ raw ∈ [titleLine p, ".data_start".toList], IsLine raw := by
    rw [List.forall_mem_cons]
    exact ⟨isLine_titleLine h, by decide⟩
  have hbetween : ∀ raw ∈ [".data_end".toList, [], ".code_start".toList], IsLine raw := by decide
  have hend : ∀ raw ∈ [".code_end".toList], IsLine raw := by decide
  have hblocks : ∀ raw ∈ is.flatMap (blockLines p), IsLine raw := by
    rw [List.forall_mem_flatMap]
    exact fun i _ => isLine_blockLines h i
  simp only [listingLines, List.forall_mem_append]
  exact ⟨⟨⟨⟨hbegin, isLine_dataBody h⟩, hbetween⟩, hblocks⟩, hend⟩

/-- The lines of a listing are read as they were written. -/
theorem lines_of_disassemble (h : Listable p) (ht : disassemble p = .ok text) :
    ∃ is, p.instructions = .ok is ∧ Text.lines text.toList = listingLines p is := by
  obtain ⟨is, his, ht⟩ := bind_eq_ok.1 ht
  cases ht
  refine ⟨is, his, ?_⟩
  rw [Text.toList_join_lines, ← Text.lines_flatMap (isLine_of_mem_listingLines h is)]
  congr 2
  simp only [List.map_append, toList_dataLines, toList_codeLines]
  unfold listingLines titleLine
  simp [toString]

/-! ### One statement a line -/

/-- A line makes a statement. -/
def Reads (r : Region) (raw : List Char) (s : Statement) : Prop :=
  statement? r raw = .ok (some s)

/-- A line that can be read makes a statement that stays in the region. -/
def Stays (r : Region) (raw : List Char) : Prop :=
  ∀ o, statement? r raw = .ok o → ∃ s, o = some s ∧ r.after s = r

/-- Lines that stay in a region are read one by one. -/
theorem statementsFrom_append_eq_ok (h : ∀ raw ∈ raws, Stays r raw) :
    statementsFrom r (raws ++ raws') = .ok ss ↔ ∃ sts ts, List.Forall₂ (Reads r) raws sts ∧
      statementsFrom r raws' = .ok ts ∧ ss = sts.map (Placed.mk r) ++ ts := by
  induction raws generalizing ss with
  | nil => simp [List.forall₂_nil_left_iff]
  | cons raw raws ih =>
    obtain ⟨hraw, hraws⟩ := List.forall_mem_cons.1 h
    rw [List.cons_append]
    constructor
    · intro hss
      obtain ⟨o, ho⟩ : ∃ o, statement? r raw = .ok o := by
        cases ho : statement? r raw with
        | error e =>
          rw [statementsFrom, ho] at hss
          cases hss
        | ok o => exact ⟨o, rfl⟩
      obtain ⟨s, rfl, hafter⟩ := hraw o ho
      rw [statementsFrom_statement ho, hafter] at hss
      obtain ⟨us, hus, rfl⟩ := map_eq_ok.1 hss
      obtain ⟨sts, ts, hsts, hts, rfl⟩ := (ih hraws).1 hus
      exact ⟨s :: sts, ts, .cons ho hsts, hts, rfl⟩
    · rintro ⟨_, ts, hsts, hts, rfl⟩
      cases hsts with
      | @cons _ s _ sts ho hsts =>
        obtain ⟨s', hs', hafter⟩ := hraw _ ho
        cases hs'
        rw [statementsFrom_statement ho, hafter, (ih hraws).2 ⟨sts, ts, hsts, hts, rfl⟩]
        rfl

/-! ### Items one by one -/

section Items

variable {α β γ : Type} {R : β → γ → Prop} {as : List α} {bs bs' : List β} {cs : List γ}

theorem forall₂_flatMap {f : α → List β} {g : α → List γ}
    (h : ∀ a ∈ as, List.Forall₂ R (f a) (g a)) :
    List.Forall₂ R (as.flatMap f) (as.flatMap g) := by
  induction as with
  | nil => exact .nil
  | cons a as ih =>
    obtain ⟨ha, has⟩ := List.forall_mem_cons.1 h
    exact List.rel_append ha (ih has)

theorem exists_append_of_forall₂ (h : List.Forall₂ R (bs ++ bs') cs) :
    ∃ cs₁ cs₂, List.Forall₂ R bs cs₁ ∧ List.Forall₂ R bs' cs₂ ∧ cs = cs₁ ++ cs₂ := by
  induction bs generalizing cs with
  | nil => exact ⟨[], cs, .nil, h, rfl⟩
  | cons b bs ih =>
    cases h with
    | cons hb h =>
      obtain ⟨cs₁, cs₂, hbs, hbs', rfl⟩ := ih h
      exact ⟨_ :: cs₁, cs₂, .cons hb hbs, hbs', rfl⟩

theorem forall_mem_of_forall₂ {P : γ → Prop} (h : List.Forall₂ R bs cs)
    (hP : ∀ b c, R b c → P c) : ∀ c ∈ cs, P c := by
  induction h with
  | nil => exact fun c hc => nomatch hc
  | cons hb _ ih => exact List.forall_mem_cons.2 ⟨hP _ _ hb, ih⟩

end Items

/-! ### The data region -/

/-- The statements of a listing, by what its regions say. -/
def listed (ds cs : List Statement) : List Placed :=
  [⟨.outside, .enter .data⟩] ++ ds.map (Placed.mk .data) ++
    [⟨.data, .enter .outside⟩, ⟨.outside, .enter .code⟩] ++ cs.map (Placed.mk .code) ++
    [⟨.code, .enter .outside⟩]

theorem reads_exportLine {s : Symbol} (hr : r ≠ .outside) (h : IsName s.name.toList)
    (hne : s.name.toList ≠ []) : Reads r (exportLine s) (.exportName s.name) := by
  have hread := statement?_export hr h hne
  rwa [String.ofList_toList] at hread

theorem stays_of_reads (h : Reads r raw s) (hs : r.after s = r) : Stays r raw := by
  intro o ho
  cases h.symm.trans ho
  exact ⟨s, rfl, hs⟩

theorem exists_sync_of_reads {e : SyncEntry} {o : Option Statement}
    (h : statement? .data (syncLine e) = .ok o) : ∃ x i, o = some (.sync x i) := by
  unfold syncLine at h
  simp only [List.append_assoc] at h
  exact exists_sync_of_statement? h

theorem exists_declare_of_reads {h : Heap} {v : Symbol} {o : Option Statement}
    (hv : IsName v.name.toList ∧ ':' ∉ v.name.toList)
    (ho : statement? .data (declarationLine h v) = .ok o) :
    ∃ type initial, o = some (.declare v.name type initial) := by
  obtain ⟨type, initial, rfl⟩ := exists_declare_of_statement? hv.1 hv.2 ho
  rw [String.ofList_toList]
  exact ⟨type, initial, rfl⟩

theorem stays_dataBody (h : Listable p) : ∀ raw ∈ dataBody p, Stays .data raw := by
  simp only [dataBody, List.forall_mem_append, List.forall_mem_map]
  refine ⟨⟨fun s hs => ?_, fun e _ o ho => ?_⟩, fun s hs o ho => ?_⟩
  · obtain ⟨hs, hexported⟩ := List.mem_filter.1 hs
    exact stays_of_reads (reads_exportLine (by decide) (h.symbols s hs).1
      (h.exportedSymbols s hs hexported)) rfl
  · obtain ⟨x, i, rfl⟩ := exists_sync_of_reads ho
    exact ⟨_, rfl, rfl⟩
  · obtain ⟨type, initial, rfl⟩ := exists_declare_of_reads (h.symbols s hs) ho
    exact ⟨_, rfl, rfl⟩

/-! ### The code region -/

/-- The statements of an entry point. -/
def entryStatements (s : Symbol) : List Statement :=
  if s.exported then [.exportName s.name, .label s.name] else [.label s.name]

/-- What the line of an instruction can be read as. A name that ends in a colon makes it a label. -/
inductive Rereads (p : Program) (i : Instruction) : Statement → Prop
  | none (ho : i.operand = none) : Rereads p i (.instruction i.opcode none)
  | operand (w : UInt32) (x : Operand) (ho : i.operand = some w)
      (hcolon : (operandText p i.opcode w).toList.getLast? ≠ some ':')
      (hx : parseOperand (operandText p i.opcode w).toList = .ok x) :
      Rereads p i (.instruction i.opcode (some x))
  | label (w : UInt32) (x : String) (ho : i.operand = some w)
      (hcolon : (operandText p i.opcode w).toList.getLast? = some ':') : Rereads p i (.label x)

theorem isPlain_of_mem_operandHex {w : UInt32} {c : Char} (h : c ∈ (Text.operandHex w).toList) :
    isPlain c = true := by
  rw [Text.toList_operandHex] at h
  obtain rfl | h := List.mem_cons.1 h
  · decide
  · obtain rfl | h := List.mem_cons.1 h
    · decide
    · have hdigit := Text.digit?_of_mem_fixedHex h
      rw [isPlain, Bool.and_eq_true, bne_iff_ne, bne_iff_ne]
      constructor <;> rintro rfl <;> exact absurd hdigit (by decide)

/-- The text of an operand has no comment and no blanks around it. -/
theorem operandText_clean (h : Listable p) (op : Opcode) (w : UInt32) :
    stripComment false (operandText p op w).toList = (operandText p op w).toList ∧
      Text.IsTrimmed (operandText p op w).toList := by
  unfold operandText
  split
  · next s hs => exact ⟨(h.isName hs).uncommented, (h.isName hs).trimmed⟩
  · refine ⟨stripComment_eq_self fun c hc => ?_, Value.isTrimmed_operandHex w⟩
    exact isPlain_of_mem_operandHex hc

theorem reads_operandLine (h : Listable p) (hi : i.operand.isSome = i.opcode.hasOperand)
    {w : UInt32} {x : Operand} (ho : i.operand = some w)
    (hcolon : (operandText p i.opcode w).toList.getLast? ≠ some ':')
    (hx : parseOperand (operandText p i.opcode w).toList = .ok x) :
    Reads .code (operandLine p i) (.instruction i.opcode (some x)) := by
  obtain ⟨hstrip, htrimmed⟩ := operandText_clean h i.opcode w
  rw [ho] at hi
  rw [Reads, operandLine, ho]
  dsimp only
  rw [statement?_instruction hi.symm hstrip htrimmed hcolon, hx]
  rfl

theorem rereads_of_statement? (h : Listable p) (hi : i.operand.isSome = i.opcode.hasOperand)
    {o : Option Statement} (ho : statement? .code (operandLine p i) = .ok o) :
    ∃ s, o = some s ∧ Rereads p i s := by
  unfold operandLine at ho
  cases hw : i.operand with
  | none =>
    rw [hw] at ho hi
    rw [statement?_instruction_none hi.symm] at ho
    cases ho
    exact ⟨_, rfl, .none hw⟩
  | some w =>
    rw [hw] at ho hi
    dsimp only at ho
    obtain ⟨hstrip, htrimmed⟩ := operandText_clean h i.opcode w
    by_cases hcolon : (operandText p i.opcode w).toList.getLast? = some ':'
    · obtain ⟨x, hx⟩ := exists_label_of_colon hstrip hcolon
      rw [hx] at ho
      cases ho
      exact ⟨_, rfl, .label w x hw hcolon⟩
    · rw [statement?_instruction hi.symm hstrip htrimmed hcolon] at ho
      obtain ⟨x, hx, rfl⟩ := map_eq_ok.1 ho
      exact ⟨_, rfl, .operand w x hw hcolon hx⟩

theorem forall₂_entries (h : Listable p) (i : Instruction) :
    List.Forall₂ (Reads .code) ((entriesAt p i).flatMap entryLines)
      ((entriesAt p i).flatMap entryStatements) := by
  have hentry : ∀ s ∈ entriesAt p i,
      List.Forall₂ (Reads .code) (entryLines s) (entryStatements s) := by
    intro s hs
    have hs := List.mem_of_mem_filter hs
    have hname := h.entryPoints s hs
    have hlabel : Reads .code (labelLine s) (.label s.name) := by
      unfold Reads labelLine
      rw [statement?_label hname, String.ofList_toList]
    unfold entryLines entryStatements
    split
    · next hexported =>
      exact .cons (reads_exportLine (by decide) hname (h.exportedEntries s hs hexported))
        (.cons hlabel .nil)
    · exact .cons hlabel .nil
  exact forall₂_flatMap hentry

end EventVm.Assembly
