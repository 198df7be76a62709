import EventVm.Proofs.Assembly.Rereading
import Mathlib.Data.List.Nodup

/-!
# Reassembling a listing

What the listing of an assembled program is assembled to, if it is accepted. The variables stand
where they stood (`Compiles.address_eq_of_name_eq`); the code is the same if every operand that is
listed by name is read as what it is (`code_eq_of_namesRead`), and only then
(`namesRead_of_code_eq`). Names are taken as they are, and some are read as something else: a name
of digits as a number, one that begins with a quote as a text, one that ends in a colon as the end
of a label.
-/

namespace EventVm.Assembly

open Instruction (decodeAll totalSize)

variable {name name' source text : String} {p p' : Program} {is is' : List Instruction}
  {ss : List Placed} {ds cs : List Statement} {s s' : Symbol}

/-! ### The listing of an assembled program -/

/-- An assembled program can be listed, unless its name makes more than one line. -/
theorem Compiles.listable (hc : Compiles name ss is p) (hss : statements source = .ok ss)
    (hname : '\n' ∉ p.name.toList) (hverify : p.verify = .ok ()) : Listable p where
  name := hname
  instructionSet := hc.instructionSet
  version := hc.version
  symbols _ hs := isName_of_mem_symbols hss hc hs
  entryPoints _ hs := isName_of_mem_entryPoints hss hc hs
  exportedSymbols _ hs := ne_empty_of_exported_symbol hss hc hs
  exportedEntries _ hs := ne_empty_of_exported_entryPoint hss hc hs
  synced := (Program.tables_of_verifyStructure (Program.verifyStructure_of_verify hverify)).2

/-! ### Variables -/

theorem Compiles.names_isPrefix (hc : Compiles name ss is p) :
    (declarationsOf ss).map Declaration.name <+: p.symbols.names := by
  rw [SymbolTable.names, hc.symbols, List.map_append, names_symbolsOf]
  exact List.prefix_append ..

/-- Variables have the slots in order. -/
theorem Compiles.address_eq (hc : Compiles name ss is p) {n : Nat}
    (h : p.symbols.symbols[n]? = some s) : s.address = UInt32.ofNat n := by
  have hlength : (symbolsOf (exportsOf .data ss) (declarationsOf ss)).length =
      (declarationsOf ss).length := List.length_mapIdx
  rw [hc.symbols] at h
  obtain hlt | hle := Nat.lt_or_ge n (declarationsOf ss).length
  · rw [List.getElem?_append_left (by omega), symbolsOf, List.getElem?_mapIdx] at h
    obtain ⟨v, -, rfl⟩ := Option.map_eq_some_iff.1 h
    rfl
  · rw [List.getElem?_append_right (by omega), textSymbols, List.getElem?_mapIdx] at h
    obtain ⟨t, -, rfl⟩ := Option.map_eq_some_iff.1 h
    have hindex : (declarationsOf ss).length +
        (n - (symbolsOf (exportsOf .data ss) (declarationsOf ss)).length) = n := by omega
    exact congrArg UInt32.ofNat hindex

theorem Compiles.heap_size (hc : Compiles name ss is p) : p.heap.size = p.symbols.size := by
  simp [Heap.size, SymbolTable.size, hc.slots, hc.symbols, symbolsOf, textSymbols]

/-- Where the first variables of two programs have the same names, they have the same addresses. -/
theorem Compiles.address_eq_of_name_eq {ss' : List Placed} (hc : Compiles name ss is p)
    (hc' : Compiles name' ss' is' p') (hnames : p.symbols.names <+: p'.symbols.names)
    (hs : s ∈ p.symbols.symbols) (hs' : s' ∈ p'.symbols.symbols) (h : s'.name = s.name) :
    s'.address = s.address := by
  obtain ⟨n, hn⟩ := List.mem_iff_getElem?.1 hs
  obtain ⟨n', hn'⟩ := List.mem_iff_getElem?.1 hs'
  have hname : p'.symbols.names[n]? = some s.name := by
    obtain ⟨more, hmore⟩ := hnames
    have hn : p.symbols.names[n]? = some s.name := by
      rw [SymbolTable.names, List.getElem?_map, hn]
      rfl
    rw [← hmore, List.getElem?_append_left (List.getElem?_eq_some_iff.1 hn).1, hn]
  have hname' : p'.symbols.names[n']? = some s.name := by
    rw [SymbolTable.names, List.getElem?_map, hn', Option.map_some, h]
  have hindex : n' = n := by
    have hlt := (List.getElem?_eq_some_iff.1 hname').1
    exact (List.getElem?_inj hlt p'.symbols.names_nodup).1 (hname'.trans hname.symm)
  rw [hc.address_eq hn, hc'.address_eq hn', hindex]

/-! ### Labels -/

theorem mem_listedMarks {k : Nat} {m : Mark} (h : m ∈ listedMarks p k is) :
    ∃ n i e, is[n]? = some i ∧ e ∈ entriesAt p i ∧ m = ⟨e.name, k + n⟩ := by
  obtain ⟨⟨i, j⟩, hi, hm⟩ := List.mem_flatMap.1 h
  obtain ⟨e, he, rfl⟩ := List.mem_map.1 hm
  obtain ⟨hle, hi⟩ := List.mem_zipIdx_iff_le_and_getElem?_sub.1 hi
  exact ⟨j - k, i, e, hi, he, by congr 1; dsimp only at hle; omega⟩

/-- The labels of a listing stand for the entry points that they were listed for. -/
theorem offset_of_mem_listedMarks {l : Label} (his : decodeAll p.code = .ok is)
    (his' : decodeAll p'.code = .ok is')
    (hsizes : ∀ k, totalSize (is'.take k) = totalSize (is.take k))
    (hs : s ∈ p.entryPoints.symbols) (hl : l ∈ (listedMarks p 0 is).map (Mark.place p' is'))
    (h : l.name = s.name) : l.offset = s.address := by
  obtain ⟨m, hm, rfl⟩ := List.mem_map.1 hl
  obtain ⟨n, i, e, hi, he, rfl⟩ := mem_listedMarks hm
  obtain ⟨he, haddress⟩ := List.mem_filter.1 he
  rw [Mark.place] at h ⊢
  cases List.inj_on_of_nodup_map p.entryPoints.names_nodup he hs h
  dsimp only
  rw [offsetAt_eq his', hsizes, Nat.zero_add, beq_iff_eq.1 haddress,
    Instruction.offset_of_decodeAll his hi]

/-! ### Operands -/

/-- Whether a name, read as an operand, stands for a word: itself or as a number. -/
structure NameReadsAs (name : String) (w : UInt32) : Prop where
  colon : name.toList.getLast? ≠ some ':'
  operand : parseOperand name.toList = .ok (.name name) ∨
    parseOperand name.toList = .ok (.number w)

/-- Whether every operand that is listed by name is read as what it is. -/
def NamesRead (p : Program) (is : List Instruction) : Prop :=
  ∀ i ∈ is, ∀ w, i.operand = some w →
    ∀ s, operandSymbol? p i.opcode w = some s → NameReadsAs s.name w

theorem name_of_parseOperand {cs : List Char} {y : String} (h : parseOperand cs = .ok (.name y)) :
    y = String.ofList cs := by
  unfold parseOperand at h
  split at h
  · split at h <;> cases h
  · split at h
    · split at h <;> cases h
    · cases h
      rfl
  · cases h
    rfl

theorem parseOperand_operandHex (w : UInt32) :
    parseOperand (Text.operandHex w).toList = .ok (.number w) := by
  have hread := Value.ofLiteral?_operandHex w
  rw [Text.toList_operandHex] at hread ⊢
  unfold parseOperand
  simp only [hread]
  rfl

theorem getLast?_operandHex (w : UInt32) : (Text.operandHex w).toList.getLast? ≠ some ':' := by
  intro h
  have hmem := List.mem_of_getLast? h
  rw [Text.toList_operandHex] at hmem
  obtain h | hmem := List.mem_cons.1 hmem
  · exact absurd h (by decide)
  · obtain h | hmem := List.mem_cons.1 hmem
    · exact absurd h (by decide)
    · exact absurd (Text.digit?_of_mem_fixedHex hmem) (by decide)

/-- What is listed for an operand is read as the word or as the name of its symbol. -/
theorem NamesRead.operand_cases (h : NamesRead p is) {i : Instruction} (hi : i ∈ is) {w : UInt32}
    (hw : i.operand = some w) :
    parseOperand (operandText p i.opcode w).toList = .ok (.number w) ∨
      ∃ s, operandSymbol? p i.opcode w = some s ∧
        parseOperand (operandText p i.opcode w).toList = .ok (.name s.name) := by
  unfold operandText
  cases hs : operandSymbol? p i.opcode w with
  | none => exact .inl (parseOperand_operandHex w)
  | some s =>
    obtain ⟨-, hname | hnumber⟩ := h i hi w hw s hs
    · exact .inr ⟨s, rfl, hname⟩
    · exact .inl hnumber

theorem NamesRead.listedOperand (h : NamesRead p is) {i : Instruction} (hi : i ∈ is) {w : UInt32}
    (hw : i.operand = some w) : listedOperand p i.opcode w = .number w ∨
      ∃ s, operandSymbol? p i.opcode w = some s ∧ listedOperand p i.opcode w = .name s.name := by
  unfold Assembly.listedOperand
  obtain hnumber | ⟨s, hs, hname⟩ := h.operand_cases hi hw
  · exact .inl (by simp only [hnumber])
  · exact .inr ⟨s, hs, by simp only [hname]⟩

theorem NamesRead.parseOperand (h : NamesRead p is) {i : Instruction} (hi : i ∈ is) {w : UInt32}
    (hw : i.operand = some w) : parseOperand (operandText p i.opcode w).toList =
      .ok (Assembly.listedOperand p i.opcode w) := by
  unfold Assembly.listedOperand
  obtain hnumber | ⟨s, -, hname⟩ := h.operand_cases hi hw
  · simp only [hnumber]
  · simp only [hname]

theorem NamesRead.not_endsInColon (h : NamesRead p is) {i : Instruction} (hi : i ∈ is) :
    ¬ EndsInColon p i := by
  rintro ⟨w, hw, hcolon⟩
  unfold operandText at hcolon
  cases hs : operandSymbol? p i.opcode w with
  | none =>
    rw [hs] at hcolon
    exact getLast?_operandHex w hcolon
  | some s =>
    rw [hs] at hcolon
    exact (h i hi w hw s hs).colon hcolon

/-- A listed operand denotes the word, where labels stand for the entry points and variables have
the addresses that they were listed for. -/
theorem NamesRead.eq_of_denotes (h : NamesRead p is) {i : Instruction} (hi : i ∈ is)
    {labels : List Label} {symbols : List Symbol} {first : Nat} {texts : List String}
    {w' : Option UInt32}
    (hlabels : ∀ l ∈ labels, ∀ s ∈ p.entryPoints.symbols, l.name = s.name → l.offset = s.address)
    (hsymbols : ∀ s' ∈ symbols, ∀ s ∈ p.symbols.symbols, s'.name = s.name → s'.address = s.address)
    (hd : Denotes labels symbols first texts i.opcode
      (i.operand.map (Assembly.listedOperand p i.opcode)) w') : w' = i.operand := by
  cases hw : i.operand with
  | none =>
    rw [hw] at hd
    cases hd
    rfl
  | some w =>
    rw [hw, Option.map_some] at hd
    obtain hnumber | ⟨s, hs, hname⟩ := h.listedOperand hi hw
    · rw [hnumber] at hd
      cases hd
      rfl
    · rw [hname] at hd
      obtain ⟨rfl, hsymbol⟩ := mem_of_operandSymbol? hs
      generalize hx : some (Operand.name s.name) = x at hd
      cases hd with
      | none => cases hx
      | number n => cases hx
      | label l hop hl =>
        obtain ⟨-, hs⟩ | ⟨hop', -⟩ := hsymbol
        · injection hx with hx
          injection hx with hx
          exact congrArg some (hlabels l hl s hs hx.symm)
        · rw [hop] at hop'
          cases hop'
      | symbol s' hop hs' =>
        obtain ⟨hop', -⟩ | ⟨-, hs⟩ := hsymbol
        · rw [hop] at hop'
          cases hop'
        · injection hx with hx
          injection hx with hx
          exact congrArg some (hsymbols s' hs' s hs hx.symm)
      | text t hop ht => cases hx

/-- The address that stands for a text in quotes is none of the addresses in front of `first`. -/
theorem Denotes.text_le {labels : List Label} {symbols : List Symbol} {first : Nat}
    {texts : List String} {op : Opcode} {t : String} {w : UInt32}
    (h : Denotes labels symbols first texts op (some (.string t)) (some w))
    (hsize : first + texts.length ≤ 2 ^ 32) : op.takesHeapAddress = true ∧ first ≤ w.toNat := by
  cases h with
  | text _ hop ht =>
    have hindex := List.idxOf_lt_length_of_mem ht
    rw [UInt32.toNat_ofNat_of_lt' (by rw [UInt32.size]; omega)]
    refine ⟨?_, Nat.le_add_right ..⟩
    obtain rfl | rfl := hop <;> rfl

theorem flatMap_encode_eq
    (h : List.Forall₂ (fun i i' : Instruction => i'.encode = i.encode) is is') :
    is'.flatMap Instruction.encode = is.flatMap Instruction.encode := by
  induction h with
  | nil => rfl
  | cons hi _ ih => rw [List.flatMap_cons, List.flatMap_cons, hi, ih]

/-! ### The code -/

section Code

variable {ss' : List Placed} (hc : Compiles name ss is p) (hl : Listable p)
  (hds : List.Forall₂ (Reads .data) (dataBody p) ds) (hcs : Rereading p is cs)
  (hc' : Compiles name' (listed ds cs) is' p')

include hc hl hds hcs hc'

/-- If the names are read as what they stand for, the listing is assembled to the same code. -/
theorem code_eq_of_namesRead (h : NamesRead p is) : p'.code = p.code := by
  obtain ⟨rfl, -⟩ := hcs.eq_codeStatements fun i => h.not_endsInColon
  have hnames : p.symbols.names <+: p'.symbols.names := by
    rw [← names_of_listed hl hds hcs]
    exact hc'.names_isPrefix
  have hinstructions := hc'.instructions
  rw [instructionsOf_listed hl hds, instructionsOf_code, marksOf_listed hl hds,
    marksFrom_code] at hinstructions
  have hsizes : ∀ k, totalSize (is'.take k) = totalSize (is.take k) := by
    intro k
    rw [← codeSize_eq_totalSize (List.forall₂_take k hinstructions), ← List.map_take, codeSize,
      List.map_map]
    rfl
  rw [List.forall₂_map_left_iff] at hinstructions
  have hmem := (List.forall₂_and_left _ _).2 ⟨fun i (hi : i ∈ is) => hi, hinstructions⟩
  have hencode : List.Forall₂ (fun i i' => i'.encode = i.encode) is is' := by
    refine hmem.imp fun i i' hi => ?_
    obtain ⟨hi, hop, hdenotes⟩ := hi
    have hoperand := h.eq_of_denotes hi
      (fun l hl s hs => offset_of_mem_listedMarks hc.listed hc'.listed hsizes hs hl)
      (fun s' hs' s hs => hc.address_eq_of_name_eq hc' hnames hs hs') hdenotes
    rw [Instruction.encode, hop, hoperand]
    rfl
  rw [← Instruction.encode_of_decodeFrom hc'.listed, ← Instruction.encode_of_decodeFrom hc.listed,
    flatMap_encode_eq hencode]

/-- If the listing is assembled to the same code, the names are read as what they stand for. -/
theorem namesRead_of_code_eq (hv : p.Verified is) (hsize : p'.heap.size ≤ 2 ^ 32)
    (h : p'.code = p.code) : NamesRead p is := by
  have his : is' = is := by
    have hlisted := hc'.listed
    rw [h, hc.listed] at hlisted
    exact (Except.ok.inj hlisted).symm
  subst his
  have hlength := hc'.instructions.length_eq
  rw [instructionsOf_listed hl hds] at hlength
  have hcolon := hcs.length_instructionsOf.2 hlength
  obtain ⟨rfl, hparse⟩ := hcs.eq_codeStatements hcolon
  have hinstructions := hc'.instructions
  rw [instructionsOf_listed hl hds, instructionsOf_code, List.forall₂_map_left_iff,
    List.forall₂_same] at hinstructions
  intro i hi w hw s hs
  have hparse := hparse i hi w hw
  have htext : operandText p i.opcode w = s.name := by
    rw [operandText, hs]
  refine ⟨fun hlast => hcolon i hi ⟨w, hw, by rwa [htext]⟩, ?_⟩
  rw [htext] at hparse
  obtain ⟨-, hd⟩ := hinstructions i hi
  change Denotes _ _ _ _ i.opcode (i.operand.map (listedOperand p i.opcode)) _ at hd
  rw [hw, Option.map_some] at hd
  generalize listedOperand p i.opcode w = x at hparse hd
  cases x with
  | number n =>
    cases hd
    exact .inr hparse
  | name y => exact .inl (by rw [hparse, name_of_parseOperand hparse, String.ofList_toList])
  | string t =>
    -- the slot of a text in quotes would be one of those behind the variables of the program
    have hslots := congrArg List.length hc'.slots
    rw [instructionsOf_listed hl hds, instructionsOf_code, List.length_append, List.length_map,
      List.length_map, ← Heap.size] at hslots
    obtain ⟨hop, hfirst⟩ := hd.text_le (by omega)
    have hcontains := hv.heapOperand hi hop
    have hvariables := congrArg List.length (names_of_listed hl hds hcs)
    rw [List.length_map, SymbolTable.names, List.length_map, ← SymbolTable.size, ← hc.heap_size]
      at hvariables
    rw [hw, Option.getD_some, Heap.contains, decide_eq_true_eq] at hcontains
    omega

end Code

/-- **Reassembling a listing keeps the code if every operand that is listed by name is read as what
it is**, and, as long as the heap fits its addresses, only then. -/
theorem reassemble_code (hname : '\n' ∉ p.name.toList) (h : assemble name source = .ok p)
    (hverify : p.verify = .ok ()) (hlist : disassemble p = .ok text)
    (h' : assemble p.name text = .ok p') :
    ∃ is, decodeAll p.code = .ok is ∧ (NamesRead p is → p'.code = p.code) ∧
      (p'.heap.size ≤ 2 ^ 32 → p'.code = p.code → NamesRead p is) := by
  obtain ⟨ss, is, hss, hc⟩ := exists_compiles h
  have hl := hc.listable hss hname hverify
  obtain ⟨is₀, his₀, hlines⟩ := lines_of_disassemble hl hlist
  cases hc.listed.symm.trans (mapError_eq_ok.1 his₀)
  have hoperands : ∀ i ∈ is, i.operand.isSome = i.opcode.hasOperand := fun i hi =>
    Instruction.operand_isSome_of_decodeFrom hc.listed hi
  obtain ⟨ss', is', hss', hc'⟩ := exists_compiles h'
  obtain ⟨ds, cs, hds, hcs, rfl⟩ := (statements_listing hl hoperands hlines).1 hss'
  have hcs := rereading_of_forall₂ hl hoperands hcs
  have hv := Program.verified_of_verifyStructure (Program.verifyStructure_of_verify hverify) his₀
  exact ⟨is, hc.listed, code_eq_of_namesRead hc hl hds hcs hc',
    namesRead_of_code_eq hc hl hds hcs hc' hv⟩

/-- A program, its listing and what the listing is assembled to. -/
def relisted? (name source : String) : Option (Program × String × Program) := do
  let p ← (assemble name source).toOption
  p.verify.toOption
  let text ← (disassemble p).toOption
  let p' ← (assemble p.name text).toOption
  return (p, text, p')

theorem relisted?_eq_some {r : Program × String × Program} (h : relisted? name source = some r) :
    assemble name source = .ok r.1 ∧ r.1.verify = .ok () ∧ disassemble r.1 = .ok r.2.1 ∧
      assemble r.1.name r.2.1 = .ok r.2.2 := by
  obtain ⟨p, hp, h⟩ := Option.bind_eq_some_iff.1 h
  obtain ⟨_, hverify, h⟩ := Option.bind_eq_some_iff.1 h
  obtain ⟨text, htext, h⟩ := Option.bind_eq_some_iff.1 h
  obtain ⟨p', hp', h⟩ := Option.bind_eq_some_iff.1 h
  cases h
  exact ⟨toOption_eq_some.1 hp, toOption_eq_some.1 hverify, toOption_eq_some.1 htext,
    toOption_eq_some.1 hp'⟩

/-- A jump to a label is listed with the name of the label, which is read as a name. -/
theorem reassemble_code_loop :
    ∃ p text p' is, assemble "loop" ".code_start\na:\nJUMP, 0\n.code_end" = .ok p ∧
      p.verify = .ok () ∧ disassemble p = .ok text ∧ assemble p.name text = .ok p' ∧
      decodeAll p.code = .ok is ∧ NamesRead p is ∧ p'.code = p.code := by
  have hname : '\n' ∉ "loop".toList := by decide
  have hrun : (relisted? "loop" ".code_start\na:\nJUMP, 0\n.code_end").any
      (fun r => r.2.2.code == r.1.code && decide (r.2.2.heap.size ≤ 2 ^ 32)) = true := by
    decide +kernel
  obtain ⟨⟨p, text, p'⟩, hr, hsame⟩ := (Option.any_eq_true _ _).1 hrun
  obtain ⟨hcode, hsize⟩ := (Bool.and_eq_true _ _).mp hsame
  obtain ⟨hp, hverify, htext, hp'⟩ := relisted?_eq_some hr
  obtain ⟨ss, is, -, hc⟩ := exists_compiles hp
  obtain ⟨is, his, hread, hconverse⟩ :=
    reassemble_code (hc.name_eq.symm ▸ hname) hp hverify htext hp'
  have hnames := hconverse (of_decide_eq_true hsize) (beq_iff_eq.1 hcode)
  exact ⟨p, text, p', is, hp, hverify, htext, hp', his, hnames, hread hnames⟩

/-- A label that looks like a number is listed as the target of jumps to it, and read as the number:
the jump to offset 4 becomes one to offset 0. -/
theorem reassemble_changes_code :
    ∃ p text p', assemble "digit" ".code_start\nNOP\n0:\nJUMP, 4\n.code_end" = .ok p ∧
      p.verify = .ok () ∧ disassemble p = .ok text ∧ assemble p.name text = .ok p' ∧
      p'.code ≠ p.code := by
  have hrun : (relisted? "digit" ".code_start\nNOP\n0:\nJUMP, 4\n.code_end").any
      (fun r => r.2.2.code != r.1.code) = true := by decide +kernel
  obtain ⟨⟨p, text, p'⟩, hr, hcode⟩ := (Option.any_eq_true _ _).1 hrun
  obtain ⟨hp, hverify, htext, hp'⟩ := relisted?_eq_some hr
  exact ⟨p, text, p', hp, hverify, htext, hp', bne_iff_ne.1 hcode⟩

end EventVm.Assembly
