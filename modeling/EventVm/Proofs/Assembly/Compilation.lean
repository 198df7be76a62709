import EventVm.Proofs.Assembly.Emission

/-!
# Assembled programs

What a source that can be assembled becomes (`assemble_correct`): its instructions are those of the
program, in order, its declarations are the slots of the heap, and its labels the entry points. A
source whose names are declared once, and used only if they are declared, can be assembled, unless a
variable has the name of a text in quotes (`assemble_outcome`, `exists_assemble`).
-/

namespace EventVm.Assembly

open Instruction (decodeAll totalSize)

/-- The code offset of an instruction by its index; behind the last one, the length of the code. -/
def offsetAt (p : Program) (is : List Instruction) (index : Nat) : UInt32 :=
  match is[index]? with
  | some i => i.offset
  | none => UInt32.ofNat p.code.length

/-- The label of a mark in a program. -/
def Mark.place (p : Program) (is : List Instruction) (m : Mark) : Label :=
  ⟨m.name, offsetAt p is m.index⟩

/-- The program with the instructions `is` is what the statements describe. -/
structure Compiles (name : String) (ss : List Placed) (is : List Instruction) (p : Program) :
    Prop where
  name_eq : p.name = name
  instructionSet : p.instructionSet = instructionSetName
  version : p.version = instructionSetVersion
  listed : decodeAll p.code = .ok is
  instructions : List.Forall₂ (Becomes ((marksOf ss).map (Mark.place p is)) p.symbols.symbols
    (declarationsOf ss).length (textsOf (instructionsOf ss))) (instructionsOf ss) is
  slots : p.heap.slots = (declarationsOf ss).map Declaration.slot ++
    (textsOf (instructionsOf ss)).map Build.signatureSlot
  symbols : p.symbols.symbols = symbolsOf (exportsOf .data ss) (declarationsOf ss) ++
    textSymbols (declarationsOf ss).length (textsOf (instructionsOf ss))
  entryPoints : p.entryPoints.symbols =
    ((marksOf ss).map (Mark.place p is)).map (entryOf (exportsOf .code ss))
  sync : p.sync = (syncsOf ss).foldl (fun t x => t.add x.1 x.2) .empty

variable {name source : String} {ss : List Placed} {is : List Instruction} {p : Program}

/-! ### Parts of the draft -/

/-- The instructions of a source have operands exactly if their opcodes take one. -/
theorem operands_of_statementsFrom {r : Region} {raws : List (List Char)}
    (h : statementsFrom r raws = .ok ss) :
    ∀ x ∈ instructionsOf ss, x.operand.isSome = x.opcode.hasOperand := by
  intro x hx
  obtain ⟨s, hs, hx⟩ := List.mem_filterMap.1 hx
  obtain ⟨raw, -, hsays⟩ := says_of_statementsFrom h s hs
  split at hx
  · next op operand hstatement =>
    cases hx
    rw [hstatement] at hsays
    cases hsays with
    | instruction _ _ _ hoperand => exact hoperand
  · cases hx

theorem codeSize_eq_totalSize {labels : List Label} {symbols : List Symbol} {first : Nat}
    {texts : List String} {xs : List SourceInstruction}
    (h : List.Forall₂ (Becomes labels symbols first texts) xs is) :
    codeSize xs = totalSize is := by
  induction h with
  | nil => rfl
  | cons hx _ ih =>
    unfold codeSize totalSize at ih ⊢
    rw [List.map_cons, List.map_cons, List.sum_cons, List.sum_cons, ih, hx.1]

/-- The instructions in front of an offset add up to it. -/
theorem offsetAt_eq (his : decodeAll p.code = .ok is) (k : Nat) :
    offsetAt p is k = UInt32.ofNat (totalSize (is.take k)) := by
  unfold offsetAt
  split
  · next i hi => exact Instruction.offset_of_decodeAll his hi
  · next hi =>
    rw [List.take_of_length_le (List.getElem?_eq_none_iff.1 hi),
      Instruction.length_of_decodeFrom his]

/-- In the code, a label stands where the draft has it. -/
theorem place_eq_label {labels : List Label} {symbols : List Symbol} {first : Nat}
    {texts : List String} {xs : List SourceInstruction} (his : decodeAll p.code = .ok is)
    (hxs : List.Forall₂ (Becomes labels symbols first texts) xs is) (m : Mark) :
    m.place p is = m.label xs := by
  have hsize : codeSize (xs.take m.index) = totalSize (is.take m.index) :=
    codeSize_eq_totalSize (List.forall₂_take m.index hxs)
  rw [Mark.place, offsetAt_eq his, ← hsize, Mark.label]

/-- A builder in which exports, synced variables and labels have been settled. -/
structure Settled (name : String) (ss : List Placed) (b : Builder) : Prop where
  program : ∃ symbols entryPoints : SymbolTable,
    symbols.symbols = symbolsOf (exportsOf .data ss) (declarationsOf ss) ∧
    entryPoints.symbols =
      ((marksOf ss).map (Mark.label (instructionsOf ss))).map (entryOf (exportsOf .code ss)) ∧
    b.program = { Program.empty name with
      heap := ⟨(declarationsOf ss).map Declaration.slot⟩
      symbols := symbols
      entryPoints := entryPoints
      sync := (syncsOf ss).foldl (fun t x => t.add x.1 x.2) .empty }
  signatures : b.signatures = []
  code : b.code = []

theorem foldl_markExported {t : SymbolTable} {exports : List String} {vs : List Declaration}
    (names : List String) (h : t.symbols = symbolsOf exports vs) :
    (names.foldl SymbolTable.markExported t).symbols = symbolsOf (exports ++ names) vs := by
  induction names generalizing t exports with
  | nil => rwa [List.append_nil]
  | cons x xs ih =>
    rw [List.foldl_cons, ih (markExported_symbolsOf h), List.append_assoc]
    rfl

theorem Drafted.settled {d : Draft} {b₁ b₂ b₃ : Builder} (h : Drafted name ss d)
    (hexports : d.settleExports d.builder = .ok b₁) (hsyncs : d.settleSyncs b₁ = .ok b₂)
    (hlabels : d.settleLabels b₂ = .ok b₃) : Settled name ss b₃ := by
  obtain ⟨symbols, hsymbols, hbuilder⟩ := h.builder
  rw [hbuilder] at hexports
  obtain ⟨-, hb₁⟩ := settleExports_eq_ok.1 hexports
  rw [hb₁] at hsyncs
  obtain ⟨-, hb₂⟩ := settleSyncs_eq_ok.1 hsyncs
  rw [hb₂] at hlabels
  obtain ⟨entryPoints, hentries, hb₃⟩ := settleLabels_eq_ok.1 hlabels
  have hexported := foldl_markExported (d.dataExports.map Located.item) hsymbols
  rw [List.foldl_map, h.dataExports] at hexported
  have hsynced := congrArg (List.foldl (fun t x => SyncTable.add t x.1 x.2) .empty) h.syncs
  rw [List.foldl_map] at hsynced
  rw [h.labels, h.codeExports] at hentries
  subst hb₃
  refine ⟨⟨_, entryPoints, hexported, hentries, ?_⟩, rfl, rfl⟩
  rw [← hsynced]
  rfl

/-! ### Soundness -/

/-- When the instructions have been emitted on top of what was settled, the program is built. -/
theorem Settled.exists_compiles {base b : Builder} (hsettled : Settled name ss base)
    (hemitted : Emitted ((marksOf ss).map (Mark.label (instructionsOf ss))) base
      (instructionsOf ss) b) : ∃ is, Compiles name ss is b.build := by
  obtain ⟨symbols, entryPoints, hsymbols, hentries, hbase⟩ := hsettled.program
  obtain ⟨⟨⟨symbols', hsymbols', hprogram⟩, -⟩, is, his, hbecomes⟩ := hemitted
  have hfirst : base.program.heap.size = (declarationsOf ss).length := by
    simp [hbase, Heap.size]
  rw [hbase] at hprogram
  rw [hbase] at hsymbols'
  rw [hfirst] at hbecomes
  dsimp only at hprogram hsymbols'
  have hplace : (marksOf ss).map (Mark.place b.build is) =
      (marksOf ss).map (Mark.label (instructionsOf ss)) :=
    List.map_congr_left fun m _ => place_eq_label his hbecomes m
  refine ⟨is, ?_⟩
  constructor
  case listed => exact his
  case instructions => rwa [hplace]
  case symbols => simp [Builder.build, hprogram, hsymbols', hsymbols, Heap.size]
  case entryPoints =>
    rw [hplace]
    simp [Builder.build, hprogram, hentries]
  all_goals simp [Builder.build, hprogram, Program.empty]

theorem exists_compiles (h : assemble name source = .ok p) :
    ∃ ss is, statements source = .ok ss ∧ Compiles name ss is p := by
  obtain ⟨d, hd, h⟩ := bind_eq_ok.1 h
  obtain ⟨ss, hss, hdrafted⟩ := (Drafted.new name).read hd
  rw [List.nil_append] at hdrafted
  obtain ⟨b₁, hexports, h⟩ := bind_eq_ok.1 h
  obtain ⟨b₂, hsyncs, h⟩ := bind_eq_ok.1 h
  obtain ⟨_, -, h⟩ := bind_eq_ok.1 h
  obtain ⟨base, hlabels, h⟩ := bind_eq_ok.1 h
  obtain ⟨b, hemit, h⟩ := bind_eq_ok.1 h
  cases h
  have hsettled := hdrafted.settled hexports hsyncs hlabels
  have hemitted : Emitted ((marksOf ss).map (Mark.label (instructionsOf ss))) base
      (d.instructions.map Located.item) b := by
    refine foldlM_induct (motive := fun xs b => Emitted _ base (xs.map Located.item) b) hemit
      (Emitted.start _ hsettled.signatures hsettled.code) ?_
    intro xs x b b' hx hxs hb'
    have hoperand := operands_of_statementsFrom hss x.item
      (hdrafted.instructions ▸ List.mem_map_of_mem hx)
    rw [List.map_append, List.map_singleton]
    exact hxs.emit hdrafted.labels hoperand hb'
  rw [hdrafted.instructions] at hemitted
  obtain ⟨is, hc⟩ := hsettled.exists_compiles hemitted
  exact ⟨ss, is, hss, hc⟩

/-- Where a label stands among instructions whose code fits the offsets. -/
theorem Compiles.toNat_offsetAt (h : Compiles name ss is p) (hsize : p.code.length < 2 ^ 32)
    {k : Nat} : (offsetAt p is k).toNat = totalSize (is.take k) := by
  have hlength := Instruction.length_of_decodeFrom h.listed
  have htake : totalSize (is.take k) ≤ totalSize (is.take is.length) := by
    obtain hle | hlt := le_or_gt k is.length
    · exact Instruction.totalSize_take_mono hle
    · rw [List.take_of_length_le hlt.le, List.take_length]
  rw [List.take_length] at htake
  rw [offsetAt_eq h.listed, UInt32.toNat_ofNat_of_lt']
  have hbound : UInt32.size = 2 ^ 32 := rfl
  omega

/-- If the heap fits its addresses, the slot of a text in quotes has the address that stands for
the text. -/
theorem Compiles.slot?_text (h : Compiles name ss is p) (hsize : p.heap.size ≤ 2 ^ 32) {t : String}
    (ht : t ∈ textsOf (instructionsOf ss)) :
    p.heap.slot? (UInt32.ofNat
        ((declarationsOf ss).length + (textsOf (instructionsOf ss)).idxOf t)) =
      some (Build.signatureSlot t) := by
  have hindex := List.idxOf_lt_length_of_mem ht
  have hslots := congrArg List.length h.slots
  simp only [List.length_append, List.length_map] at hslots
  unfold Heap.size at hsize
  rw [Heap.slot?, UInt32.toNat_ofNat_of_lt', h.slots, List.getElem?_append_right (by simp)]
  · simp [List.getElem?_idxOf ht]
  · have hbound : UInt32.size = 2 ^ 32 := rfl
    omega

/-- **An assembled program is what its source describes.** Its instructions are those of the source,
in order. A label stands for the length of the code in front of it, provided the code fits the
offsets; likewise a text in quotes for the address of a slot that holds it. -/
theorem assemble_correct (h : assemble name source = .ok p) :
    ∃ ss is, statements source = .ok ss ∧ Compiles name ss is p ∧
      (p.code.length < 2 ^ 32 → ∀ m ∈ marksOf ss,
        (m.place p is).offset.toNat = totalSize (is.take m.index)) ∧
      (p.heap.size ≤ 2 ^ 32 → ∀ t ∈ textsOf (instructionsOf ss),
        p.heap.slot? (UInt32.ofNat
          ((declarationsOf ss).length + (textsOf (instructionsOf ss)).idxOf t)) =
            some (Build.signatureSlot t)) := by
  obtain ⟨ss, is, hss, hc⟩ := exists_compiles h
  exact ⟨ss, is, hss, hc, fun hsize m _ => hc.toNat_offsetAt hsize,
    fun hsize _ => hc.slot?_text hsize⟩

/-- A source with a variable, an exported label and a host function. -/
def counterSource : String :=
  ".data_start\n n: %SystemInt32, 0\n.data_end\n.code_start\n .export main\n main:\n" ++
    " PUSH, n\n EXTERN, \"f\"\n JUMP, main\n.code_end"

theorem assemble_correct_counter :
    ∃ p, assemble "counter" counterSource = .ok p ∧
      ∃ ss is, statements counterSource = .ok ss ∧ Compiles "counter" ss is p := by
  have hok : (assemble "counter" counterSource).toBool = true := by decide +kernel
  cases h : assemble "counter" counterSource with
  | error e =>
    rw [h] at hok
    cases hok
  | ok p =>
    obtain ⟨ss, is, hss, hc, -, -⟩ := assemble_correct h
    exact ⟨p, rfl, ss, is, hss, hc⟩

/-! ### Completeness -/

theorem Drafted.exists_settled {d : Draft} (h : Drafted name ss d) (hc : Orderly ss) :
    ∃ b₁ b₂ b₃, d.settleExports d.builder = .ok b₁ ∧ d.settleSyncs b₁ = .ok b₂ ∧
      d.checkCodeExports d.codeExports = .ok () ∧ d.settleLabels b₂ = .ok b₃ := by
  obtain ⟨symbols, hsymbols, hbuilder⟩ := h.builder
  have hexports : ∀ x ∈ d.dataExports, x.item ∈ d.builder.program.symbols.names := by
    intro x hx
    rw [hbuilder, SymbolTable.names, hsymbols, names_symbolsOf]
    exact hc.dataExports x.item (h.dataExports ▸ List.mem_map_of_mem hx)
  obtain ⟨b₁, hb₁⟩ : ∃ b₁, d.settleExports d.builder = .ok b₁ :=
    ⟨_, settleExports_eq_ok.2 ⟨hexports, rfl⟩⟩
  have hb₁_eq := (settleExports_eq_ok.1 hb₁).2
  have hexported := foldl_markExported (d.dataExports.map Located.item) hsymbols
  rw [List.foldl_map] at hexported
  have hsyncs : ∀ x ∈ d.syncs, x.item.1 ∈ b₁.program.symbols.names := by
    intro x hx
    rw [hb₁_eq, hbuilder, SymbolTable.names, hexported, names_symbolsOf]
    exact hc.syncs x.item (h.syncs ▸ List.mem_map_of_mem hx)
  obtain ⟨b₂, hb₂⟩ : ∃ b₂, d.settleSyncs b₁ = .ok b₂ := ⟨_, settleSyncs_eq_ok.2 ⟨hsyncs, rfl⟩⟩
  have hb₂_eq := (settleSyncs_eq_ok.1 hb₂).2
  have hcheck : d.checkCodeExports d.codeExports = .ok () := by
    refine checkCodeExports_eq_ok.2 fun x hx => h.label?_isSome.2 ?_
    exact hc.codeExports x.item (h.codeExports ▸ List.mem_map_of_mem hx)
  have hnodup : (((d.labels.map Located.item).map
      (entryOf (d.codeExports.map Located.item))).map Symbol.name).Nodup := by
    rw [h.labels, List.map_map, List.map_map]
    exact hc.labels_nodup
  have hempty : b₂.program.entryPoints.symbols = [] := by
    rw [hb₂_eq, hb₁_eq, hbuilder]
    rfl
  have hb₃ := settleLabels_eq_ok.2 ⟨.ofList _ hnodup, by rw [hempty]; rfl, rfl⟩
  exact ⟨b₁, b₂, _, hb₁, hb₂, hcheck, hb₃⟩

theorem Settled.names_eq {b : Builder} (h : Settled name ss b) :
    b.program.symbols.names = (declarationsOf ss).map Declaration.name := by
  obtain ⟨symbols, entryPoints, hsymbols, -, hprogram⟩ := h.program
  rw [hprogram, SymbolTable.names, hsymbols, names_symbolsOf]

/-- The error that a text in quotes cannot get its name, since a variable has it. -/
def NameTaken (ss : List Placed) (e : AsmError) : Prop :=
  ∃ line n, n < (textsOf (instructionsOf ss)).length ∧
    Builder.signatureName n ∈ (declarationsOf ss).map Declaration.name ∧
    e = .build line (.symbol (.duplicate (Builder.signatureName n)))

section Emit

variable {d : Draft} {base b : Builder} {labels : List Label} {xs : List SourceInstruction}
  {x : Located SourceInstruction}

theorem Emitted.resolve_outcome {operand : Operand} (h : Emitted labels base xs b)
    (hd : Drafted name ss d) (hs : Settled name ss base)
    (hxs : xs ++ [x.item] <+: instructionsOf ss) (ho : x.item.operand = some operand)
    (hoperand : Resolvable ss x.item.opcode operand ∨
      (x.item.opcode = .call ∨ x.item.opcode = .remark) ∧ ∃ t, operand = .string t) :
    (∃ w b', d.resolve b x.line x.item.opcode operand = .ok (w, b')) ∨
      ∃ e, d.resolve b x.line x.item.opcode operand = .error e ∧ NameTaken ss e := by
  obtain hresolvable | ⟨hop, t, rfl⟩ := hoperand
  · left
    cases operand with
    | number n => exact ⟨n, b, rfl⟩
    | name y =>
      unfold Resolvable at hresolvable
      unfold Draft.resolve
      by_cases hop : x.item.opcode.takesCodeOffset = true
      · simp only [hop, if_true] at hresolvable ⊢
        obtain ⟨l, hl⟩ := Option.isSome_iff_exists.1 (hd.label?_isSome.2 hresolvable)
        rw [hl]
        exact ⟨l.offset, b, rfl⟩
      · simp only [if_neg hop] at hresolvable ⊢
        obtain ⟨symbols, hsymbols, hprogram⟩ := h.interned.program
        have hbase : y ∈ base.program.symbols.names := hs.names_eq ▸ hresolvable
        have hy : y ∈ b.program.symbols.names := by
          rw [hprogram, SymbolTable.names, hsymbols, List.map_append]
          exact List.mem_append_left _ hbase
        obtain ⟨a, ha⟩ := SymbolTable.exists_addressOf? hy
        rw [Builder.addressOf?, ha]
        exact ⟨a, b, rfl⟩
    | string t => exact absurd hresolvable id
  · have hoffset : x.item.opcode.takesCodeOffset = false := by
      obtain hop | hop := hop
      · rw [hop]
        rfl
      · rw [hop]
        rfl
    unfold Draft.resolve runBuild
    simp only [hoffset, Bool.false_eq_true, if_false, if_pos hop]
    obtain ⟨w, b', hsignature⟩ | ⟨hnew, hname, hsignature⟩ :=
      h.interned.signature_outcome (t := t)
    · rw [hsignature]
      exact .inl ⟨w, b', rfl⟩
    · rw [hsignature]
      refine .inr ⟨_, rfl, x.line, (textsOf xs).length, ?_, hs.names_eq ▸ hname, rfl⟩
      have hlength := (textsOf_isPrefix hxs).length_le
      rw [textsOf_concat, ho] at hlength
      simp only [quoted?, intern, if_neg hnew, List.length_append, List.length_singleton] at hlength
      exact hlength

theorem Emitted.emit_outcome (h : Emitted labels base xs b) (hd : Drafted name ss d)
    (hs : Settled name ss base) (hxs : xs ++ [x.item] <+: instructionsOf ss) (hc : Coherent ss) :
    (∃ b', d.emit b x = .ok b') ∨ ∃ e, d.emit b x = .error e ∧ NameTaken ss e := by
  unfold Draft.emit
  split
  · exact .inl ⟨_, rfl⟩
  · next operand ho =>
    have hx : x.item ∈ instructionsOf ss := hxs.subset (by simp)
    obtain ⟨w, b', hr⟩ | ⟨e, hr, htaken⟩ :=
      h.resolve_outcome hd hs hxs ho (hc.operands x.item hx operand ho)
    · rw [hr]
      exact .inl ⟨_, rfl⟩
    · rw [hr]
      exact .inr ⟨e, rfl, htaken⟩

end Emit

/-- A coherent source is assembled, or a text in quotes cannot get its name. -/
theorem assemble_outcome (name : String) (hss : statements source = .ok ss) (hc : Coherent ss) :
    (∃ p, assemble name source = .ok p) ∨
      ∃ e, assemble name source = .error e ∧ NameTaken ss e := by
  obtain ⟨d, hd⟩ : ∃ d, Draft.read name source.toList = .ok d :=
    (Drafted.new name).exists_read hss hc.toOrderly
  obtain ⟨ss', hss', hdrafted⟩ := (Drafted.new name).read hd
  cases hss.symm.trans hss'
  rw [List.nil_append] at hdrafted
  obtain ⟨b₁, b₂, base, hexports, hsyncs, hcheck, hlabels⟩ := hdrafted.exists_settled hc.toOrderly
  have hsettled := hdrafted.settled hexports hsyncs hlabels
  -- settling goes through, so that all depends on the instructions
  have hassemble : assemble name source =
      (do return (← d.instructions.foldlM d.emit base).build) := by
    simp only [assemble, Draft.finish, hd, hexports, hsyncs, hcheck, hlabels, bind, Except.bind]
  rw [hassemble]
  let labels := (marksOf ss).map (Mark.label (instructionsOf ss))
  have hstep : ∀ xs x ys b, d.instructions = xs ++ x :: ys →
      Emitted labels base (xs.map Located.item) b →
      (∃ b', d.emit b x = .ok b' ∧ Emitted labels base ((xs ++ [x]).map Located.item) b') ∨
        ∃ e, d.emit b x = .error e ∧ NameTaken ss e := by
    intro xs x ys b hsplit hxs
    have hprefix : xs.map Located.item ++ [x.item] <+: instructionsOf ss := by
      rw [← hdrafted.instructions, hsplit, List.map_append, List.map_cons]
      exact ⟨ys.map Located.item, by simp⟩
    obtain ⟨b', hb'⟩ | hrefused := hxs.emit_outcome hdrafted hsettled hprefix hc
    · refine .inl ⟨b', hb', ?_⟩
      rw [List.map_append, List.map_singleton]
      have hmem : x.item ∈ instructionsOf ss := hprefix.subset (by simp)
      exact hxs.emit hdrafted.labels (operands_of_statementsFrom hss x.item hmem) hb'
    · exact .inr hrefused
  obtain ⟨b, hemit, -⟩ | ⟨e, hemit, htaken⟩ :=
    foldlM_outcome (motive := fun xs b => Emitted labels base (xs.map Located.item) b)
      (Emitted.start _ hsettled.signatures hsettled.code) hstep
  · rw [hemit]
    exact .inl ⟨_, rfl⟩
  · rw [hemit]
    exact .inr ⟨e, rfl, htaken⟩

theorem Consistent.textsOf_eq (hc : Consistent ss) : textsOf (instructionsOf ss) = [] := by
  have hquoted : (instructionsOf ss).filterMap (fun x => quoted? x.operand) = [] := by
    refine List.filterMap_eq_nil_iff.2 fun x hx => ?_
    cases ho : x.operand with
    | none => rfl
    | some operand =>
      cases operand with
      | number | name => rfl
      | string t => exact absurd (hc.operands x hx _ ho) id
  rw [textsOf, hquoted]
  rfl

/-- A consistent source can be assembled. -/
theorem exists_assemble (hss : statements source = .ok ss) (hc : Consistent ss) :
    ∃ p, assemble name source = .ok p := by
  obtain hok | ⟨e, -, line, n, hn, -⟩ := assemble_outcome name hss hc.coherent
  · exact hok
  · rw [hc.textsOf_eq] at hn
    cases hn

theorem exists_assembled (name : String) (hss : statements source = .ok ss) (hc : Consistent ss) :
    ∃ p is, assemble name source = .ok p ∧ Compiles name ss is p := by
  obtain ⟨p, hp⟩ : ∃ p, assemble name source = .ok p := exists_assemble hss hc
  obtain ⟨ss', is, hss', hcompiles⟩ := exists_compiles hp
  cases hss.symm.trans hss'
  exact ⟨p, is, hp, hcompiles⟩

end EventVm.Assembly
