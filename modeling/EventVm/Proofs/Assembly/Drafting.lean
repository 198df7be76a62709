import EventVm.Proofs.Assembly.Source
import EventVm.Proofs.Program.Tables

/-!
# Drafts

The draft of a source holds what the statements read so far amount to (`Drafted`). A statement is
refused only if it declares a name twice or gives a variable a value that does not fit, so that the
statements of an orderly source can all be added (`Drafted.exists_read`).
-/

namespace EventVm.Assembly

/-- The symbols of variables in slots from 0 on, of which those with the given names are visible. -/
def symbolsOf (exports : List String) (vs : List Declaration) : List Symbol :=
  vs.mapIdx fun n v => ⟨v.name, UInt32.ofNat n, v.type, exports.contains v.name⟩

/-- The length of the code of instructions. -/
def codeSize (xs : List SourceInstruction) : Nat :=
  (xs.map fun x => x.opcode.size.toNat).sum

/-- The label of a mark among instructions. -/
def Mark.label (xs : List SourceInstruction) (m : Mark) : Label :=
  ⟨m.name, UInt32.ofNat (codeSize (xs.take m.index))⟩

@[simp]
theorem names_symbolsOf (exports : List String) (vs : List Declaration) :
    (symbolsOf exports vs).map Symbol.name = vs.map Declaration.name := by
  apply List.ext_getElem
  · simp [symbolsOf]
  · intro i _ _
    simp [symbolsOf]

theorem symbolsOf_concat (exports : List String) (vs : List Declaration) (v : Declaration) :
    symbolsOf exports (vs ++ [v]) = symbolsOf exports vs ++
      [⟨v.name, UInt32.ofNat vs.length, v.type, exports.contains v.name⟩] :=
  List.mapIdx_concat

@[simp]
theorem codeSize_append (xs ys : List SourceInstruction) :
    codeSize (xs ++ ys) = codeSize xs + codeSize ys := by
  simp [codeSize]

variable {ss ts : List Placed} {name : String} {d d' : Draft} {s : Statement} {line : Nat}

theorem index_le_of_mem_marksFrom {k : Nat} {m : Mark} (h : m ∈ marksFrom k ss) :
    m.index ≤ k + (instructionsOf ss).length := by
  induction ss generalizing k with
  | nil => cases h
  | cons s ss ih =>
    obtain ⟨r, s⟩ := s
    cases s with
    | label name =>
      obtain rfl | h := List.mem_cons.1 h
      · exact Nat.le_add_right ..
      · exact ih h
    | instruction op operand =>
      have hle := ih (k := k + 1) h
      simp only [instructionsOf, List.filterMap_cons, List.length_cons] at hle ⊢
      omega
    | enter _ | exportName _ | sync _ _ | declare _ _ _ => exact ih h

/-- More instructions do not move a label. -/
theorem map_label_append (xs : List SourceInstruction) :
    (marksOf ss).map (Mark.label (instructionsOf ss ++ xs)) =
      (marksOf ss).map (Mark.label (instructionsOf ss)) := by
  apply List.map_congr_left
  intro m hm
  have hle := index_le_of_mem_marksFrom hm
  rw [Nat.zero_add] at hle
  rw [Mark.label, List.take_append_of_le_length hle, Mark.label]

/-! ### Adding statements -/

/-- The draft of a program with the given name holds what the statements amount to. -/
structure Drafted (name : String) (ss : List Placed) (d : Draft) : Prop where
  builder : ∃ symbols : SymbolTable, symbols.symbols = symbolsOf [] (declarationsOf ss) ∧
    d.builder = ⟨{ Program.empty name with
      heap := ⟨(declarationsOf ss).map Declaration.slot⟩, symbols }, [], [], 0⟩
  dataExports : d.dataExports.map Located.item = exportsOf .data ss
  codeExports : d.codeExports.map Located.item = exportsOf .code ss
  syncs : d.syncs.map Located.item = syncsOf ss
  labels : d.labels.map Located.item = (marksOf ss).map (Mark.label (instructionsOf ss))
  instructions : d.instructions.map Located.item = instructionsOf ss
  offset : d.offset = UInt32.ofNat (codeSize (instructionsOf ss))

theorem Drafted.new (name : String) : Drafted name [] (.new name) :=
  ⟨⟨.empty, rfl, rfl⟩, rfl, rfl, rfl, rfl, rfl, rfl⟩

theorem Drafted.label?_isSome (h : Drafted name ss d) {x : String} :
    (d.label? x).isSome = true ↔ x ∈ (marksOf ss).map Mark.name := by
  unfold Draft.label?
  rw [h.labels, List.find?_isSome]
  simp [Mark.label]

/-- A statement that declares no variable leaves the builder as it is. -/
theorem Drafted.builder_concat (h : Drafted name ss d) {x : Placed} (hx : declarationsOf [x] = []) :
    ∃ symbols : SymbolTable, symbols.symbols = symbolsOf [] (declarationsOf (ss ++ [x])) ∧
      d.builder = ⟨{ Program.empty name with
        heap := ⟨(declarationsOf (ss ++ [x])).map Declaration.slot⟩, symbols }, [], [], 0⟩ := by
  rw [declarationsOf_append, hx, List.append_nil]
  exact h.builder

/-- A declaration puts its slot behind the others, and its symbol behind theirs. -/
theorem Drafted.declare (h : Drafted name ss d) (r : Region) {x : String} {type : TypeTag}
    {initial : Initial} {address : UInt32} {b : Builder}
    (hrun : runBuild d.builder (Draft.declare x type initial) (.build line) = .ok (address, b)) :
    Drafted name (ss ++ [⟨r, .declare x type initial⟩]) { d with builder := b } := by
  obtain ⟨⟨symbols, hsymbols, hbuilder⟩, hdata, hcode, hsyncs, hlabels, hinstructions, hoffset⟩ := h
  obtain ⟨-, -, symbols', hinsert, rfl⟩ := Draft.declare_eq_ok.1 (runBuild_eq_ok.1 hrun)
  obtain ⟨-, hsymbols'⟩ := SymbolTable.insert_eq_ok.1 hinsert
  have hdeclared : declarationsOf (ss ++ [⟨r, .declare x type initial⟩]) =
      declarationsOf ss ++ [⟨x, type, initial⟩] := declarationsOf_append
  constructor
  case builder =>
    refine ⟨symbols', ?_, ?_⟩
    · rw [hsymbols', hdeclared, symbolsOf_concat, hbuilder, hsymbols]
      simp [Heap.nextAddress, Heap.size]
    · rw [hdeclared, hbuilder]
      simp [Declaration.slot]
  all_goals simpa [exportsOf, syncsOf, instructionsOf, marksFrom]

/-- An instruction comes behind the others, and the offset moves behind it. -/
theorem Drafted.instruction (h : Drafted name ss d) (r : Region) (line : Nat)
    (x : SourceInstruction) : Drafted name (ss ++ [⟨r, .instruction x.opcode x.operand⟩])
      { d with
        instructions := d.instructions ++ [⟨line, x⟩]
        offset := d.offset + x.opcode.size } := by
  have hadded : instructionsOf (ss ++ [⟨r, .instruction x.opcode x.operand⟩]) =
      instructionsOf ss ++ [x] := instructionsOf_append
  obtain ⟨-, hdata, hcode, hsyncs, hlabels, hinstructions, hoffset⟩ := id h
  constructor
  case builder => exact h.builder_concat rfl
  case labels =>
    rw [hadded, marksOf_append, List.map_append, map_label_append]
    simpa [marksFrom]
  case instructions =>
    rw [hadded]
    simp [hinstructions]
  case offset =>
    rw [hadded, codeSize_append, UInt32.ofNat_add, ← hoffset]
    simp [codeSize]
  all_goals simpa [exportsOf, syncsOf]

theorem Drafted.add (h : Drafted name ss d) (ha : d.add line s = .ok d') :
    Drafted name (ss ++ [⟨d.region, s⟩]) d' ∧ d'.region = d.region.after s := by
  obtain ⟨-, hdata, hcode, hsyncs, hlabels, hinstructions, hoffset⟩ := id h
  cases s with
  | enter r =>
    cases ha
    refine ⟨?_, rfl⟩
    constructor
    case builder => exact h.builder_concat rfl
    all_goals simpa [exportsOf, syncsOf, instructionsOf, marksFrom]
  | exportName x =>
    cases hr : d.region with
    | outside =>
      rw [Draft.add, hr] at ha
      cases ha
    | data | code =>
      rw [Draft.add, hr] at ha
      cases ha
      refine ⟨?_, rfl⟩
      constructor
      case builder => exact h.builder_concat rfl
      all_goals simpa [exportsOf, syncsOf, instructionsOf, marksFrom]
  | sync x i =>
    cases ha
    refine ⟨?_, rfl⟩
    constructor
    case builder => exact h.builder_concat rfl
    all_goals simpa [exportsOf, syncsOf, instructionsOf, marksFrom]
  | declare x type initial =>
    obtain ⟨⟨address, b⟩, hrun, ha⟩ := bind_eq_ok.1 ha
    cases ha
    exact ⟨h.declare d.region hrun, rfl⟩
  | label x =>
    rw [Draft.add] at ha
    split at ha
    · cases ha
    · cases ha
      refine ⟨?_, rfl⟩
      constructor
      case builder => exact h.builder_concat rfl
      case labels => simpa [hlabels, instructionsOf, marksFrom, Mark.label]
      all_goals simpa [exportsOf, syncsOf, instructionsOf]
  | instruction op operand =>
    cases ha
    exact ⟨h.instruction d.region line ⟨op, operand⟩, rfl⟩

theorem addLine_eq (d : Draft) (raw : List Char) (line : Nat) : d.addLine raw line =
    match statement? d.region raw with
    | .error fault => .error (.malformed line fault)
    | .ok none => .ok d
    | .ok (some s) => d.add line s := by
  unfold Draft.addLine statement?
  dsimp only
  split
  · rfl
  · cases parseStatement d.region (Text.trim (stripComment false raw)) <;> rfl

theorem Drafted.read {raws : List (List Char)} {k : Nat} (h : Drafted name ss d)
    (hr : (raws.zipIdx k).foldlM (fun d (raw, i) => d.addLine raw (i + 1)) d = .ok d') :
    ∃ ts, statementsFrom d.region raws = .ok ts ∧ Drafted name (ss ++ ts) d' := by
  induction raws generalizing ss d k with
  | nil =>
    cases hr
    exact ⟨[], rfl, by rwa [List.append_nil]⟩
  | cons raw raws ih =>
    rw [List.zipIdx_cons, List.foldlM_cons] at hr
    obtain ⟨d₁, hline, hr⟩ := bind_eq_ok.1 hr
    dsimp only at hline
    rw [addLine_eq] at hline
    split at hline
    · cases hline
    · next hraw =>
      cases hline
      rw [statementsFrom_blank hraw]
      exact ih h hr
    · next s hraw =>
      obtain ⟨hd₁, hregion⟩ := h.add hline
      obtain ⟨ts, hts, hd'⟩ := ih hd₁ hr
      rw [hregion] at hts
      refine ⟨⟨d.region, s⟩ :: ts, ?_, by rwa [List.append_cons]⟩
      rw [statementsFrom_statement hraw, hts]
      rfl

/-! ### Consistent sources -/

/-- Whether an operand is a number or a name that the statements declare. -/
def Resolvable (ss : List Placed) (op : Opcode) : Operand → Prop
  | .number _ => True
  | .name x =>
    if op.takesCodeOffset then x ∈ (marksOf ss).map Mark.name
    else x ∈ (declarationsOf ss).map Declaration.name
  | .string _ => False

/-- Every name is declared once, initial values fit, and no name is exported or synced that is not
declared. -/
structure Orderly (ss : List Placed) : Prop where
  variables_nodup : ((declarationsOf ss).map Declaration.name).Nodup
  wellTyped : ∀ v ∈ declarationsOf ss, v.slot.isWellTyped = true
  labels_nodup : ((marksOf ss).map Mark.name).Nodup
  dataExports : ∀ x ∈ exportsOf .data ss, x ∈ (declarationsOf ss).map Declaration.name
  syncs : ∀ x ∈ syncsOf ss, x.1 ∈ (declarationsOf ss).map Declaration.name
  codeExports : ∀ x ∈ exportsOf .code ss, x ∈ (marksOf ss).map Mark.name

/-- No operand is a name that is not declared, and none is a text in quotes. -/
structure Consistent (ss : List Placed) : Prop extends Orderly ss where
  operands : ∀ x ∈ instructionsOf ss, ∀ o, x.operand = some o → Resolvable ss x.opcode o

/-- No operand is a name that is not declared, and texts in quotes stand where signatures do. -/
structure Coherent (ss : List Placed) : Prop extends Orderly ss where
  operands : ∀ x ∈ instructionsOf ss, ∀ o, x.operand = some o → Resolvable ss x.opcode o ∨
    (x.opcode = .call ∨ x.opcode = .remark) ∧ ∃ t, o = .string t

theorem Consistent.coherent (h : Consistent ss) : Coherent ss where
  toOrderly := h.toOrderly
  operands := fun x hx o ho => .inl (h.operands x hx o ho)

theorem Drafted.exists_add (h : Drafted name ss d) (hc : Orderly (ss ++ ⟨d.region, s⟩ :: ts))
    (hs : ∀ x, s = .exportName x → d.region ≠ .outside) : ∃ d', d.add line s = .ok d' := by
  cases s with
  | exportName x =>
    cases hr : d.region with
    | outside => exact absurd hr (hs x rfl)
    | data | code =>
      rw [Draft.add, hr]
      exact ⟨_, rfl⟩
  | declare x type initial =>
    obtain ⟨symbols, hsymbols, hbuilder⟩ := h.builder
    have hdeclared : declarationsOf (ss ++ ⟨d.region, .declare x type initial⟩ :: ts) =
        declarationsOf ss ++ ⟨x, type, initial⟩ :: declarationsOf ts := declarationsOf_append
    have hslot := hc.wellTyped ⟨x, type, initial⟩ (by simp [hdeclared])
    have hfresh : x ∉ d.builder.program.symbols.names := by
      have hnodup := hc.variables_nodup
      rw [hdeclared] at hnodup
      rw [hbuilder, SymbolTable.names, hsymbols, names_symbolsOf]
      exact fresh_of_nodup hnodup
    obtain ⟨b, hb⟩ := Builder.exists_declared hslot hfresh
    have hrun := Draft.declare_eq_ok.2 ⟨rfl, hb⟩
    rw [Draft.add, runBuild_eq_ok.2 hrun]
    exact ⟨_, rfl⟩
  | label x =>
    have hlabels : marksOf (ss ++ ⟨d.region, .label x⟩ :: ts) =
        marksOf ss ++ ⟨x, (instructionsOf ss).length⟩ :: marksFrom (instructionsOf ss).length ts :=
      marksOf_append
    have hfresh : ¬ (d.label? x).isSome = true := by
      have hnodup := hc.labels_nodup
      rw [hlabels] at hnodup
      rw [h.label?_isSome]
      exact fresh_of_nodup hnodup
    rw [Draft.add, if_neg hfresh]
    exact ⟨_, rfl⟩
  | enter _ | sync _ _ | instruction _ _ => exact ⟨_, rfl⟩

theorem Drafted.exists_read {raws : List (List Char)} {k : Nat} (h : Drafted name ss d)
    (hts : statementsFrom d.region raws = .ok ts) (hc : Orderly (ss ++ ts)) :
    ∃ d', (raws.zipIdx k).foldlM (fun d (raw, i) => d.addLine raw (i + 1)) d = .ok d' := by
  induction raws generalizing ss ts d k with
  | nil => exact ⟨d, rfl⟩
  | cons raw raws ih =>
    rw [List.zipIdx_cons, List.foldlM_cons]
    dsimp only
    rw [addLine_eq]
    cases hraw : statement? d.region raw with
    | error fault =>
      rw [statementsFrom, hraw] at hts
      cases hts
    | ok text =>
      cases text with
      | none =>
        rw [statementsFrom_blank hraw] at hts
        exact ih h hts hc
      | some s =>
        rw [statementsFrom_statement hraw] at hts
        obtain ⟨ts', hts', rfl⟩ := map_eq_ok.1 hts
        have hexport : ∀ x, s = .exportName x → d.region ≠ .outside := by
          rintro x rfl
          cases says_of_statement? hraw with
          | exportName rest hrest hr hname => exact hr
        obtain ⟨d₁, hd₁⟩ : ∃ d₁, d.add (k + 1) s = .ok d₁ := h.exists_add hc hexport
        obtain ⟨hdrafted, hregion⟩ := h.add hd₁
        rw [← hregion] at hts'
        obtain ⟨d', hd'⟩ := ih hdrafted hts' (by rwa [← List.append_cons])
        refine ⟨d', ?_⟩
        dsimp only
        rw [hd₁]
        exact hd'

end EventVm.Assembly
