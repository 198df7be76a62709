import EventVm.Proofs.Assembly.Drafting
import EventVm.Proofs.Program.Layout
import Mathlib.Data.List.Forall2

/-!
# Settling and emitting

What becomes of a draft when all lines are read. The exported and the synced names and the labels
are settled first, which the declared names decide alone. Then the instructions are emitted one
after the other: `Emitted` says what the builder holds at each moment, and `Denotes` which word
stands for a written operand.
-/

namespace EventVm.Assembly

open Instruction (decodeAll)

variable {d : Draft} {b b' base : Builder} {name : String}

/-! ### Settling -/

theorem markExported_symbolsOf {t : SymbolTable} {exports : List String} {vs : List Declaration}
    (h : t.symbols = symbolsOf exports vs) :
    (t.markExported name).symbols = symbolsOf (exports ++ [name]) vs := by
  rw [SymbolTable.symbols_markExported, h]
  apply List.ext_getElem
  · simp [symbolsOf]
  · intro i _ hi
    have hi : i < vs.length := by simpa [symbolsOf] using hi
    by_cases hname : vs[i].name = name
    · simp [symbolsOf, hname]
    · simp [symbolsOf, hname]

theorem names_markExported (t : SymbolTable) : (t.markExported name).names = t.names :=
  t.map_markExported (fun _ => rfl) name

/-- Exports are settled if their names are declared. -/
theorem settleExports_eq_ok : d.settleExports b = .ok b' ↔
    (∀ x ∈ d.dataExports, x.item ∈ b.program.symbols.names) ∧
      b' = { b with program := { b.program with
        symbols :=
          d.dataExports.foldl (fun t x => t.markExported x.item) b.program.symbols } } := by
  unfold Draft.settleExports
  induction d.dataExports generalizing b with
  | nil => simp [pure, Except.pure, eq_comm]
  | cons x xs ih =>
    rw [List.foldlM_cons, bind_eq_ok]
    simp only [runBuild_snd_eq_ok, Build.exportVariable_eq_ok]
    constructor
    · rintro ⟨_, ⟨hx, rfl⟩, h⟩
      obtain ⟨hxs, rfl⟩ := ih.1 h
      simp only [names_markExported] at hxs
      exact ⟨List.forall_mem_cons.2 ⟨hx, hxs⟩, rfl⟩
    · rintro ⟨hxs, rfl⟩
      obtain ⟨hx, hxs⟩ := List.forall_mem_cons.1 hxs
      refine ⟨_, ⟨hx, rfl⟩, ih.2 ⟨?_, rfl⟩⟩
      simpa only [names_markExported] using hxs

/-- Synced variables are settled if they are declared. -/
theorem settleSyncs_eq_ok : d.settleSyncs b = .ok b' ↔
    (∀ x ∈ d.syncs, x.item.1 ∈ b.program.symbols.names) ∧
      b' = { b with program := { b.program with
        sync := d.syncs.foldl (fun t x => t.add x.item.1 x.item.2) b.program.sync } } := by
  unfold Draft.settleSyncs
  induction d.syncs generalizing b with
  | nil => simp [pure, Except.pure, eq_comm]
  | cons x xs ih =>
    rw [List.foldlM_cons, bind_eq_ok]
    simp only [runBuild_snd_eq_ok, Build.syncVariable_eq_ok]
    constructor
    · rintro ⟨_, ⟨hx, rfl⟩, h⟩
      obtain ⟨hxs, rfl⟩ := ih.1 h
      exact ⟨List.forall_mem_cons.2 ⟨hx, hxs⟩, rfl⟩
    · rintro ⟨hxs, rfl⟩
      obtain ⟨hx, hxs⟩ := List.forall_mem_cons.1 hxs
      exact ⟨_, ⟨hx, rfl⟩, ih.2 ⟨hxs, rfl⟩⟩

theorem checkCodeExports_eq_ok {xs : List (Located String)} :
    d.checkCodeExports xs = .ok () ↔ ∀ x ∈ xs, (d.label? x.item).isSome = true := by
  induction xs with
  | nil => simp [Draft.checkCodeExports]
  | cons x xs ih =>
    rw [Draft.checkCodeExports, List.forall_mem_cons, ← ih]
    split
    · next hx => simp [hx]
    · next hx => simp [hx]

/-- The entry point of a label. -/
def entryOf (exports : List String) (l : Label) : Symbol :=
  ⟨l.name, l.offset, .object, exports.contains l.name⟩

/-- Labels are settled if the table of entry points takes them all. -/
theorem settleLabels_eq_ok : d.settleLabels b = .ok b' ↔
    ∃ entryPoints : SymbolTable, entryPoints.symbols = b.program.entryPoints.symbols ++
        (d.labels.map Located.item).map (entryOf (d.codeExports.map Located.item)) ∧
      b' = { b with program := { b.program with entryPoints } } := by
  have hexported : ∀ l : Label, (⟨l.name, l.offset, .object, d.isExported l.name⟩ : Symbol) =
      entryOf (d.codeExports.map Located.item) l := by
    intro l
    simp only [entryOf, Draft.isExported, Symbol.mk.injEq, true_and]
    rw [List.contains_eq_any_beq, List.any_map]
    congr 1
    funext x
    exact Bool.beq_comm
  unfold Draft.settleLabels
  induction d.labels generalizing b with
  | nil =>
    simp only [List.foldlM_nil, List.map_nil, List.append_nil]
    constructor
    · intro h
      cases h
      exact ⟨_, rfl, rfl⟩
    · rintro ⟨entryPoints, he, rfl⟩
      cases SymbolTable.ext he
      rfl
  | cons x xs ih =>
    rw [List.foldlM_cons, bind_eq_ok]
    simp only [runBuild_snd_eq_ok, Build.entryPointAt_eq_ok, hexported]
    constructor
    · rintro ⟨_, ⟨e, he, rfl⟩, h⟩
      obtain ⟨entryPoints, hentries, rfl⟩ := ih.1 h
      obtain ⟨-, he⟩ := SymbolTable.insert_eq_ok.1 he
      refine ⟨entryPoints, ?_, rfl⟩
      rw [hentries, he]
      simp
    · rintro ⟨entryPoints, hentries, rfl⟩
      have hfresh : x.item.name ∉ b.program.entryPoints.names := by
        have hnodup := entryPoints.names_nodup
        rw [hentries, List.map_cons, List.map_cons] at hnodup
        exact fresh_of_nodup hnodup
      obtain ⟨e, he, hsymbols⟩ := SymbolTable.insert_of_fresh (t := b.program.entryPoints)
        (s := entryOf (d.codeExports.map Located.item) x.item)
        (mt SymbolTable.contains_iff.1 hfresh)
      refine ⟨_, ⟨e, he, rfl⟩, ih.2 ⟨entryPoints, ?_, rfl⟩⟩
      rw [hentries, hsymbols]
      simp

/-! ### Operands -/

/-- Which word stands for a written operand of an opcode. The texts in quotes have the slots from
`first` on, in order. -/
inductive Denotes (labels : List Label) (symbols : List Symbol) (first : Nat) (texts : List String)
    (op : Opcode) : Option Operand → Option UInt32 → Prop
  | none : Denotes labels symbols first texts op none none
  | number (n : UInt32) : Denotes labels symbols first texts op (some (.number n)) (some n)
  | label (l : Label) (hop : op.takesCodeOffset = true) (hl : l ∈ labels) :
      Denotes labels symbols first texts op (some (.name l.name)) (some l.offset)
  | symbol (s : Symbol) (hop : op.takesCodeOffset = false) (hs : s ∈ symbols) :
      Denotes labels symbols first texts op (some (.name s.name)) (some s.address)
  | text (t : String) (hop : op = .call ∨ op = .remark) (ht : t ∈ texts) :
      Denotes labels symbols first texts op (some (.string t))
        (some (UInt32.ofNat (first + texts.idxOf t)))

section Denotes

variable {labels : List Label} {symbols symbols' : List Symbol} {first : Nat}
  {texts texts' : List String} {op : Opcode} {operand : Option Operand} {w : Option UInt32}

theorem Denotes.isSome_eq (h : Denotes labels symbols first texts op operand w) :
    w.isSome = operand.isSome := by
  cases h <;> rfl

/-- Declaring more leaves the operands what they are. -/
theorem Denotes.mono (h : Denotes labels symbols first texts op operand w)
    (hsymbols : symbols <+: symbols') (htexts : texts <+: texts') :
    Denotes labels symbols' first texts' op operand w := by
  cases h with
  | none => exact .none
  | number n => exact .number n
  | label l hop hl => exact .label l hop hl
  | symbol s hop hs => exact .symbol s hop (hsymbols.subset hs)
  | text t hop ht =>
    obtain ⟨more, rfl⟩ := htexts
    rw [← List.idxOf_append_of_mem ht]
    exact .text t hop (List.mem_append_left _ ht)

end Denotes

/-! ### Texts in quotes -/

/-- The symbols of texts in quotes, which have the slots from `first` on. -/
def textSymbols (first : Nat) (texts : List String) : List Symbol :=
  texts.mapIdx fun n _ => ⟨Builder.signatureName n, UInt32.ofNat (first + n), .string, false⟩

/-- The next text gets a name of its own. -/
theorem signatureName_notMem_textSymbols (first : Nat) (texts : List String) :
    Builder.signatureName texts.length ∉ (textSymbols first texts).map Symbol.name := by
  intro hname
  obtain ⟨s, hs, hname⟩ := List.mem_map.1 hname
  obtain ⟨n, hn, rfl⟩ := List.mem_mapIdx.1 hs
  exact hn.ne (Builder.signatureName_injective hname)

/-- The texts with a text more, unless it is there. -/
def intern (texts : List String) (t : String) : List String :=
  if t ∈ texts then texts else texts ++ [t]

theorem mem_intern (texts : List String) (t : String) : t ∈ intern texts t := by
  unfold intern
  split <;> simp [*]

theorem eraseDups_concat (ts : List String) (t : String) :
    (ts ++ [t]).eraseDups = intern ts.eraseDups t := by
  rw [List.eraseDups_append, intern]
  by_cases ht : t ∈ ts
  · simp [ht, List.removeAll]
  · simp [ht, List.removeAll, List.eraseDups_cons]

theorem textsOf_concat (xs : List SourceInstruction) (x : SourceInstruction) :
    textsOf (xs ++ [x]) = match quoted? x.operand with
      | some t => intern (textsOf xs) t
      | none => textsOf xs := by
  unfold textsOf
  rw [List.filterMap_append]
  cases h : quoted? x.operand with
  | none => simp [h]
  | some t => simp [h, eraseDups_concat]

theorem textsOf_isPrefix {xs ys : List SourceInstruction} (h : xs <+: ys) :
    textsOf xs <+: textsOf ys := by
  obtain ⟨zs, rfl⟩ := h
  unfold textsOf
  rw [List.filterMap_append, List.eraseDups_append]
  exact List.prefix_append ..

/-- The texts have been declared on top of `base`. -/
structure Interned (base : Builder) (texts : List String) (b : Builder) : Prop where
  program : ∃ symbols : SymbolTable,
    symbols.symbols = base.program.symbols.symbols ++
      textSymbols base.program.heap.size texts ∧
    b.program = { base.program with
      heap := ⟨base.program.heap.slots ++ texts.map Build.signatureSlot⟩, symbols }
  signatures : b.signatures =
    texts.mapIdx fun n t => (t, UInt32.ofNat (base.program.heap.size + n))

theorem lookup_mapIdx (f : Nat → UInt32) (texts : List String) (t : String) :
    (texts.mapIdx fun n t => (t, f n)).lookup t =
      if t ∈ texts then some (f (texts.idxOf t)) else none := by
  induction texts generalizing f with
  | nil => rfl
  | cons u us ih =>
    rw [List.mapIdx_cons, List.lookup_cons, ih fun n => f (n + 1)]
    by_cases htu : t = u
    · simp [htu]
    · have hut : (u == t) = false := beq_eq_false_iff_ne.2 (Ne.symm htu)
      have hbeq : (t == u) = false := beq_eq_false_iff_ne.2 htu
      simp [htu, hbeq, hut, List.idxOf_cons]

theorem Interned.signature {texts : List String} {t : String} {w : UInt32}
    (h : Interned base texts b) (hs : (Build.signature t).run b = .ok w b') :
    Interned base (intern texts t) b' ∧ b'.code = b.code ∧
      w = UInt32.ofNat (base.program.heap.size + (intern texts t).idxOf t) := by
  have hlookup := lookup_mapIdx (fun n => UInt32.ofNat (base.program.heap.size + n)) texts t
  rw [← h.signatures] at hlookup
  by_cases ht : t ∈ texts
  · rw [if_pos ht] at hlookup
    rw [Build.signature_of_known hlookup] at hs
    cases hs
    rw [intern, if_pos ht]
    exact ⟨h, rfl, rfl⟩
  · rw [if_neg ht] at hlookup
    obtain ⟨rfl, b₁, ⟨-, symbols', hinsert, rfl⟩, rfl⟩ := Build.signature_of_new hlookup hs
    obtain ⟨-, hsymbols'⟩ := SymbolTable.insert_eq_ok.1 hinsert
    obtain ⟨symbols, hsymbols, hprogram⟩ := h.program
    have hnext : b.program.heap.nextAddress =
        UInt32.ofNat (base.program.heap.size + texts.length) := by
      rw [hprogram]
      simp [Heap.nextAddress, Heap.size]
    have hlength : b.signatures.length = texts.length := by
      rw [h.signatures, List.length_mapIdx]
    rw [intern, if_neg ht]
    refine ⟨⟨⟨symbols', ?_, ?_⟩, ?_⟩, rfl, ?_⟩
    · rw [hsymbols', hnext, hlength, hprogram, hsymbols]
      simp [textSymbols, Build.signatureSlot]
    · rw [hprogram]
      simp
    · rw [h.signatures, hnext]
      simp
    · rw [hnext, List.idxOf_append_of_notMem ht]
      simp

/-- A text is refused only if it is new and a variable has its name. -/
theorem Interned.signature_outcome {texts : List String} {t : String}
    (h : Interned base texts b) : (∃ w b', (Build.signature t).run b = .ok w b') ∨
      t ∉ texts ∧ Builder.signatureName texts.length ∈ base.program.symbols.names ∧
        (Build.signature t).run b =
          .error (.symbol (.duplicate (Builder.signatureName texts.length))) b := by
  have hlookup := lookup_mapIdx (fun n => UInt32.ofNat (base.program.heap.size + n)) texts t
  rw [← h.signatures] at hlookup
  have hlength : b.signatures.length = texts.length := by
    rw [h.signatures, List.length_mapIdx]
  by_cases ht : t ∈ texts
  · rw [if_pos ht] at hlookup
    exact .inl ⟨_, b, Build.signature_of_known hlookup⟩
  · rw [if_neg ht] at hlookup
    by_cases hname : Builder.signatureName texts.length ∈ b.program.symbols.names
    · obtain ⟨symbols, hsymbols, hprogram⟩ := h.program
      have hbase : Builder.signatureName texts.length ∈ base.program.symbols.names := by
        rw [hprogram, SymbolTable.names, hsymbols, List.map_append] at hname
        obtain hname | hname := List.mem_append.1 hname
        · exact hname
        · exact absurd hname (signatureName_notMem_textSymbols _ texts)
      rw [← hlength] at hname
      exact .inr ⟨ht, hbase, hlength ▸ Build.signature_of_taken hlookup hname⟩
    · rw [← hlength] at hname
      exact .inl (Build.exists_signature.2 fun _ => hname)

theorem textSymbols_isPrefix {first : Nat} {texts texts' : List String} (h : texts <+: texts') :
    textSymbols first texts <+: textSymbols first texts' := by
  obtain ⟨more, rfl⟩ := h
  rw [textSymbols, textSymbols, List.mapIdx_append]
  exact List.prefix_append ..

theorem Interned.symbols_isPrefix {texts texts' : List String} (h : Interned base texts b)
    (h' : Interned base texts' b') (htexts : texts <+: texts') :
    b.program.symbols.symbols <+: b'.program.symbols.symbols := by
  obtain ⟨symbols, hsymbols, hprogram⟩ := h.program
  obtain ⟨symbols', hsymbols', hprogram'⟩ := h'.program
  rw [hprogram, hprogram']
  change symbols.symbols <+: symbols'.symbols
  rw [hsymbols, hsymbols', List.prefix_append_right_inj]
  exact textSymbols_isPrefix htexts

/-! ### Emission -/

/-- The instruction of the code that a written instruction becomes. -/
def Becomes (labels : List Label) (symbols : List Symbol) (first : Nat) (texts : List String)
    (x : SourceInstruction) (i : Instruction) : Prop :=
  i.opcode = x.opcode ∧ Denotes labels symbols first texts x.opcode x.operand i.operand

/-- What a builder holds when the instructions `xs` have been emitted. -/
structure Emitted (labels : List Label) (base : Builder) (xs : List SourceInstruction)
    (b : Builder) : Prop where
  interned : Interned base (textsOf xs) b
  code : ∃ is, decodeAll b.code = .ok is ∧
    List.Forall₂ (Becomes labels b.program.symbols.symbols base.program.heap.size (textsOf xs))
      xs is

theorem Emitted.start (labels : List Label) (hsignatures : base.signatures = [])
    (hcode : base.code = []) : Emitted labels base [] base where
  interned := ⟨⟨base.program.symbols, (List.append_nil _).symm, by simp [textsOf]⟩, hsignatures⟩
  code := by
    rw [hcode]
    exact ⟨[], rfl, .nil⟩

section Emit

variable {labels : List Label} {xs : List SourceInstruction} {x : Located SourceInstruction}
  {operand : Operand} {w : UInt32} (hlabels : d.labels.map Located.item = labels)

include hlabels

/-- Resolving an operand declares the text in quotes that it is, if that is new, and no more. -/
theorem Interned.resolve (h : Interned base (textsOf xs) b) (ho : x.item.operand = some operand)
    (hr : d.resolve b x.line x.item.opcode operand = .ok (w, b')) :
    Interned base (textsOf (xs ++ [x.item])) b' ∧ b'.code = b.code ∧
      Denotes labels b'.program.symbols.symbols base.program.heap.size (textsOf (xs ++ [x.item]))
        x.item.opcode (some operand) (some w) := by
  rw [textsOf_concat, ho]
  unfold quoted?
  cases operand with
  | number n =>
    cases hr
    exact ⟨h, rfl, .number _⟩
  | name y =>
    unfold Draft.resolve at hr
    dsimp only at hr
    split at hr
    · next a ha =>
      cases hr
      refine ⟨h, rfl, ?_⟩
      split at ha
      · next hop =>
        obtain ⟨l, hl, rfl⟩ := Option.map_eq_some_iff.1 ha
        have hname : l.name = y := by simpa using List.find?_some hl
        rw [← hname]
        exact .label l hop (hlabels ▸ List.mem_of_find?_eq_some hl)
      · next hop =>
        obtain ⟨s, hs, rfl⟩ := Option.map_eq_some_iff.1 ha
        obtain ⟨hmem, hname⟩ := SymbolTable.get?_eq_some.1 hs
        rw [← hname]
        exact .symbol s (by simpa using hop) hmem
    · cases hr
  | string t =>
    unfold Draft.resolve at hr
    dsimp only at hr
    split at hr
    · cases hr
    · split at hr
      · next hop =>
        obtain ⟨h', hcode, rfl⟩ := h.signature (runBuild_eq_ok.1 hr)
        exact ⟨h', hcode, .text t hop (mem_intern ..)⟩
      · cases hr

theorem Emitted.emit (h : Emitted labels base xs b)
    (hx : x.item.operand.isSome = x.item.opcode.hasOperand) (he : d.emit b x = .ok b') :
    Emitted labels base (xs ++ [x.item]) b' := by
  obtain ⟨hinterned, is, his, hbecomes⟩ := h
  -- whatever the operand, a word is found for it and the instruction is appended
  obtain ⟨w, b₁, rfl, hinterned₁, hcode, hdenotes⟩ : ∃ w b₁,
      b₁.emitInstruction x.item.opcode w = b' ∧
      Interned base (textsOf (xs ++ [x.item])) b₁ ∧ b₁.code = b.code ∧
      Denotes labels b₁.program.symbols.symbols base.program.heap.size
        (textsOf (xs ++ [x.item])) x.item.opcode x.item.operand w := by
    unfold Draft.emit at he
    split at he
    · next ho =>
      cases he
      rw [textsOf_concat, ho]
      exact ⟨none, b, rfl, hinterned, rfl, .none⟩
    · next operand ho =>
      obtain ⟨⟨w, b₁⟩, hr, he⟩ := bind_eq_ok.1 he
      cases he
      obtain ⟨hinterned₁, hcode, hdenotes⟩ := hinterned.resolve hlabels ho hr
      rw [ho]
      exact ⟨some w, b₁, rfl, hinterned₁, hcode, hdenotes⟩
  have htexts : textsOf xs <+: textsOf (xs ++ [x.item]) :=
    textsOf_isPrefix (List.prefix_append ..)
  have hsymbols := hinterned.symbols_isPrefix hinterned₁ htexts
  refine ⟨⟨hinterned₁.program, hinterned₁.signatures⟩,
    is ++ [⟨UInt32.ofNat (0 + b.code.length), x.item.opcode, w⟩], ?_, ?_⟩
  · change decodeAll (b₁.code ++ Instruction.encodeWords x.item.opcode w) = _
    rw [hcode, decodeAll, Instruction.decodeFrom_append his,
      ← List.append_nil (Instruction.encodeWords _ _),
      Instruction.decodeFrom_encodeWords (hdenotes.isSome_eq.trans hx)]
    rfl
  · refine List.rel_append (hbecomes.imp fun y i hy => ?_) (.cons ⟨rfl, hdenotes⟩ .nil)
    exact ⟨hy.1, hy.2.mono hsymbols htexts⟩

end Emit

end EventVm.Assembly
