import EventVm.Assembly.Draft
import EventVm.Proofs.Failure
import EventVm.Proofs.Program.Tables

/-!
# Building steps

What each building step needs and what it makes of the builder. A declared variable takes the next
slot of the heap, and its symbol the next place of the table (`Builder.Declared`); a signature is
declared when it is first asked for.
-/

namespace EventVm

theorem SymbolTable.exists_addressOf? {t : SymbolTable} {name : String} (h : name ∈ t.names) :
    ∃ a, t.addressOf? name = some a := by
  obtain ⟨s, hs, rfl⟩ := List.mem_map.1 h
  exact ⟨s.address, congrArg (Option.map Symbol.address) (get?_of_mem hs)⟩

/-- Making a symbol visible changes nothing else of the symbols. -/
theorem SymbolTable.map_markExported {α : Type} {f : Symbol → α}
    (hf : ∀ s, f { s with exported := true } = f s) (t : SymbolTable) (name : String) :
    (t.markExported name).symbols.map f = t.symbols.map f := by
  rw [symbols_markExported, List.map_map]
  refine List.map_congr_left fun s _ => ?_
  simp only [Function.comp]
  split
  · exact hf s
  · rfl

theorem Builder.toList_signatureName (n : Nat) :
    (signatureName n).toList = "__extern_".toList ++ Nat.toDigits 10 n := by
  change ("__extern_" ++ Nat.repr n).toList = _
  rw [String.toList_append, Nat.toList_repr]

/-- Signatures get names of their own. -/
theorem Builder.signatureName_injective : Function.Injective signatureName := by
  intro m n h
  have hlists := congrArg String.toList h
  rw [toList_signatureName, toList_signatureName, List.append_cancel_left_eq] at hlists
  rw [← Nat.ofDigitChars_ten_toDigits (n := m), hlists, Nat.ofDigitChars_ten_toDigits]

/-- The second builder is the first one with a variable more, in a slot of its own. -/
def Builder.Declared (b : Builder) (name : String) (s : Slot) (b' : Builder) : Prop :=
  s.isWellTyped = true ∧ ∃ symbols,
    b.program.symbols.insert ⟨name, b.program.heap.nextAddress, s.declared, false⟩ = .ok symbols ∧
      b' = { b with program := { b.program with
        heap := ⟨b.program.heap.slots ++ [s]⟩, symbols } }

theorem Builder.exists_declared {b : Builder} {name : String} {s : Slot}
    (hs : s.isWellTyped = true) (hname : name ∉ b.program.symbols.names) :
    ∃ b', b.Declared name s b' := by
  obtain ⟨symbols, hinsert, -⟩ := SymbolTable.insert_of_fresh
    (s := ⟨name, b.program.heap.nextAddress, s.declared, false⟩)
    (mt SymbolTable.contains_iff.1 hname)
  exact ⟨_, hs, symbols, hinsert, rfl⟩

/-- Only a value that fits can be declared, and only under a fresh name. -/
theorem Builder.exists_declared_iff {b : Builder} {name : String} {s : Slot} :
    (∃ b', b.Declared name s b') ↔ s.isWellTyped = true ∧ name ∉ b.program.symbols.names := by
  constructor
  · rintro ⟨b', hs, symbols, hinsert, -⟩
    exact ⟨hs, (SymbolTable.insert_eq_ok.1 hinsert).1⟩
  · rintro ⟨hs, hname⟩
    exact exists_declared hs hname

namespace Build

variable {b b' : Builder} {name text : String} {type : TypeTag} {v : Value} {address : UInt32}
  {e : BuildError}

section Sequences

variable {α β : Type} {step : Build α} {next : α → Build β} {x : β}

theorem bind_run_eq_ok : (step >>= next).run b = .ok x b' ↔
    ∃ a b₁, step.run b = .ok a b₁ ∧ (next a).run b₁ = .ok x b' := by
  rw [EStateM.run_bind]
  cases step.run b with
  | ok a b₁ => simp
  | error e b₁ => simp

theorem bind_run_eq_error : (step >>= next).run b = .error e b' ↔
    step.run b = .error e b' ∨ ∃ a b₁, step.run b = .ok a b₁ ∧ (next a).run b₁ = .error e b' := by
  rw [EStateM.run_bind]
  cases step.run b with
  | ok a b₁ => simp
  | error e b₁ => simp

variable {f : α → β}

theorem map_run_eq_ok : (f <$> step).run b = .ok x b' ↔ ∃ a, step.run b = .ok a b' ∧ f a = x := by
  rw [EStateM.run_map]
  cases step.run b with
  | ok a b₁ => simp [and_comm]
  | error e b₁ => simp

theorem exists_map_run_ok :
    (∃ x b', (f <$> step).run b = .ok x b') ↔ ∃ a b', step.run b = .ok a b' := by
  rw [EStateM.run_map]
  cases step.run b with
  | ok a b₁ => simp
  | error e b₁ => simp

theorem exists_map_run_unit {step : Build Unit} {f : Unit → β} :
    (∃ x b', (f <$> step).run b = .ok x b') ↔ ∃ b', step.run b = .ok () b' :=
  exists_map_run_ok.trans Unique.exists_iff

theorem map_run_eq_error : (f <$> step).run b = .error e b' ↔ step.run b = .error e b' := by
  rw [EStateM.run_map]
  cases step.run b with
  | ok a b₁ => simp
  | error e b₁ => simp

end Sequences

/-! ### Declarations -/

/-- A name that is taken is refused before the heap is touched. -/
theorem run_declare_of_taken {extend : Heap → Except HeapError Heap}
    (h : name ∈ b.program.symbols.names) :
    (declare name type extend).run b = .error (.symbol (.duplicate name)) b := by
  have hc : b.program.symbols.contains name = true := SymbolTable.contains_iff.2 h
  unfold declare
  rw [EStateM.run_bind, EStateM.run_get]
  simp [EStateM.run_bind, hc]

/-- A fresh name is entered as soon as its slot is there: after the heap nothing can be refused. -/
theorem run_declare_of_fresh {extend : Heap → Except HeapError Heap} {symbols : SymbolTable}
    (h : b.program.symbols.insert ⟨name, b.program.heap.nextAddress, type, false⟩ = .ok symbols) :
    (declare name type extend).run b = match extend b.program.heap with
      | .error e => .error (.heap e) b
      | .ok heap => .ok b.program.heap.nextAddress
          { b with program := { b.program with heap, symbols } } := by
  have hc : ¬ b.program.symbols.contains name = true :=
    mt SymbolTable.contains_iff.1 (SymbolTable.insert_eq_ok.1 h).1
  unfold declare extendHeap enterSymbol
  cases he : extend b.program.heap with
  | error e => simp [EStateM.run_bind, hc, he]
  | ok heap => simp [EStateM.run_bind, hc, he, h]

theorem declare_eq_ok {extend : Heap → Except HeapError Heap} :
    (declare name type extend).run b = .ok address b' ↔
      ∃ heap symbols, extend b.program.heap = .ok heap ∧
        b.program.symbols.insert ⟨name, b.program.heap.nextAddress, type, false⟩ = .ok symbols ∧
        address = b.program.heap.nextAddress ∧
        b' = { b with program := { b.program with heap, symbols } } := by
  cases hinsert : b.program.symbols.insert ⟨name, b.program.heap.nextAddress, type, false⟩ with
  | error e =>
    have htaken : name ∈ b.program.symbols.names := by
      by_contra hfresh
      obtain ⟨symbols, hsymbols, -⟩ := SymbolTable.insert_of_fresh
        (s := ⟨name, b.program.heap.nextAddress, type, false⟩)
        (mt SymbolTable.contains_iff.1 hfresh)
      cases hinsert.symm.trans hsymbols
    rw [run_declare_of_taken htaken]
    simp
  | ok symbols =>
    rw [run_declare_of_fresh hinsert]
    cases extend b.program.heap with
    | error e => simp
    | ok heap => simp [eq_comm]

theorem variableWith_eq_ok : (variableWith name type v).run b = .ok address b' ↔
    address = b.program.heap.nextAddress ∧ b.Declared name ⟨type, .value v⟩ b' := by
  unfold variableWith
  rw [declare_eq_ok]
  unfold Heap.push Builder.Declared Slot.isWellTyped
  by_cases hv : v.fits type = true
  · simp [hv, and_left_comm]
  · simp [hv]

theorem exists_variableWith : (∃ address b', (variableWith name type v).run b = .ok address b') ↔
    v.fits type = true ∧ name ∉ b.program.symbols.names := by
  simp only [variableWith_eq_ok, exists_and_left, exists_eq_left]
  exact Builder.exists_declared_iff

theorem thisReference_eq_ok : (thisReference name type).run b = .ok address b' ↔
    address = b.program.heap.nextAddress ∧ b.Declared name ⟨type, .pending type⟩ b' := by
  unfold thisReference
  rw [declare_eq_ok]
  unfold Heap.pushPending Builder.Declared Slot.isWellTyped
  simp [and_left_comm]

/-- A refused declaration changes nothing. -/
theorem eq_of_declare_error {extend : Heap → Except HeapError Heap}
    (h : (declare name type extend).run b = .error e b') : b' = b := by
  by_cases hname : name ∈ b.program.symbols.names
  · rw [run_declare_of_taken hname] at h
    cases h
    rfl
  · obtain ⟨symbols, hinsert, -⟩ := SymbolTable.insert_of_fresh
      (s := ⟨name, b.program.heap.nextAddress, type, false⟩) (mt SymbolTable.contains_iff.1 hname)
    rw [run_declare_of_fresh hinsert] at h
    cases hextend : extend b.program.heap with
    | error =>
      rw [hextend] at h
      cases h
      rfl
    | ok =>
      rw [hextend] at h
      cases h

/-! ### Signatures -/

/-- The slot of a signature. -/
def signatureSlot (text : String) : Slot :=
  ⟨.string, .value (.string text)⟩

theorem signature_of_known (h : b.signatures.lookup text = some address) :
    (signature text).run b = .ok address b := by
  unfold signature
  simp [EStateM.run_bind, h]

/-- A signature met for the first time is declared, and known from then on. -/
theorem run_signature_of_new (h : b.signatures.lookup text = none) :
    (signature text).run b =
      match (variableWith (Builder.signatureName b.signatures.length) .string (.string text)).run b
        with
      | .ok address b₁ =>
        .ok address { b₁ with signatures := b.signatures ++ [(text, address)] }
      | .error e b₁ => .error e b₁ := by
  unfold signature
  simp only [EStateM.run_bind, EStateM.run_get, h]
  cases (variableWith _ .string (.string text)).run b with
  | ok => rfl
  | error => rfl

theorem signature_of_new (h : b.signatures.lookup text = none)
    (hs : (signature text).run b = .ok address b') :
    address = b.program.heap.nextAddress ∧
      ∃ b₁, b.Declared (Builder.signatureName b.signatures.length) (signatureSlot text) b₁ ∧
        b' = { b₁ with signatures := b.signatures ++ [(text, address)] } := by
  rw [run_signature_of_new h] at hs
  split at hs
  · next a b₁ hdeclare =>
    cases hs
    obtain ⟨rfl, hb₁⟩ := variableWith_eq_ok.1 hdeclare
    exact ⟨rfl, b₁, hb₁, rfl⟩
  · cases hs

/-- A new signature is refused if its name is taken. -/
theorem signature_of_taken (h : b.signatures.lookup text = none)
    (hname : Builder.signatureName b.signatures.length ∈ b.program.symbols.names) :
    (signature text).run b =
      .error (.symbol (.duplicate (Builder.signatureName b.signatures.length))) b := by
  rw [run_signature_of_new h, variableWith, run_declare_of_taken hname]

theorem exists_signature : (∃ address b', (signature text).run b = .ok address b') ↔
    (b.signatures.lookup text = none →
      Builder.signatureName b.signatures.length ∉ b.program.symbols.names) := by
  cases hknown : b.signatures.lookup text with
  | some address => simp [signature_of_known hknown]
  | none =>
    rw [run_signature_of_new hknown, imp_iff_right rfl]
    have hfits : (Value.string text).fits .string = true := rfl
    refine .trans ?_ (exists_variableWith.trans (and_iff_right hfits))
    cases (variableWith _ .string (.string text)).run b with
    | ok => simp
    | error => simp

/-- Once answered, a signature is known. -/
theorem lookup_of_signature (h : (signature text).run b = .ok address b') :
    b'.signatures.lookup text = some address := by
  cases hknown : b.signatures.lookup text with
  | some known =>
    rw [signature_of_known hknown] at h
    cases h
    exact hknown
  | none =>
    obtain ⟨rfl, b₁, -, rfl⟩ := signature_of_new hknown h
    rw [List.lookup_append, hknown]
    exact List.lookup_cons_self

theorem eq_of_signature_error (h : (signature text).run b = .error e b') : b' = b := by
  cases hknown : b.signatures.lookup text with
  | some address =>
    rw [signature_of_known hknown] at h
    cases h
  | none =>
    rw [run_signature_of_new hknown] at h
    split at h
    · cases h
    · next hdeclare =>
      cases h
      exact eq_of_declare_error hdeclare

theorem exists_emitCall : (∃ b', (emitCall text).run b = .ok () b') ↔
    (b.signatures.lookup text = none →
      Builder.signatureName b.signatures.length ∉ b.program.symbols.names) := by
  rw [← exists_signature]
  constructor
  · rintro ⟨b', h⟩
    obtain ⟨address, b₁, hsignature, -⟩ := bind_run_eq_ok.1 h
    exact ⟨address, b₁, hsignature⟩
  · rintro ⟨address, b₁, hsignature⟩
    exact ⟨_, bind_run_eq_ok.2 ⟨address, b₁, hsignature, rfl⟩⟩

/-! ### Exports, synced variables and entry points -/

theorem exportVariable_eq_ok : (exportVariable name).run b = .ok () b' ↔
    name ∈ b.program.symbols.names ∧
      b' = { b with program :=
        { b.program with symbols := b.program.symbols.markExported name } } := by
  have hnames : b.program.symbols.contains name = true ↔ name ∈ b.program.symbols.names :=
    SymbolTable.contains_iff
  unfold exportVariable
  rw [EStateM.run_bind, EStateM.run_get, ← hnames]
  by_cases hc : b.program.symbols.contains name = true
  · simp [hc, eq_comm]
  · simp [hc]

theorem eq_of_exportVariable_error (h : (exportVariable name).run b = .error e b') : b' = b := by
  unfold exportVariable at h
  rw [EStateM.run_bind, EStateM.run_get] at h
  dsimp only at h
  split at h
  · cases h
  · cases h
    rfl

theorem syncVariable_eq_ok {i : Interpolation} : (syncVariable name i).run b = .ok () b' ↔
    name ∈ b.program.symbols.names ∧
      b' = { b with program := { b.program with sync := b.program.sync.add name i } } := by
  have hnames : b.program.symbols.contains name = true ↔ name ∈ b.program.symbols.names :=
    SymbolTable.contains_iff
  unfold syncVariable
  rw [EStateM.run_bind, EStateM.run_get, ← hnames]
  by_cases hc : b.program.symbols.contains name = true
  · simp [hc, eq_comm]
  · simp [hc]

theorem eq_of_syncVariable_error {i : Interpolation}
    (h : (syncVariable name i).run b = .error e b') : b' = b := by
  unfold syncVariable at h
  rw [EStateM.run_bind, EStateM.run_get] at h
  dsimp only at h
  split at h
  · cases h
  · cases h
    rfl

theorem entryPointAt_eq_ok {exported : Bool} :
    (entryPointAt name address exported).run b = .ok () b' ↔
      ∃ entryPoints, b.program.entryPoints.insert ⟨name, address, .object, exported⟩ =
          .ok entryPoints ∧
        b' = { b with program := { b.program with entryPoints } } := by
  unfold entryPointAt
  rw [EStateM.run_bind, EStateM.run_get]
  cases he : b.program.entryPoints.insert ⟨name, address, .object, exported⟩ with
  | error e => simp [he]
  | ok entryPoints => simp [he, eq_comm]

/-- An entry point without an address of its own is declared at the end of the code. -/
theorem run_entryPoint {exported : Bool} : (entryPoint name exported).run b =
    ((fun _ => b.offset) <$> entryPointAt name b.offset exported).run b :=
  rfl

theorem eq_of_entryPointAt_error {exported : Bool}
    (h : (entryPointAt name address exported).run b = .error e b') : b' = b := by
  unfold entryPointAt at h
  rw [EStateM.run_bind, EStateM.run_get] at h
  dsimp only at h
  split at h
  · cases h
    rfl
  · cases h

theorem exists_entryPointAt {exported : Bool} :
    (∃ b', (entryPointAt name address exported).run b = .ok () b') ↔
      name ∉ b.program.entryPoints.names := by
  simp only [entryPointAt_eq_ok]
  constructor
  · rintro ⟨b', entryPoints, hinsert, -⟩
    exact (SymbolTable.insert_eq_ok.1 hinsert).1
  · intro hname
    obtain ⟨entryPoints, hinsert, -⟩ := SymbolTable.insert_of_fresh
      (s := ⟨name, address, .object, exported⟩) (mt SymbolTable.contains_iff.1 hname)
    exact ⟨_, entryPoints, hinsert, rfl⟩

end Build

namespace Assembly

theorem runBuild_eq_ok {α : Type} {b b' : Builder} {step : Build α} {a : α}
    {wrap : BuildError → AsmError} :
    runBuild b step wrap = .ok (a, b') ↔ step.run b = .ok a b' := by
  unfold runBuild
  cases step.run b with
  | ok a b₁ => simp
  | error e b₁ => simp

theorem runBuild_snd_eq_ok {b b' : Builder} {step : Build Unit} {wrap : BuildError → AsmError} :
    (do return (← runBuild b step wrap).2) = Except.ok b' ↔ step.run b = .ok () b' := by
  rw [bind_eq_ok]
  constructor
  · rintro ⟨⟨⟨⟩, b₁⟩, hrun, h⟩
    cases h
    exact runBuild_eq_ok.1 hrun
  · intro h
    exact ⟨((), b'), runBuild_eq_ok.2 h, rfl⟩

/-- The slot of a variable of a type with an initial value. -/
def Initial.slot (type : TypeTag) : Initial → Slot
  | .this => ⟨type, .pending type⟩
  | .value v => ⟨type, .value v⟩
  | .default => ⟨type, .value type.default⟩

@[simp]
theorem Initial.slot_declared (type : TypeTag) (initial : Initial) :
    (initial.slot type).declared = type := by
  cases initial <;> rfl

theorem Draft.declare_eq_ok {b b' : Builder} {name : String} {type : TypeTag} {initial : Initial}
    {address : UInt32} :
    (Draft.declare name type initial).run b = .ok address b' ↔
      address = b.program.heap.nextAddress ∧ b.Declared name (initial.slot type) b' := by
  cases initial with
  | this => exact Build.thisReference_eq_ok
  | value v => exact Build.variableWith_eq_ok
  | default => exact Build.variableWith_eq_ok

end Assembly

end EventVm
