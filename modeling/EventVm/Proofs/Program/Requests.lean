import EventVm.Proofs.Program.Building
import Mathlib.Data.List.Forall2
import Mathlib.Logic.Relation

/-!
# Requests to a builder

A builder is asked for one thing after the other (`Builder.Request`), and what it is asked for may be
refused (`Request.granted_iff`). Every request is a chain of single changes (`Builder.Change`); one
that is refused changes no more than the number of constants asked for (`Request.refused`).

A change only adds to what is declared (`Builder.Grows`) and keeps the heap and the table of symbols
in step (`Builder.InStep`). So every sequence of requests does (`built_in_step`): the symbols number
the slots, and an address that was answered stays the address of its declaration for good.
-/

namespace EventVm

/-- What of a symbol is settled when it is declared: name, address and type. -/
def Symbol.binding (s : Symbol) : String × UInt32 × TypeTag :=
  (s.name, s.address, s.type)

namespace Builder

/-! ### Changes -/

/-- A single change of a builder. -/
inductive Change (b : Builder) : Builder → Prop where
  | declared {name : String} {s : Slot} {b' : Builder} (declared : b.Declared name s b') :
    Change b b'
  | interned {text : String} {b' : Builder} (new : b.signatures.lookup text = none)
    (declared : b.Declared (signatureName b.signatures.length) (Build.signatureSlot text) b') :
    Change b { b' with signatures := b.signatures ++ [(text, b.program.heap.nextAddress)] }
  | numbered (n : Nat) : Change b { b with constants := n }
  | exported {name : String} (declared : name ∈ b.program.symbols.names) :
    Change b { b with program :=
      { b.program with symbols := b.program.symbols.markExported name } }
  | synced {name : String} (i : Interpolation) (declared : name ∈ b.program.symbols.names) :
    Change b { b with program := { b.program with sync := b.program.sync.add name i } }
  | entered {s : Symbol} {entryPoints : SymbolTable}
    (entered : b.program.entryPoints.insert s = .ok entryPoints) :
    Change b { b with program := { b.program with entryPoints } }
  | written (code : Bytes) : Change b { b with code }

/-- Changes one after the other. -/
abbrev Changes : Builder → Builder → Prop :=
  Relation.ReflTransGen Change

/-! ### What changes add -/

/-- The variables, slots, entry points and signatures of the second builder are those of the first
one and perhaps more. A variable may have become visible. -/
structure Grows (b b' : Builder) : Prop where
  slots : b.program.heap.slots <+: b'.program.heap.slots
  bindings : b.program.symbols.symbols.map Symbol.binding <+:
    b'.program.symbols.symbols.map Symbol.binding
  entryPoints : b.program.entryPoints.symbols <+: b'.program.entryPoints.symbols
  signatures : b.signatures <+: b'.signatures

section Growth

variable {b b' b'' : Builder} {name text : String} {s : Slot} {address : UInt32}

theorem Grows.refl (b : Builder) : b.Grows b :=
  ⟨List.prefix_rfl, List.prefix_rfl, List.prefix_rfl, List.prefix_rfl⟩

theorem Grows.trans (h : b.Grows b') (h' : b'.Grows b'') : b.Grows b'' :=
  ⟨h.slots.trans h'.slots, h.bindings.trans h'.bindings, h.entryPoints.trans h'.entryPoints,
    h.signatures.trans h'.signatures⟩

theorem Declared.grows (h : b.Declared name s b') : b.Grows b' := by
  obtain ⟨-, symbols, hinsert, rfl⟩ := h
  obtain ⟨-, hsymbols⟩ := SymbolTable.insert_eq_ok.1 hinsert
  refine ⟨List.prefix_append .., ?_, List.prefix_rfl, List.prefix_rfl⟩
  rw [hsymbols, List.map_append]
  exact List.prefix_append ..

theorem Declared.signatures_eq (h : b.Declared name s b') : b'.signatures = b.signatures := by
  obtain ⟨-, symbols, -, rfl⟩ := h
  rfl

theorem Change.grows (h : b.Change b') : b.Grows b' := by
  cases h with
  | declared declared => exact declared.grows
  | interned new declared =>
    exact ⟨declared.grows.slots, declared.grows.bindings, declared.grows.entryPoints,
      List.prefix_append ..⟩
  | exported =>
    refine ⟨List.prefix_rfl, ?_, List.prefix_rfl, List.prefix_rfl⟩
    rw [SymbolTable.map_markExported fun _ => rfl]
  | entered entered =>
    refine ⟨List.prefix_rfl, List.prefix_rfl, ?_, List.prefix_rfl⟩
    rw [(SymbolTable.insert_eq_ok.1 entered).2]
    exact List.prefix_append ..
  | numbered | synced | written =>
    exact ⟨List.prefix_rfl, List.prefix_rfl, List.prefix_rfl, List.prefix_rfl⟩

theorem Changes.grows (h : b.Changes b') : b.Grows b' := by
  induction h with
  | refl => exact .refl b
  | tail _ change ih => exact ih.trans change.grows

/-- Names that are declared stay declared. -/
theorem Grows.mem_names (h : b.Grows b') (hname : name ∈ b.program.symbols.names) :
    name ∈ b'.program.symbols.names := by
  have hnames : ∀ t : SymbolTable, t.names = (t.symbols.map Symbol.binding).map Prod.fst := by
    intro t
    rw [List.map_map]
    rfl
  rw [hnames] at hname ⊢
  exact (h.bindings.map Prod.fst).subset hname

/-- Signatures that are known keep their addresses. -/
theorem Grows.lookup_eq_some (h : b.Grows b') (hknown : b.signatures.lookup text = some address) :
    b'.signatures.lookup text = some address := by
  obtain ⟨more, hmore⟩ := h.signatures
  rw [← hmore, List.lookup_append, hknown]
  rfl

end Growth

/-! ### Slots and symbols in step -/

/-- The variable `name` was declared with the slot `s`, at the address given. -/
def Holds (b : Builder) (address : UInt32) (name : String) (s : Slot) : Prop :=
  ∃ i, address = UInt32.ofNat i ∧ b.program.heap.slots[i]? = some s ∧
    (b.program.symbols.symbols.map Symbol.binding)[i]? = some (name, address, s.declared)

/-- The symbols number the slots and have their types, what a slot holds fits it, synced variables
are declared, and a signature stands in the slot that is known for it. -/
structure InStep (b : Builder) : Prop where
  typed : List.Forall₂ (fun (s : Symbol) (slot : Slot) => s.type = slot.declared)
    b.program.symbols.symbols b.program.heap.slots
  numbered : b.program.symbols.symbols.map Symbol.address =
    (List.range b.program.symbols.size).map UInt32.ofNat
  wellTyped : ∀ s ∈ b.program.heap.slots, s.isWellTyped = true
  synced : ∀ e ∈ b.program.sync.entries, e.name ∈ b.program.symbols.names
  interned : ∀ x ∈ b.signatures, ∃ n, b.Holds x.2 (signatureName n) (Build.signatureSlot x.1)

section Steps

variable {b b' : Builder} {name text : String} {s : Slot} {address : UInt32}

theorem Grows.holds (h : b.Grows b') (hb : b.Holds address name s) : b'.Holds address name s := by
  obtain ⟨i, hi, hslot, hbinding⟩ := hb
  obtain ⟨slots, hslots⟩ := h.slots
  obtain ⟨bindings, hbindings⟩ := h.bindings
  refine ⟨i, hi, ?_, ?_⟩
  · rw [← hslots, List.getElem?_append_left (List.getElem?_eq_some_iff.1 hslot).1, hslot]
  · rw [← hbindings, List.getElem?_append_left (List.getElem?_eq_some_iff.1 hbinding).1, hbinding]

theorem InStep.new (name : String) : (Builder.new name).InStep where
  typed := .nil
  numbered := rfl
  wellTyped := nofun
  synced := nofun
  interned := nofun

theorem InStep.size_eq (h : b.InStep) : b.program.symbols.size = b.program.heap.size :=
  h.typed.length_eq

/-- A declared variable has the address that was free. -/
theorem InStep.holds_of_declared (h : b.InStep) (hd : b.Declared name s b') :
    b'.Holds b.program.heap.nextAddress name s := by
  obtain ⟨-, symbols, hinsert, rfl⟩ := hd
  obtain ⟨-, hsymbols⟩ := SymbolTable.insert_eq_ok.1 hinsert
  refine ⟨b.program.heap.size, rfl, List.getElem?_concat_length, ?_⟩
  rw [hsymbols, List.map_append, ← h.size_eq, SymbolTable.size,
    ← List.length_map (f := Symbol.binding)]
  exact List.getElem?_concat_length

theorem InStep.of_declared (h : b.InStep) (hd : b.Declared name s b') : b'.InStep := by
  have hgrows := hd.grows
  have hsize := h.size_eq
  obtain ⟨hs, symbols, hinsert, rfl⟩ := hd
  obtain ⟨-, hsymbols⟩ := SymbolTable.insert_eq_ok.1 hinsert
  constructor
  case typed =>
    rw [hsymbols]
    exact List.rel_append h.typed (.cons rfl .nil)
  case numbered =>
    rw [SymbolTable.size, hsymbols, List.map_append, h.numbered, List.length_append,
      List.length_singleton, List.range_succ, List.map_append, List.map_singleton,
      List.map_singleton]
    dsimp only
    rw [Heap.nextAddress, ← hsize]
    rfl
  case wellTyped =>
    intro slot hslot
    obtain hslot | hslot := List.mem_append.1 hslot
    · exact h.wellTyped slot hslot
    · exact List.mem_singleton.1 hslot ▸ hs
  case synced => exact fun e he => hgrows.mem_names (h.synced e he)
  case interned =>
    intro x hx
    obtain ⟨n, hn⟩ := h.interned x hx
    exact ⟨n, hgrows.holds hn⟩

/-- Adding a synced variable brings no other name in. -/
theorem mem_names_of_add {t : SyncTable} {i : Interpolation} {e : SyncEntry}
    (he : e ∈ (t.add name i).entries) : e.name = name ∨ ∃ e' ∈ t.entries, e'.name = e.name := by
  unfold SyncTable.add at he
  split at he
  · obtain ⟨e', he', rfl⟩ := List.mem_map.1 he
    split
    · exact .inl rfl
    · exact .inr ⟨e', he', rfl⟩
  · obtain he | he := List.mem_append.1 he
    · exact .inr ⟨e, he, rfl⟩
    · exact .inl (congrArg SyncEntry.name (List.mem_singleton.1 he))

theorem Change.inStep (h : b.Change b') (hb : b.InStep) : b'.InStep := by
  have hgrows := h.grows
  cases h with
  | declared declared => exact hb.of_declared declared
  | @interned text b₁ new declared =>
    have hholds := hb.holds_of_declared declared
    obtain ⟨typed, numbered, wellTyped, synced, interned⟩ := hb.of_declared declared
    refine ⟨typed, numbered, wellTyped, synced, fun x hx => ?_⟩
    obtain hx | hx := List.mem_append.1 hx
    · rw [← declared.signatures_eq] at hx
      exact interned x hx
    · obtain rfl := List.mem_singleton.1 hx
      exact ⟨_, hholds⟩
  | @exported name declared =>
    constructor
    case typed =>
      dsimp only
      rw [SymbolTable.symbols_markExported, List.forall₂_map_left_iff]
      refine hb.typed.imp fun s slot hs => ?_
      split <;> exact hs
    case numbered =>
      have hsize : (b.program.symbols.markExported name).size = b.program.symbols.size := by
        rw [SymbolTable.size, SymbolTable.symbols_markExported, List.length_map]
        rfl
      dsimp only
      rw [SymbolTable.map_markExported fun _ => rfl, hsize, hb.numbered]
    case wellTyped => exact hb.wellTyped
    case synced => exact fun e he => hgrows.mem_names (hb.synced e he)
    case interned =>
      intro x hx
      obtain ⟨n, hn⟩ := hb.interned x hx
      exact ⟨n, hgrows.holds hn⟩
  | @synced name i declared =>
    refine ⟨hb.typed, hb.numbered, hb.wellTyped, fun e he => ?_, hb.interned⟩
    obtain hname | ⟨e', he', hname⟩ := mem_names_of_add he
    · exact hname ▸ declared
    · exact hname ▸ hb.synced e' he'
  | numbered | entered | written =>
    exact ⟨hb.typed, hb.numbered, hb.wellTyped, hb.synced, hb.interned⟩

theorem Changes.inStep (h : b.Changes b') (hb : b.InStep) : b'.InStep := by
  induction h with
  | refl => exact hb
  | tail _ change ih => exact change.inStep ih

end Steps

/-! ### Requests -/

/-- What a builder can be asked for. -/
inductive Request where
  | declare (name : String) (type : TypeTag) (v : Value)
  | declareDefault (name : String) (type : TypeTag)
  | declareThis (name : String) (type : TypeTag)
  | constant (type : TypeTag) (v : Value)
  | signature (text : String)
  | call (text : String)
  | exportVariable (name : String)
  | syncVariable (name : String) (i : Interpolation)
  | entryPoint (name : String) (exported : Bool)
  | entryPointAt (name : String) (address : UInt32) (exported : Bool)
  | write (bytes : Bytes)
  deriving DecidableEq, Repr

/-- The step that a request asks for, with the address that it answers if it answers one. -/
def Request.perform : Request → Build (Option UInt32)
  | declare name type v => some <$> Build.variableWith name type v
  | declareDefault name type => some <$> Build.defaultVariable name type
  | declareThis name type => some <$> Build.thisReference name type
  | constant type v => some <$> Build.constant type v
  | signature text => some <$> Build.signature text
  | call text => (fun _ => none) <$> Build.emitCall text
  | exportVariable name => (fun _ => none) <$> Build.exportVariable name
  | syncVariable name i => (fun _ => none) <$> Build.syncVariable name i
  | entryPoint name exported => some <$> Build.entryPoint name exported
  | entryPointAt name address exported =>
    (fun _ => none) <$> Build.entryPointAt name address exported
  | write bytes => (fun _ => none) <$> modify (·.emit bytes)

/-- The builder that a request leaves, granted or refused. -/
def after (b : Builder) (r : Request) : Builder :=
  match r.perform.run b with
  | .ok _ b' => b'
  | .error _ b' => b'

/-- The builder that requests one after the other leave. -/
def afterAll (b : Builder) (rs : List Request) : Builder :=
  rs.foldl after b

section Requests

variable {b b' : Builder} {name text : String} {type : TypeTag} {v : Value} {s : Slot}
  {address : UInt32} {r : Request} {rs : List Request} {answer : Option UInt32} {e : BuildError}

theorem afterAll_append (b : Builder) (before after : List Request) :
    b.afterAll (before ++ after) = (b.afterAll before).afterAll after :=
  List.foldl_append

theorem afterAll_cons (b : Builder) (r : Request) (rs : List Request) :
    b.afterAll (r :: rs) = (b.after r).afterAll rs :=
  rfl

theorem after_of_ok (h : r.perform.run b = .ok answer b') : b.after r = b' := by
  unfold after
  rw [h]

theorem after_of_error (h : r.perform.run b = .error e b') : b.after r = b' := by
  unfold after
  rw [h]

/-! ### Refused requests -/

/-- A refused request changes no more than the number of constants asked for. -/
theorem Request.refused (h : r.perform.run b = .error e b') :
    ∃ n, b' = { b with constants := n } := by
  cases r with
  | declare | declareDefault | declareThis =>
    exact ⟨_, Build.eq_of_declare_error (Build.map_run_eq_error.1 h)⟩
  | constant type v =>
    exact ⟨b.constants + 1, Build.eq_of_declare_error (Build.map_run_eq_error.1 h)⟩
  | signature text => exact ⟨_, Build.eq_of_signature_error (Build.map_run_eq_error.1 h)⟩
  | call text =>
    obtain h | ⟨address, b₁, -, h⟩ := Build.bind_run_eq_error.1 (Build.map_run_eq_error.1 h)
    · exact ⟨_, Build.eq_of_signature_error h⟩
    · cases h
  | exportVariable name =>
    exact ⟨_, Build.eq_of_exportVariable_error (Build.map_run_eq_error.1 h)⟩
  | syncVariable name i =>
    exact ⟨_, Build.eq_of_syncVariable_error (Build.map_run_eq_error.1 h)⟩
  | entryPoint name exported =>
    have h := Build.map_run_eq_error.1 h
    rw [Build.run_entryPoint] at h
    exact ⟨_, Build.eq_of_entryPointAt_error (Build.map_run_eq_error.1 h)⟩
  | entryPointAt name address exported =>
    exact ⟨_, Build.eq_of_entryPointAt_error (Build.map_run_eq_error.1 h)⟩
  | write bytes => cases Build.map_run_eq_error.1 h

/-! ### Granted requests -/

/-- What a request needs: a declaration a fresh name and a value that fits, the other requests a
name that is declared. -/
def Request.Admissible (b : Builder) : Request → Prop
  | declare name type v => v.fits type = true ∧ name ∉ b.program.symbols.names
  | declareDefault name _ | declareThis name _ => name ∉ b.program.symbols.names
  | constant type v => v.fits type = true ∧ constantName b.constants ∉ b.program.symbols.names
  | signature text | call text =>
    b.signatures.lookup text = none → signatureName b.signatures.length ∉ b.program.symbols.names
  | exportVariable name | syncVariable name _ => name ∈ b.program.symbols.names
  | entryPoint name _ | entryPointAt name _ _ => name ∉ b.program.entryPoints.names
  | write _ => True

theorem Request.granted_iff :
    (∃ answer b', r.perform.run b = .ok answer b') ↔ r.Admissible b := by
  cases r with
  | declare name type v =>
    unfold perform
    rw [Build.exists_map_run_ok]
    exact Build.exists_variableWith
  | declareDefault name type =>
    unfold perform
    rw [Build.exists_map_run_ok]
    exact Build.exists_variableWith.trans (and_iff_right (Value.fits_default type))
  | declareThis name type =>
    unfold perform
    rw [Build.exists_map_run_ok]
    simp only [Build.thisReference_eq_ok, exists_and_left, exists_eq_left]
    exact exists_declared_iff.trans (and_iff_right rfl)
  | constant type v =>
    unfold perform
    rw [Build.exists_map_run_ok]
    exact Build.exists_variableWith (b := { b with constants := b.constants + 1 })
  | signature text =>
    unfold perform
    rw [Build.exists_map_run_ok]
    exact Build.exists_signature
  | call text =>
    unfold perform
    rw [Build.exists_map_run_unit]
    exact Build.exists_emitCall
  | exportVariable name =>
    unfold perform
    rw [Build.exists_map_run_unit]
    simp only [Build.exportVariable_eq_ok, exists_and_left, exists_eq, and_true]
    rfl
  | syncVariable name i =>
    unfold perform
    rw [Build.exists_map_run_unit]
    simp only [Build.syncVariable_eq_ok, exists_and_left, exists_eq, and_true]
    rfl
  | entryPoint name exported =>
    unfold perform
    rw [Build.exists_map_run_ok, Build.run_entryPoint, Build.exists_map_run_unit]
    exact Build.exists_entryPointAt
  | entryPointAt name address exported =>
    unfold perform
    rw [Build.exists_map_run_unit]
    exact Build.exists_entryPointAt
  | write bytes => exact iff_of_true ⟨_, _, rfl⟩ trivial

theorem changes_of_signature (h : (Build.signature text).run b = .ok address b') :
    b.Changes b' := by
  cases hknown : b.signatures.lookup text with
  | some =>
    rw [Build.signature_of_known hknown] at h
    cases h
    exact .refl
  | none =>
    obtain ⟨rfl, b₁, declared, rfl⟩ := Build.signature_of_new hknown h
    exact .single (.interned hknown declared)

theorem changes_of_entryPointAt {exported : Bool}
    (h : (Build.entryPointAt name address exported).run b = .ok () b') : b.Changes b' := by
  obtain ⟨entryPoints, entered, rfl⟩ := Build.entryPointAt_eq_ok.1 h
  exact .single (.entered entered)

/-- A granted request is a chain of changes. -/
theorem Request.changes (h : r.perform.run b = .ok answer b') : b.Changes b' := by
  cases r with
  | declare name type v =>
    obtain ⟨address, h, -⟩ := Build.map_run_eq_ok.1 h
    exact .single (.declared (Build.variableWith_eq_ok.1 h).2)
  | declareDefault name type =>
    obtain ⟨address, h, -⟩ := Build.map_run_eq_ok.1 h
    exact .single (.declared (Build.variableWith_eq_ok.1 h).2)
  | declareThis name type =>
    obtain ⟨address, h, -⟩ := Build.map_run_eq_ok.1 h
    exact .single (.declared (Build.thisReference_eq_ok.1 h).2)
  | constant type v =>
    obtain ⟨address, h, -⟩ := Build.map_run_eq_ok.1 h
    have numbered : b.Change { b with constants := b.constants + 1 } := .numbered _
    exact .head numbered (.single (.declared (Build.variableWith_eq_ok.1 h).2))
  | signature text =>
    obtain ⟨address, h, -⟩ := Build.map_run_eq_ok.1 h
    exact changes_of_signature h
  | call text =>
    obtain ⟨⟨⟩, h, -⟩ := Build.map_run_eq_ok.1 h
    obtain ⟨address, b₁, hsignature, hwrite⟩ := Build.bind_run_eq_ok.1 h
    cases hwrite
    exact (changes_of_signature hsignature).tail (.written _)
  | exportVariable name =>
    obtain ⟨⟨⟩, h, -⟩ := Build.map_run_eq_ok.1 h
    obtain ⟨declared, rfl⟩ := Build.exportVariable_eq_ok.1 h
    exact .single (.exported declared)
  | syncVariable name i =>
    obtain ⟨⟨⟩, h, -⟩ := Build.map_run_eq_ok.1 h
    obtain ⟨declared, rfl⟩ := Build.syncVariable_eq_ok.1 h
    exact .single (.synced i declared)
  | entryPoint name exported =>
    obtain ⟨address, h, -⟩ := Build.map_run_eq_ok.1 h
    rw [Build.run_entryPoint] at h
    obtain ⟨⟨⟩, h, -⟩ := Build.map_run_eq_ok.1 h
    exact changes_of_entryPointAt h
  | entryPointAt name address exported =>
    obtain ⟨⟨⟩, h, -⟩ := Build.map_run_eq_ok.1 h
    exact changes_of_entryPointAt h
  | write bytes =>
    obtain ⟨⟨⟩, h, -⟩ := Build.map_run_eq_ok.1 h
    cases h
    exact .single (.written _)

theorem changes_after (b : Builder) (r : Request) : b.Changes (b.after r) := by
  cases h : r.perform.run b with
  | ok answer b' =>
    rw [after_of_ok h]
    exact Request.changes h
  | error e b' =>
    rw [after_of_error h]
    obtain ⟨n, rfl⟩ := Request.refused h
    exact .single (.numbered n)

/-- Requests, granted or refused, are a chain of changes. -/
theorem changes_afterAll (b : Builder) (rs : List Request) : b.Changes (b.afterAll rs) := by
  induction rs generalizing b with
  | nil => exact .refl
  | cons r rs ih => exact (changes_after b r).trans (ih (b.after r))

/-! ### Answers -/

/-- The name is bound to the address, where the slot stands. -/
def Bound (b : Builder) (address : UInt32) (name : String) (s : Slot) : Prop :=
  (∃ exported, b.program.symbols.get? name = some ⟨name, address, s.declared, exported⟩) ∧
    b.program.heap.slot? address = some s

/-- What an address that a request answered stands for. -/
def Request.Stands (b : Builder) (address : UInt32) : Request → Prop
  | declare name type v => b.Bound address name ⟨type, .value v⟩
  | declareDefault name type => b.Bound address name ⟨type, .value type.default⟩
  | declareThis name type => b.Bound address name ⟨type, .pending type⟩
  | constant type v => ∃ n, b.Bound address (constantName n) ⟨type, .value v⟩
  | signature text => ∃ n, b.Bound address (signatureName n) (Build.signatureSlot text)
  | entryPoint name exported =>
    b.program.entryPoints.get? name = some ⟨name, address, .object, exported⟩
  -- The others answer no address.
  | call _ | exportVariable _ | syncVariable _ _ | entryPointAt _ _ _ | write _ => False

/-- As long as the addresses do not wrap around, a declaration can be looked up. -/
theorem Holds.bound (h : b.Holds address name s) (hsize : b.program.heap.size ≤ 2 ^ 32) :
    b.Bound address name s := by
  obtain ⟨i, hi, hslot, hbinding⟩ := h
  constructor
  · obtain ⟨⟨_, _, _, exported⟩, hsymbol, heq⟩ := List.mem_map.1 (List.mem_of_getElem? hbinding)
    cases heq
    exact ⟨exported, SymbolTable.get?_of_mem hsymbol⟩
  · subst hi
    have hi : i < 2 ^ 32 := Nat.lt_of_lt_of_le (List.getElem?_eq_some_iff.1 hslot).1 hsize
    rw [Heap.slot?, UInt32.toNat_ofNat_of_lt' hi, hslot]

/-- A signature stands where it was found or put. -/
theorem InStep.holds_of_signature (hb : b.InStep)
    (h : (Build.signature text).run b = .ok address b') :
    ∃ n, b'.Holds address (signatureName n) (Build.signatureSlot text) := by
  obtain ⟨before, after, hmem, -⟩ := List.lookup_eq_some_iff.1 (Build.lookup_of_signature h)
  have hknown : (text, address) ∈ b'.signatures := by simp [hmem]
  exact ((changes_of_signature h).inStep hb).interned _ hknown

/-- An answered address stands for its declaration, whatever is changed later. -/
theorem Request.stands {b'' : Builder} (hb : b.InStep)
    (h : r.perform.run b = .ok (some address) b') (hlater : b'.Changes b'')
    (hsize : b''.program.heap.size ≤ 2 ^ 32) : r.Stands b'' address := by
  have hbound {name : String} {s : Slot} (hb' : b'.Holds address name s) :
      b''.Bound address name s := (hlater.grows.holds hb').bound hsize
  cases r with
  | declare name type v =>
    obtain ⟨_, h, ⟨⟩⟩ := Build.map_run_eq_ok.1 h
    obtain ⟨rfl, declared⟩ := Build.variableWith_eq_ok.1 h
    exact hbound (hb.holds_of_declared declared)
  | declareDefault name type =>
    obtain ⟨_, h, ⟨⟩⟩ := Build.map_run_eq_ok.1 h
    obtain ⟨rfl, declared⟩ := Build.variableWith_eq_ok.1 h
    exact hbound (hb.holds_of_declared declared)
  | declareThis name type =>
    obtain ⟨_, h, ⟨⟩⟩ := Build.map_run_eq_ok.1 h
    obtain ⟨rfl, declared⟩ := Build.thisReference_eq_ok.1 h
    exact hbound (hb.holds_of_declared declared)
  | constant type v =>
    obtain ⟨_, h, ⟨⟩⟩ := Build.map_run_eq_ok.1 h
    obtain ⟨rfl, declared⟩ := Build.variableWith_eq_ok.1 h
    have hnumbered := (Change.numbered (b.constants + 1)).inStep hb
    exact ⟨b.constants, hbound (hnumbered.holds_of_declared declared)⟩
  | signature text =>
    obtain ⟨_, h, ⟨⟩⟩ := Build.map_run_eq_ok.1 h
    obtain ⟨n, hholds⟩ := hb.holds_of_signature h
    exact ⟨n, hbound hholds⟩
  | entryPoint name exported =>
    obtain ⟨_, h, ⟨⟩⟩ := Build.map_run_eq_ok.1 h
    rw [Build.run_entryPoint] at h
    obtain ⟨⟨⟩, hdeclared, rfl⟩ := Build.map_run_eq_ok.1 h
    obtain ⟨entryPoints, entered, rfl⟩ := Build.entryPointAt_eq_ok.1 hdeclared
    have hmem : ⟨name, b.offset, .object, exported⟩ ∈ entryPoints.symbols := by
      simp [(SymbolTable.insert_eq_ok.1 entered).2]
    exact SymbolTable.get?_of_mem (hlater.grows.entryPoints.subset hmem)
  | call | exportVariable | syncVariable | entryPointAt | write =>
    obtain ⟨_, -, hnone⟩ := Build.map_run_eq_ok.1 h
    cases hnone

/-! ### Sequences of requests -/

theorem inStep_afterAll (name : String) (rs : List Request) : ((new name).afterAll rs).InStep :=
  (changes_afterAll (new name) rs).inStep (.new name)

/-- The symbol of a slot has the slot's position for its address, and the slot its type. -/
theorem InStep.slot?_address (hb : b.InStep) (hsize : b.program.symbols.size ≤ 2 ^ 32) {i : Nat}
    {symbol : Symbol} (hi : b.program.symbols.symbols[i]? = some symbol) :
    symbol.address.toNat = i ∧
      ∃ slot, b.program.heap.slot? symbol.address = some slot ∧ slot.declared = symbol.type := by
  have hlt : i < b.program.symbols.size := (List.getElem?_eq_some_iff.1 hi).1
  have haddress : symbol.address.toNat = i := by
    have hnumbered : some symbol.address = some (UInt32.ofNat i) := by
      rw [← Option.map_some, ← hi, ← List.getElem?_map, hb.numbered, List.getElem?_map,
        List.getElem?_range hlt, Option.map_some]
    rw [Option.some.inj hnumbered, UInt32.toNat_ofNat_of_lt' (Nat.lt_of_lt_of_le hlt hsize)]
  refine ⟨haddress, ?_⟩
  have hslot : i < b.program.heap.slots.length := hb.typed.length_eq ▸ hlt
  refine ⟨b.program.heap.slots[i], ?_, ?_⟩
  · rw [Heap.slot?, haddress, List.getElem?_eq_getElem hslot]
  · obtain ⟨_, rfl⟩ := List.getElem?_eq_some_iff.1 hi
    exact (hb.typed.get hlt hslot).symm

/-- After any requests, granted or refused, the `i`-th symbol has the address `i` and the type of
the slot there, what a slot holds fits it, no two variables and no two entry points have one name,
and synced variables are declared. An address that was answered on the way stands for its
declaration. What is not admissible is refused, and leaves program and code as they were. -/
theorem built_in_step (name : String) (rs : List Request)
    (hsize : ((new name).afterAll rs).program.symbols.size ≤ 2 ^ 32) :
    let b := (new name).afterAll rs
    b.program.symbols.size = b.program.heap.size ∧
    (∀ (i : Nat) (symbol : Symbol), b.program.symbols.symbols[i]? = some symbol →
      symbol.address.toNat = i ∧
        ∃ slot, b.program.heap.slot? symbol.address = some slot ∧ slot.declared = symbol.type) ∧
    (∀ slot ∈ b.program.heap.slots, slot.isWellTyped = true) ∧
    b.program.symbols.names.Nodup ∧ b.program.entryPoints.names.Nodup ∧
    (∀ e ∈ b.program.sync.entries, e.name ∈ b.program.symbols.names) ∧
    (∀ (before after : List Request) (r : Request) (address : UInt32) (b' : Builder),
      rs = before ++ r :: after →
      r.perform.run ((new name).afterAll before) = .ok (some address) b' → r.Stands b address) ∧
    ∀ r : Request, ((∃ answer b', r.perform.run b = .ok answer b') ↔ r.Admissible b) ∧
      ∀ e b', r.perform.run b = .error e b' → b'.program = b.program ∧ b'.code = b.code := by
  intro b
  have hb : b.InStep := inStep_afterAll name rs
  refine ⟨hb.size_eq, fun i symbol hi => hb.slot?_address hsize hi, hb.wellTyped,
    b.program.symbols.names_nodup, b.program.entryPoints.names_nodup, hb.synced, ?_, ?_⟩
  · intro before after r address b' hrs h
    have hlater : b'.Changes b := by
      have hsplit : b = b'.afterAll after := by
        rw [← after_of_ok h, ← afterAll_cons, ← afterAll_append, ← hrs]
      exact hsplit ▸ changes_afterAll b' after
    exact Request.stands (inStep_afterAll name before) h hlater (hb.size_eq ▸ hsize)
  · refine fun r => ⟨Request.granted_iff, fun e b' h => ?_⟩
    obtain ⟨n, rfl⟩ := Request.refused h
    exact ⟨rfl, rfl⟩

/-- Four of these requests are refused: a name declared again, a value that does not fit, the export
of an undeclared name, and an entry point declared again. -/
theorem built_in_step_refusing :
    let before : List Request := [.declare "n" .int32 (.int32 7),
      .declare "n" .string (.string "x"), .constant .int32 (.string "y")]
    let after : List Request := [.exportVariable "m", .syncVariable "n" .linear, .call "g",
      .entryPoint "_start" true, .entryPointAt "_start" 0 false]
    let b := (new "p").afterAll (before ++ .signature "f" :: after)
    b.program.symbols.size ≤ 2 ^ 32 ∧ (Request.signature "f").Stands b 1 := by
  intro before after b
  have hsize : b.program.symbols.size ≤ 2 ^ 32 := by decide
  obtain ⟨-, -, -, -, -, -, hstands, -⟩ :=
    built_in_step "p" (before ++ .signature "f" :: after) hsize
  exact ⟨hsize, hstands before after (.signature "f") 1 _ rfl rfl⟩

end Requests

end Builder

end EventVm
