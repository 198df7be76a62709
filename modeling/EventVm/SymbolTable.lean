import EventVm.Value.TypeTag

/-!
# Symbol tables

A symbol table binds names to addresses, in order of declaration. One kind of table serves the
variables, bound to heap addresses, and the entry points, bound to code offsets. No name occurs
twice: a second declaration is refused. Names are looked up in an index beside the list:
`SymbolTable.Raw` is a list with any index, and a `SymbolTable` is one whose index fits.
-/

namespace EventVm

/-- Why a symbol could not be declared. -/
inductive SymbolError where
  | duplicate (name : String)
  deriving DecidableEq, Repr

/-- The text of a symbol error. -/
def SymbolError.message : SymbolError → String
  | duplicate name => s!"Duplicate symbol: {name}"

/-- A name bound to an address. -/
structure Symbol where
  name : String
  /-- A heap address, or a code offset for entry points. -/
  address : UInt32
  /-- The declared type, `object` for entry points. -/
  type : TypeTag
  /-- Whether the name is visible from outside. -/
  exported : Bool
  deriving DecidableEq, Repr

namespace Symbol

/-- The encoding: name, address, type and whether exported. -/
def encode (s : Symbol) : Bytes :=
  Write.string s.name ++ Write.u32 s.address ++ s.type.encode ++ Write.flag s.exported

/-- Takes a symbol. It is exported unless the last byte is zero. -/
def decode : Reader Symbol := do
  let name ← Reader.string
  let address ← Reader.u32
  let type ← TypeTag.decode
  let exported ← Reader.u8
  return ⟨name, address, type, exported != 0⟩

end Symbol

/-! ### Lists with an index -/

/-- Symbols in order of declaration and an index in which names are looked up. The two need not fit
together. -/
structure SymbolTable.Raw where
  symbols : List Symbol
  /-- Where the symbol of a name stands. -/
  index : String → Option Nat

namespace SymbolTable.Raw

/-- No symbols. -/
def empty : Raw :=
  ⟨[], fun _ => none⟩

/-- The symbol with a name. -/
def get? (t : Raw) (name : String) : Option Symbol :=
  (t.index name).bind fun i => t.symbols[i]?

/-- Whether a name is declared. -/
def contains (t : Raw) (name : String) : Bool :=
  (t.index name).isSome

/-- The address bound to a name. -/
def addressOf? (t : Raw) (name : String) : Option UInt32 :=
  (t.get? name).map Symbol.address

/-- The first symbol bound to an address. -/
def at? (t : Raw) (address : UInt32) : Option Symbol :=
  t.symbols.find? fun s => s.address == address

/-- The exported symbols in order of declaration. -/
def exported (t : Raw) : List Symbol :=
  t.symbols.filter Symbol.exported

/-- Puts a symbol at the end and its name in the index. -/
def push (t : Raw) (s : Symbol) : Raw where
  symbols := t.symbols ++ [s]
  index := fun name => if name = s.name then some t.symbols.length else t.index name

/-- Makes the symbol at a position visible from outside. -/
def exportAt (t : Raw) (i : Nat) : Raw :=
  { t with symbols := t.symbols.modify i fun s => { s with exported := true } }

/-- A change of a table, whose effects stay when it fails. -/
abbrev Change := EStateM SymbolError Raw

/-- Declares a symbol, unless the index has its name. -/
def insert (s : Symbol) : Change Unit := fun t =>
  if t.contains s.name then .error (.duplicate s.name) t else .ok () (t.push s)

/-- Makes the symbol with a name visible from outside; answers whether there is one. -/
def markExported (name : String) : Change Bool := fun t =>
  match t.index name with
  | some i => .ok true (t.exportAt i)
  | none => .ok false t

/-- How a change ends, and the table afterwards. -/
def Change.outcome (c : Change α) (t : Raw) : Except SymbolError α × Raw :=
  match c.run t with
  | .ok a t => (.ok a, t)
  | .error e t => (.error e, t)

theorem outcome_insert (s : Symbol) (t : Raw) :
    (insert s).outcome t =
      if t.contains s.name then (.error (.duplicate s.name), t) else (.ok (), t.push s) := by
  unfold Change.outcome EStateM.run insert
  cases t.contains s.name <;> rfl

theorem outcome_markExported (name : String) (t : Raw) :
    (markExported name).outcome t =
      match t.index name with
      | some i => (.ok true, t.exportAt i)
      | none => (.ok false, t) := by
  unfold Change.outcome EStateM.run markExported
  cases t.index name <;> rfl

/-! ### Consistency -/

/-- The index has the names of the symbols and no others, each with the position of its symbol. -/
def Consistent (t : Raw) : Prop :=
  ∀ (name : String) (i : Nat), t.index name = some i ↔ ∃ s, t.symbols[i]? = some s ∧ s.name = name

theorem consistent_empty : empty.Consistent := by
  intro name i
  simp [empty]

namespace Consistent

variable {t u : Raw} {s : Symbol} {name : String} {i : Nat}

theorem index_eq_some (h : t.Consistent) (hs : t.symbols[i]? = some s) :
    t.index name = some i ↔ s.name = name := by
  simp [h name i, hs]

/-- A name has one position in the index, so no name occurs twice. -/
theorem names_nodup (h : t.Consistent) : (t.symbols.map Symbol.name).Nodup := by
  rw [List.Nodup, List.pairwise_map, List.pairwise_iff_getElem]
  intro i j hi hj hij hname
  have hfirst := (h.index_eq_some (List.getElem?_eq_getElem hi)).2 hname
  have hsecond := (h.index_eq_some (List.getElem?_eq_getElem hj)).2 rfl
  have hsame := Option.some.inj (hfirst.symm.trans hsecond)
  omega

theorem contains_iff (h : t.Consistent) :
    t.contains name = true ↔ name ∈ t.symbols.map Symbol.name := by
  rw [contains, Option.isSome_iff_exists, List.mem_map]
  constructor
  · rintro ⟨i, hi⟩
    obtain ⟨s, hs, hname⟩ := (h name i).1 hi
    exact ⟨s, List.mem_of_getElem? hs, hname⟩
  · rintro ⟨s, hs, hname⟩
    obtain ⟨i, hi⟩ := List.mem_iff_getElem?.1 hs
    exact ⟨i, (h name i).2 ⟨s, hi, hname⟩⟩

/-- The index leads to the symbol that has the name. -/
theorem get?_eq_some (h : t.Consistent) :
    t.get? name = some s ↔ s ∈ t.symbols ∧ s.name = name := by
  rw [get?, Option.bind_eq_some_iff, List.mem_iff_getElem?]
  constructor
  · rintro ⟨i, hi, hs⟩
    exact ⟨⟨i, hs⟩, (h.index_eq_some hs).1 hi⟩
  · rintro ⟨⟨i, hs⟩, hname⟩
    exact ⟨i, (h.index_eq_some hs).2 hname, hs⟩

/-- A look-up in the index finds what a search of the list finds. -/
theorem get?_eq_find? (h : t.Consistent) (name : String) :
    t.get? name = t.symbols.find? fun s => s.name == name := by
  cases hfound : t.symbols.find? fun s => s.name == name with
  | none =>
    refine Option.eq_none_iff_forall_ne_some.2 fun s hs => ?_
    obtain ⟨hmem, hname⟩ := h.get?_eq_some.1 hs
    exact List.find?_eq_none.1 hfound s hmem (beq_iff_eq.2 hname)
  | some s =>
    exact h.get?_eq_some.2 ⟨List.mem_of_find?_eq_some hfound, by simpa using List.find?_some hfound⟩

/-- The index is determined by the symbols. -/
theorem eq_of_symbols (ht : t.Consistent) (hu : u.Consistent) (h : t.symbols = u.symbols) :
    t = u := by
  cases t
  cases u
  cases h
  congr 1
  funext name
  exact Option.ext fun i => (ht name i).trans (hu name i).symm

theorem push (h : t.Consistent) (hs : ¬ t.contains s.name = true) : (t.push s).Consistent := by
  intro name i
  have hold := h name i
  have hfresh : ∀ u, t.symbols[i]? = some u → u.name ≠ s.name := fun u hu hname =>
    hs (h.contains_iff.2 (hname ▸ List.mem_map_of_mem (List.mem_of_getElem? hu)))
  have hsymbols : (t.push s).symbols[i]? =
      if i = t.symbols.length then some s else t.symbols[i]? := by
    change (t.symbols ++ [s])[i]? = _
    grind
  have hindex : (t.push s).index name = if name = s.name then some t.symbols.length
      else t.index name := rfl
  rw [hsymbols, hindex]
  by_cases hend : i = t.symbols.length
  · subst hend
    by_cases hname : name = s.name
    · simp [hname]
    · simp [hname, Ne.symm hname, hold]
  · by_cases hname : name = s.name
    · subst hname
      simpa [hend, Ne.symm hend] using hfresh
    · simpa [hname, hend] using hold

/-- A symbol keeps its name when it is made visible. -/
theorem exportAt (h : t.Consistent) (i : Nat) : (t.exportAt i).Consistent := by
  intro name j
  change t.index name = some j ↔ ∃ u, (t.symbols.modify i _)[j]? = some u ∧ u.name = name
  rw [h name j, List.getElem?_modify]
  cases t.symbols[j]? with
  | none => simp
  | some s => by_cases hj : i = j <;> simp [hj]

/-- Making the symbol with a name visible shows at this symbol only. -/
theorem symbols_markExported (h : t.Consistent) (name : String) :
    ((markExported name).outcome t).2.symbols =
      t.symbols.map fun s => if s.name = name then { s with exported := true } else s := by
  apply List.ext_getElem?
  intro j
  rw [outcome_markExported, List.getElem?_map]
  cases hi : t.index name with
  | none =>
    cases hs : t.symbols[j]? with
    | none => simp
    | some s => simp [← h.index_eq_some hs, hi]
  | some i =>
    simp only [Raw.exportAt, List.getElem?_modify]
    cases hs : t.symbols[j]? with
    | none => rfl
    | some s => simp [← h.index_eq_some hs, hi]

end Consistent

/-- Whether a change leaves consistent tables consistent. -/
def Change.Keeps (c : Change α) : Prop :=
  ∀ t : Raw, t.Consistent → (c.outcome t).2.Consistent

theorem keeps_insert (s : Symbol) : (insert s).Keeps := by
  intro t h
  rw [outcome_insert]
  split
  · exact h
  · next hs => exact h.push hs

theorem keeps_markExported (name : String) : (markExported name).Keeps := by
  intro t h
  rw [outcome_markExported]
  split
  · next i _ => exact h.exportAt i
  · exact h

end SymbolTable.Raw

/-! ### Tables -/

/-- Symbols in order of declaration, with distinct names, and the index of their names. -/
structure SymbolTable extends SymbolTable.Raw where
  consistent : toRaw.Consistent

namespace SymbolTable

/-- Tables with the same symbols are the same. -/
@[ext]
theorem ext {t u : SymbolTable} (h : t.symbols = u.symbols) : t = u := by
  cases t with
  | mk t ht =>
    cases u with
    | mk u hu =>
      cases ht.eq_of_symbols hu h
      rfl

instance : DecidableEq SymbolTable := fun t u =>
  if h : t.symbols = u.symbols then .isTrue (SymbolTable.ext h)
  else .isFalse fun e => h (e ▸ rfl)

/-- The table without symbols. -/
def empty : SymbolTable :=
  ⟨.empty, Raw.consistent_empty⟩

/-- The number of symbols. -/
def size (t : SymbolTable) : Nat :=
  t.symbols.length

/-- The names in order of declaration. -/
def names (t : SymbolTable) : List String :=
  t.symbols.map Symbol.name

/-- The table of symbols with distinct names. -/
def ofList (symbols : List Symbol) (h : (symbols.map Symbol.name).Nodup) : SymbolTable where
  symbols := symbols
  index := fun name => symbols.findIdx? fun s => s.name == name
  consistent := by
    intro name i
    rw [List.findIdx?_eq_some_iff_getElem]
    constructor
    · rintro ⟨hi, hname, -⟩
      exact ⟨symbols[i], List.getElem?_eq_getElem hi, beq_iff_eq.1 hname⟩
    · rintro ⟨s, hs, hname⟩
      obtain ⟨hi, rfl⟩ := List.getElem?_eq_some_iff.1 hs
      refine ⟨hi, beq_iff_eq.2 hname, fun j hji hsame => ?_⟩
      have hdistinct := List.pairwise_iff_getElem.1 (List.pairwise_map.1 h)
      exact hdistinct j i (Nat.lt_trans hji hi) hi hji ((beq_iff_eq.1 hsame).trans hname.symm)

theorem names_nodup (t : SymbolTable) : (t.symbols.map Symbol.name).Nodup :=
  t.consistent.names_nodup

theorem contains_iff {t : SymbolTable} {name : String} :
    t.contains name = true ↔ name ∈ t.symbols.map Symbol.name :=
  t.consistent.contains_iff

theorem get?_eq_some {t : SymbolTable} {name : String} {s : Symbol} :
    t.get? name = some s ↔ s ∈ t.symbols ∧ s.name = name :=
  t.consistent.get?_eq_some

theorem get?_eq_find? (t : SymbolTable) (name : String) :
    t.get? name = t.symbols.find? fun s => s.name == name :=
  t.consistent.get?_eq_find? name

/-- The table after a change that leaves tables consistent. -/
def after (t : SymbolTable) (c : Raw.Change α) (keeps : c.Keeps) : SymbolTable :=
  ⟨(c.outcome t.toRaw).2, keeps t.toRaw t.consistent⟩

/-- Declares a symbol, unless its name is taken. -/
def insert (t : SymbolTable) (s : Symbol) : Except SymbolError SymbolTable :=
  ((Raw.insert s).outcome t.toRaw).1.map fun _ => t.after (Raw.insert s) (Raw.keeps_insert s)

/-- Makes a symbol visible from outside; other names are left alone. -/
def markExported (t : SymbolTable) (name : String) : SymbolTable :=
  t.after (Raw.markExported name) (Raw.keeps_markExported name)

theorem symbols_markExported (t : SymbolTable) (name : String) :
    (t.markExported name).symbols =
      t.symbols.map fun s => if s.name = name then { s with exported := true } else s :=
  t.consistent.symbols_markExported name

theorem insert_of_contains {t : SymbolTable} {s : Symbol} (h : t.contains s.name = true) :
    t.insert s = .error (.duplicate s.name) := by
  rw [insert, Raw.outcome_insert, if_pos h]
  rfl

/-- A symbol with a fresh name goes to the end. -/
theorem insert_of_fresh {t : SymbolTable} {s : Symbol} (h : ¬ t.contains s.name = true) :
    ∃ u, t.insert s = .ok u ∧ u.symbols = t.symbols ++ [s] := by
  refine ⟨t.after (Raw.insert s) (Raw.keeps_insert s), ?_, ?_⟩
  · rw [insert, Raw.outcome_insert, if_neg h]
    rfl
  · change ((Raw.insert s).outcome t.toRaw).2.symbols = _
    rw [Raw.outcome_insert, if_neg h]
    rfl

/-- Declares symbols one after the other. -/
def insertAll (t : SymbolTable) (ss : List Symbol) : Except SymbolError SymbolTable :=
  ss.foldlM insert t

/-- The encoding: the number of symbols, then the symbols. -/
def encode (t : SymbolTable) : Bytes :=
  Write.count t.size ++ t.symbols.flatMap Symbol.encode

/-- Takes one more symbol of a table. -/
def decodeNext (t : SymbolTable) : Reader SymbolTable := do
  let s ← Symbol.decode
  match t.insert s with
  | .ok t => return t
  | .error (.duplicate name) => throw (.duplicateSymbol name)

/-- Takes a table. -/
def decode : Reader SymbolTable := do
  let count ← Reader.u32
  Reader.iterate decodeNext count.toNat empty

end SymbolTable

end EventVm
