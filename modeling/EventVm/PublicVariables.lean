import EventVm.SymbolTable
import EventVm.Value.Basic

/-!
# Public variables

Initial values for exported variables, supplied by the host, in order of name. A table is stored as
a blob of bytes and a list of the object handles in it: the blob refers to handles by their position
in the list, so that they can be replaced without touching the blob.

When a program has changed since a table was stored, `reconcile` resets the entries that no longer
fit the program's declarations.
-/

namespace EventVm

/-- A supplied variable. -/
structure PublicVariable where
  name : String
  type : TypeTag
  value : Value
  deriving DecidableEq, Repr

/-- Why a stored table could not be read. -/
inductive PublicVariableError where
  | decode (e : DecodeError)
  | unsupportedVersion (version : UInt8)
  /-- The blob refers to a handle beyond the end of the list. -/
  | missingObject (index : UInt32) (count : Nat)
  deriving DecidableEq, Repr

/-- The text of a public variable error. -/
def PublicVariableError.message : PublicVariableError → String
  | decode e => "Decode error: " ++ e.message
  | unsupportedVersion version => s!"Unsupported public variable blob version {version}"
  | missingObject index count => s!"Object reference {index} out of range ({count} objects)"

/-- Supplied variables, sorted by name. -/
@[ext]
structure PublicVariables where
  entries : List PublicVariable
  sorted : entries.Pairwise fun a b => a.name < b.name

/-- A stored table. -/
structure StoredVariables where
  blob : Bytes
  objects : List ObjectRef
  deriving DecidableEq, Repr

namespace PublicVariables

instance : DecidableEq PublicVariables := fun t u =>
  if h : t.entries = u.entries then .isTrue (PublicVariables.ext h)
  else .isFalse fun e => h (e ▸ rfl)

theorem names_nodup (t : PublicVariables) : (t.entries.map PublicVariable.name).Nodup :=
  List.pairwise_map.2 (t.sorted.imp fun h => String.ne_of_lt h)

/-- The table without entries. -/
def empty : PublicVariables :=
  ⟨[], .nil⟩

/-- The number of entries. -/
def size (t : PublicVariables) : Nat :=
  t.entries.length

/-- The entry of a name. -/
def get? (t : PublicVariables) (name : String) : Option PublicVariable :=
  t.entries.find? fun v => v.name == name

/-- Whether a name has an entry. -/
def contains (t : PublicVariables) (name : String) : Bool :=
  t.entries.any fun v => v.name == name

/-- Puts an entry in its place, where it replaces one of the same name. -/
def insertEntry (v : PublicVariable) : List PublicVariable → List PublicVariable
  | [] => [v]
  | w :: ws =>
    if v.name < w.name then v :: w :: ws
    else if v.name = w.name then v :: ws
    else w :: insertEntry v ws

theorem mem_insertEntry {v x : PublicVariable} {ws : List PublicVariable}
    (h : x ∈ insertEntry v ws) : x = v ∨ x ∈ ws := by
  induction ws with
  | nil => simpa [insertEntry] using h
  | cons w ws ih =>
    unfold insertEntry at h
    split at h
    · simpa using h
    · split at h
      · rcases List.mem_cons.1 h with h | h <;> simp [h]
      · rcases List.mem_cons.1 h with h | h
        · simp [h]
        · rcases ih h with h | h <;> simp [h]

theorem sorted_insertEntry (v : PublicVariable) {ws : List PublicVariable}
    (h : ws.Pairwise fun a b => a.name < b.name) :
    (insertEntry v ws).Pairwise fun a b => a.name < b.name := by
  induction ws with
  | nil => simp [insertEntry]
  | cons w ws ih =>
    obtain ⟨hw, hs⟩ := List.pairwise_cons.1 h
    unfold insertEntry
    split
    · rename_i hlt
      refine List.pairwise_cons.2 ⟨fun x hx => ?_, h⟩
      rcases List.mem_cons.1 hx with rfl | hx
      · exact hlt
      · exact String.lt_trans hlt (hw x hx)
    · rename_i hlt
      split
      · rename_i heq
        exact List.pairwise_cons.2 ⟨fun x hx => heq ▸ hw x hx, hs⟩
      · rename_i hne
        refine List.pairwise_cons.2 ⟨fun x hx => ?_, ih hs⟩
        rcases mem_insertEntry hx with rfl | hx
        · have hle : w.name ≤ x.name := String.not_lt.1 hlt
          by_cases hxw : w.name < x.name
          · exact hxw
          · exact absurd (String.le_antisymm (String.not_lt.1 hxw) hle) hne
        · exact hw x hx

/-- Supplies a variable. -/
def insert (t : PublicVariables) (name : String) (type : TypeTag) (value : Value) :
    PublicVariables :=
  ⟨insertEntry ⟨name, type, value⟩ t.entries, sorted_insertEntry _ t.sorted⟩

/-- The table without the entry of a name. -/
def erase (t : PublicVariables) (name : String) : PublicVariables :=
  ⟨t.entries.filter fun v => v.name != name, t.sorted.filter _⟩

/-- The table of variables supplied one after the other. -/
def ofList (vs : List PublicVariable) : PublicVariables :=
  vs.foldl (fun t v => t.insert v.name v.type v.value) empty

/-- Equality, floating-point values being compared as numbers. -/
def same (t u : PublicVariables) : Bool :=
  t.size == u.size && (t.entries.zip u.entries).all fun (v, w) =>
    v.name == w.name && v.type == w.type && v.value.same w.value

/-! ### Storing -/

/-- The version of the blob format. -/
def blobVersion : UInt8 := 1

/-- The part of the blob for an entry with `before` handles in front of it. -/
def encodeEntry (before : Nat) (v : PublicVariable) : Bytes :=
  let slot := match v.value with
    | .object _ => Write.u8 1 ++ Write.count before
    | value => Write.u8 0 ++ value.encode
  Write.string v.name ++ v.type.encode ++ slot

/-- The handles in a list of entries. -/
def objectsOf (vs : List PublicVariable) : List ObjectRef :=
  vs.filterMap fun v => v.value.object?

/-- The part of the blob for entries with `before` handles in front of them. -/
def encodeEntries : (before : Nat) → List PublicVariable → Bytes
  | _, [] => []
  | before, v :: vs =>
    encodeEntry before v ++ encodeEntries (before + v.value.object?.toList.length) vs

/-- The stored form of a table. -/
def store (t : PublicVariables) : StoredVariables where
  blob := Write.u8 blobVersion ++ Write.count t.size ++ encodeEntries 0 t.entries
  objects := objectsOf t.entries

/-- Runs a reader from a cursor, errors being public variable errors. -/
def readPart (r : Reader α) (c : Cursor) : Except PublicVariableError (α × Cursor) :=
  match r.run c with
  | .ok a c => .ok (a, c)
  | .error e _ => .error (.decode e)

/-- Takes the value of an entry. -/
def loadValue (objects : List ObjectRef) (c : Cursor) :
    Except PublicVariableError (Value × Cursor) := do
  let offset := c.position
  let (tag, c) ← readPart Reader.u8 c
  match tag with
  | 0 => readPart Value.decode c
  | 1 =>
    let (index, c) ← readPart Reader.u32 c
    match objects[index.toNat]? with
    | some o => return (.object o, c)
    | none => throw (.missingObject index objects.length)
  | _ => throw (.decode (.invalidTag .publicVariableSlot tag offset))

/-- Takes `count` entries and adds them to a table. -/
def loadEntries (objects : List ObjectRef) : (count : Nat) → PublicVariables → Cursor →
    Except PublicVariableError PublicVariables
  | 0, t, _ => .ok t
  | count + 1, t, c => do
    let (name, c) ← readPart Reader.string c
    let (type, c) ← readPart TypeTag.decode c
    let (value, c) ← loadValue objects c
    loadEntries objects count (t.insert name type value) c

/-- The table that was stored. -/
def load (data : StoredVariables) : Except PublicVariableError PublicVariables := do
  let (version, c) ← readPart Reader.u8 (.start data.blob)
  if version ≠ blobVersion then throw (.unsupportedVersion version)
  let (count, c) ← readPart Reader.u32 c
  loadEntries data.objects count.toNat empty c

/-! ### Reconciling -/

/-- Whether an entry fits the declaration of its name, if there is one. -/
def agrees (symbols : SymbolTable) (v : PublicVariable) : Bool :=
  match symbols.get? v.name with
  | some s => v.type == s.type && v.value.fits s.type
  | none => true

/-- The entry, reset to the declared type and its default if it does not fit. -/
def reset (symbols : SymbolTable) (v : PublicVariable) : PublicVariable :=
  match symbols.get? v.name with
  | some s => if agrees symbols v then v else ⟨v.name, s.type, s.type.default⟩
  | none => v

@[simp]
theorem name_reset (symbols : SymbolTable) (v : PublicVariable) :
    (reset symbols v).name = v.name := by
  unfold reset
  split
  · split <;> rfl
  · rfl

/-- Resets every entry that does not fit its declaration. -/
def reconcile (symbols : SymbolTable) (t : PublicVariables) : PublicVariables where
  entries := t.entries.map (reset symbols)
  sorted := by
    rw [List.pairwise_map]
    exact t.sorted.imp fun h => by simpa using h

/-- How many entries do not fit their declarations. -/
def mismatches (symbols : SymbolTable) (t : PublicVariables) : Nat :=
  t.entries.countP fun v => !agrees symbols v

/-- The table that was stored, reconciled with a program's declarations. -/
def loadFor (symbols : SymbolTable) (data : StoredVariables) :
    Except PublicVariableError PublicVariables :=
  return (← load data).reconcile symbols

end PublicVariables

end EventVm
