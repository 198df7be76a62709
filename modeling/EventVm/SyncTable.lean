import EventVm.Bytes.Reader

/-!
# Synced variables

A program lists the variables that are replicated over the network, and how a remote copy moves
towards a new value. Naming a variable again replaces its interpolation and keeps its place.
-/

namespace EventVm

/-- How a remote copy approaches a new value. -/
inductive Interpolation where
  | none
  | linear
  | smooth
  deriving DecidableEq, Repr

namespace Interpolation

/-- All interpolations, by code. -/
def all : List Interpolation :=
  [none, linear, smooth]

/-- The byte that encodes an interpolation. -/
def code : Interpolation → UInt8
  | none => 0
  | linear => 1
  | smooth => 2

/-- The keyword in assembly text. -/
def keyword : Interpolation → String
  | none => "none"
  | linear => "linear"
  | smooth => "smooth"

/-- The interpolation with the given keyword. -/
def ofKeyword? (text : String) : Option Interpolation :=
  all.find? fun i => i.keyword == text

/-- The name in summaries. -/
def name : Interpolation → String
  | none => "None"
  | linear => "Linear"
  | smooth => "Smooth"

/-- Takes an interpolation. -/
def decode : Reader Interpolation := do
  let offset ← Reader.position
  let tag ← Reader.u8
  match all[tag.toNat]? with
  | some i => return i
  | Option.none => throw (.invalidTag .interpolation tag offset)

@[simp]
theorem ofKeyword?_keyword (i : Interpolation) : ofKeyword? i.keyword = some i := by
  cases i <;> decide

end Interpolation

/-- A synced variable. -/
structure SyncEntry where
  name : String
  interpolation : Interpolation
  deriving DecidableEq, Repr

/-- The encoding: name and interpolation. -/
def SyncEntry.encode (e : SyncEntry) : Bytes :=
  Write.string e.name ++ Write.u8 e.interpolation.code

/-- Synced variables in order of declaration, with distinct names. -/
@[ext]
structure SyncTable where
  entries : List SyncEntry
  names_nodup : (entries.map SyncEntry.name).Nodup

namespace SyncTable

instance : DecidableEq SyncTable := fun t u =>
  if h : t.entries = u.entries then .isTrue (SyncTable.ext h)
  else .isFalse fun e => h (e ▸ rfl)

/-- The table without entries. -/
def empty : SyncTable :=
  ⟨[], List.nodup_nil⟩

/-- The number of entries. -/
def size (t : SyncTable) : Nat :=
  t.entries.length

/-- The entry of a variable. -/
def get? (t : SyncTable) (name : String) : Option SyncEntry :=
  t.entries.find? fun e => e.name == name

/-- Whether a variable is synced. -/
def contains (t : SyncTable) (name : String) : Bool :=
  t.entries.any fun e => e.name == name

theorem contains_iff {t : SyncTable} {name : String} :
    t.contains name = true ↔ name ∈ t.entries.map SyncEntry.name := by
  simp [contains]

/-- Adds an entry, or replaces the interpolation of a variable that has one. -/
def add (t : SyncTable) (name : String) (i : Interpolation) : SyncTable :=
  if h : t.contains name = true then
    { entries := t.entries.map fun e => if e.name = name then ⟨name, i⟩ else e
      names_nodup := by
        have hm : (t.entries.map fun e => if e.name = name then ⟨name, i⟩ else e).map
            SyncEntry.name = t.entries.map SyncEntry.name := by
          rw [List.map_map]
          apply List.map_congr_left
          intro e _
          simp only [Function.comp]
          split
          · rename_i he; exact he.symm
          · rfl
        exact hm ▸ t.names_nodup }
  else
    { entries := t.entries ++ [⟨name, i⟩]
      names_nodup := by
        rw [contains_iff] at h
        rw [List.map_append, List.nodup_append]
        refine ⟨t.names_nodup, by simp, ?_⟩
        intro a ha b hb hab
        simp only [List.map_cons, List.map_nil, List.mem_singleton] at hb
        exact h (hb ▸ hab ▸ ha) }

/-- The encoding: the number of entries, then the entries. -/
def encode (t : SyncTable) : Bytes :=
  Write.count t.size ++ t.entries.flatMap SyncEntry.encode

/-- Takes one more entry of a table. -/
def decodeNext (t : SyncTable) : Reader SyncTable := do
  let name ← Reader.string
  return t.add name (← Interpolation.decode)

/-- Takes a table. Entries with one name are merged. -/
def decode : Reader SyncTable := do
  let count ← Reader.u32
  Reader.iterate decodeNext count.toNat empty

end SyncTable

end EventVm
