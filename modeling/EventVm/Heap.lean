import EventVm.Text.Hex
import EventVm.Value.Basic

/-!
# Heaps

A heap is a list of slots addressed by their position. A slot declares a type and holds a value of
it, or waits for the host to say which object `this` is. Writing is checked against the declared
type and settles a waiting slot; reading a waiting slot fails.
-/

namespace EventVm

/-- Why a heap access failed. -/
inductive HeapError where
  | invalidAddress (address : UInt32)
  /-- The value, given as it is shown, does not fit the slot. -/
  | typeMismatch (address : UInt32) (expected : TypeTag) (actual : String)
  /-- The slot waits for the host. -/
  | unresolved (address : UInt32)
  deriving DecidableEq, Repr

/-- The text of a heap error. -/
def HeapError.message : HeapError → String
  | invalidAddress a => s!"Invalid heap address {Text.addressHex a}"
  | typeMismatch a expected actual =>
    s!"Type mismatch at heap address {Text.addressHex a}: slot is {expected.name}, " ++
      s!"value is {actual}"
  | unresolved a => s!"Heap address {Text.addressHex a} holds an unresolved reference"

/-- What a slot holds. -/
inductive Content where
  | value (v : Value)
  /-- The hosting instance, seen as the given type, once the host says what it is. -/
  | pending (target : TypeTag)
  deriving DecidableEq, Repr

/-- A heap slot. -/
structure Slot where
  declared : TypeTag
  content : Content
  deriving DecidableEq, Repr

/-- Typed storage, addressed by position. -/
structure Heap where
  slots : List Slot
  deriving DecidableEq, Repr

namespace Content

/-- The value, if there is one. -/
def value? : Content → Option Value
  | value v => some v
  | pending _ => none

/-- The type that the host has to supply, if the slot waits. -/
def pending? : Content → Option TypeTag
  | value _ => none
  | pending t => some t

/-- The encoding: 0 and a value, or 1 and a type. -/
def encode : Content → Bytes
  | value v => Write.u8 0 ++ v.encode
  | pending t => Write.u8 1 ++ t.encode

/-- Takes the content of a slot. -/
def decode : Reader Content := do
  let offset ← Reader.position
  let tag ← Reader.u8
  match tag with
  | 0 => return .value (← Value.decode)
  | 1 => return .pending (← TypeTag.decode)
  | _ => throw (.invalidTag .heapSlot tag offset)

/-- Equality, floating-point values being compared as numbers. -/
def same : Content → Content → Bool
  | value v, value w => v.same w
  | pending s, pending t => s == t
  | _, _ => false

end Content

namespace Slot

/-- Whether the slot holds nothing that does not fit its type. -/
def isWellTyped (s : Slot) : Bool :=
  match s.content with
  | .value v => v.fits s.declared
  | .pending _ => true

/-- The encoding: type and content. -/
def encode (s : Slot) : Bytes :=
  s.declared.encode ++ s.content.encode

/-- Takes a slot. The value is not checked against the type. -/
def decode : Reader Slot := do
  let declared ← TypeTag.decode
  return ⟨declared, ← Content.decode⟩

/-- Equality, floating-point values being compared as numbers. -/
def same (s t : Slot) : Bool :=
  s.declared == t.declared && s.content.same t.content

end Slot

namespace Heap

/-- The heap without slots. -/
def empty : Heap := ⟨[]⟩

/-- The number of slots. -/
def size (h : Heap) : Nat :=
  h.slots.length

/-- Whether an address names a slot. -/
def contains (h : Heap) (address : UInt32) : Bool :=
  address.toNat < h.size

/-- The slot at an address. -/
def slot? (h : Heap) (address : UInt32) : Option Slot :=
  h.slots[address.toNat]?

/-- The slot at an address, or the error that there is none. -/
def slot (h : Heap) (address : UInt32) : Except HeapError Slot :=
  match h.slot? address with
  | some s => .ok s
  | none => .error (.invalidAddress address)

/-- The declared type of the slot at an address. -/
def declared (h : Heap) (address : UInt32) : Except HeapError TypeTag :=
  return (← h.slot address).declared

/-- The value at an address. -/
def get (h : Heap) (address : UInt32) : Except HeapError Value := do
  match (← h.slot address).content with
  | .value v => return v
  | .pending _ => throw (.unresolved address)

/-- The address of the next slot to be appended. -/
def nextAddress (h : Heap) : UInt32 :=
  UInt32.ofNat h.size

/-- Appends a slot with a value, which has to fit. -/
def push (h : Heap) (declared : TypeTag) (v : Value) : Except HeapError Heap :=
  if v.fits declared then .ok ⟨h.slots ++ [⟨declared, .value v⟩]⟩
  else .error (.typeMismatch h.nextAddress declared v.display)

/-- Appends a slot that waits for the host. -/
def pushPending (h : Heap) (declared target : TypeTag) : Heap :=
  ⟨h.slots ++ [⟨declared, .pending target⟩]⟩

/-- Puts a value, which has to fit, at an address. -/
def set (h : Heap) (address : UInt32) (v : Value) : Except HeapError Heap := do
  let s ← h.slot address
  if v.fits s.declared then .ok ⟨h.slots.set address.toNat { s with content := .value v }⟩
  else .error (.typeMismatch address s.declared v.display)

/-- Puts the value at `source` at `destination` too. -/
def copy (h : Heap) (source destination : UInt32) : Except HeapError Heap := do
  h.set destination (← h.get source)

/-- The waiting slots in order of address, with the types that the host has to supply. -/
def pending (h : Heap) : List (UInt32 × TypeTag) :=
  h.slots.zipIdx.filterMap fun (s, i) => s.content.pending?.map fun t => (UInt32.ofNat i, t)

/-- The encoding: the number of slots, then the slots. -/
def encode (h : Heap) : Bytes :=
  Write.count h.size ++ h.slots.flatMap Slot.encode

/-- Takes a heap. -/
def decode : Reader Heap := do
  let count ← Reader.u32
  return ⟨← Reader.times Slot.decode count.toNat⟩

/-- Equality, floating-point values being compared as numbers. -/
def same (h k : Heap) : Bool :=
  h.size == k.size && (h.slots.zip k.slots).all fun (s, t) => s.same t

end Heap

end EventVm
