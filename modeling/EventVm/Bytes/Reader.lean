import EventVm.Text.Utf8

/-!
# Reading byte streams

A `Reader` takes values off the front of a byte stream and keeps count of the bytes taken. Every
read checks its bounds first; a scalar that does not fit takes nothing, while a failed compound read
leaves the cursor behind the parts already taken.

Multi-byte scalars are little-endian; blobs and strings carry their length as a `UInt32` in front.
-/

namespace EventVm

/-- What a discriminant byte was meant to select. -/
inductive TagKind where
  | type
  | objectKind
  | value
  | heapSlot
  | interpolation
  | publicVariableSlot
  deriving DecidableEq, Repr

/-- The wording of a tag kind in messages. -/
def TagKind.name : TagKind → String
  | type => "type"
  | objectKind => "object kind"
  | value => "value"
  | heapSlot => "heap slot"
  | interpolation => "interpolation"
  | publicVariableSlot => "public variable slot"

/-- Why a byte stream could not be read. -/
inductive DecodeError where
  /-- The stream ends inside a value. -/
  | unexpectedEnd (offset : Nat)
  /-- The string whose length stands at `offset` is not UTF-8. -/
  | invalidUtf8 (offset : Nat)
  /-- The word at `offset` is no opcode. -/
  | invalidOpcode (word : UInt32) (offset : Nat)
  /-- The byte at `offset` selects nothing. -/
  | invalidTag (kind : TagKind) (tag : UInt8) (offset : Nat)
  /-- A table declares one name twice. -/
  | duplicateSymbol (name : String)
  deriving DecidableEq, Repr

/-- The text of a decoding error. -/
def DecodeError.message : DecodeError → String
  | unexpectedEnd offset => s!"Unexpected end of bytecode at offset {offset}"
  | invalidUtf8 offset => s!"Invalid UTF-8 string at offset {offset}"
  | invalidOpcode word offset => s!"Invalid opcode {word} at offset {offset}"
  | invalidTag kind tag offset => s!"Invalid {kind.name} tag {tag} at offset {offset}"
  | duplicateSymbol name => s!"Duplicate symbol {name}"

/-- A place in a byte stream: the bytes taken so far, counted, and the bytes still to come. -/
structure Cursor where
  position : Nat
  rest : Bytes
  deriving DecidableEq, Repr

/-- The cursor in front of the first byte. -/
def Cursor.start (bytes : Bytes) : Cursor :=
  ⟨0, bytes⟩

/-- A computation that takes values off a byte stream. -/
abbrev Reader := EStateM DecodeError Cursor

namespace Reader

/-- The offset of the next byte. -/
def position : Reader Nat :=
  return (← get).position

/-- Takes exactly `count` bytes, or none. -/
def take (count : Nat) : Reader Bytes := fun c =>
  let taken := c.rest.take count
  if taken.length = count then .ok taken ⟨c.position + count, c.rest.drop count⟩
  else .error (.unexpectedEnd c.position) c

/-- Takes an unsigned number of `width` bytes. -/
def unsigned (width : Nat) : Reader Nat :=
  return ofLittleEndian (← take width)

def u8 : Reader UInt8 :=
  return UInt8.ofNat (← unsigned 1)

def u32 : Reader UInt32 :=
  return UInt32.ofNat (← unsigned 4)

def u64 : Reader UInt64 :=
  return UInt64.ofNat (← unsigned 8)

def i32 : Reader Int32 :=
  return (← u32).toInt32

def i64 : Reader Int64 :=
  return (← u64).toInt64

/-- Takes a length and that many bytes. -/
def blob : Reader Bytes := do
  let length ← u32
  take length.toNat

/-- Takes a blob that has to be UTF-8. -/
def string : Reader String := do
  let offset ← position
  match Utf8.decode? (← blob) with
  | some s => return s
  | none => throw (.invalidUtf8 offset)

/-- Runs `r` `count` times and collects the results. -/
def times (r : Reader α) : Nat → Reader (List α)
  | 0 => return []
  | count + 1 => do
    let a ← r
    return a :: (← times r count)

/-- Threads a state through `count` runs of `step`. -/
def iterate (step : σ → Reader σ) : Nat → σ → Reader σ
  | 0, s => return s
  | count + 1, s => do
    let s ← step s
    iterate step count s

/-- What a reader answers on a whole byte string, bytes left over being ignored. -/
def result (r : Reader α) (bytes : Bytes) : Except DecodeError α :=
  match r.run (.start bytes) with
  | .ok a _ => .ok a
  | .error e _ => .error e

end Reader

/-! ### Writing -/

namespace Write

def u8 (n : UInt8) : Bytes :=
  littleEndian 1 n.toNat

def u32 (n : UInt32) : Bytes :=
  littleEndian 4 n.toNat

def u64 (n : UInt64) : Bytes :=
  littleEndian 8 n.toNat

def i32 (n : Int32) : Bytes :=
  u32 n.toUInt32

def i64 (n : Int64) : Bytes :=
  u64 n.toUInt64

/-- A count of entries or bytes, modulo 2^32. -/
def count (n : Nat) : Bytes :=
  u32 (UInt32.ofNat n)

/-- The length of a byte string, then the bytes. -/
def blob (bytes : Bytes) : Bytes :=
  count bytes.length ++ bytes

def string (s : String) : Bytes :=
  blob (Utf8.encode s)

/-- One byte: 1 for true, 0 for false. -/
def flag (b : Bool) : Bytes :=
  u8 (if b then 1 else 0)

/-- Replaces the four bytes at `offset` by a word. -/
def patch (offset : Nat) (word : UInt32) (bytes : Bytes) : Bytes :=
  bytes.take offset ++ u32 word ++ bytes.drop (offset + 4)

end Write

end EventVm
