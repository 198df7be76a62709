import EventVm.Decimal.Layout
import EventVm.Text.Quoted
import EventVm.Value.TypeTag

/-!
# Values

A heap slot holds null, a Boolean, a number, a string or a handle to a host object. Floating-point
values are kept as their bits, so that a value is exactly what its encoding says; `Value.same` is
the equality of the numbers.
-/

namespace EventVm

/-- A handle to an object that the host owns. -/
structure ObjectRef where
  kind : ObjectKind
  id : UInt64
  deriving DecidableEq, Repr

namespace ObjectRef

/-- A handle as shown to people. -/
def display (o : ObjectRef) : String :=
  s!"{o.kind.name}#{o.id}"

/-- The encoding: the kind's byte and the identifier. -/
def encode (o : ObjectRef) : Bytes :=
  Write.u8 o.kind.code ++ Write.u64 o.id

/-- Takes a handle. -/
def decode : Reader ObjectRef := do
  let offset ← Reader.position
  let tag ← Reader.u8
  match ObjectKind.ofCode? tag with
  | some kind => return ⟨kind, ← Reader.u64⟩
  | none => throw (.invalidTag .objectKind tag offset)

end ObjectRef

/-- A value on the heap. -/
inductive Value where
  | null
  | boolean (b : Bool)
  | int32 (i : Int32)
  | int64 (i : Int64)
  | uint32 (n : UInt32)
  /-- A floating-point number of 32 bits. -/
  | single (bits : UInt32)
  /-- A floating-point number of 64 bits. -/
  | double (bits : UInt64)
  | string (s : String)
  | object (o : ObjectRef)
  deriving DecidableEq, Repr

instance : Inhabited Value := ⟨.null⟩

/-- What a slot holds when nothing else was stored. -/
def TypeTag.default : TypeTag → Value
  | boolean => .boolean false
  | int32 => .int32 0
  | int64 => .int64 0
  | uint32 => .uint32 0
  | single => .single 0
  | double => .double 0
  | object | string | gameObject | transform | behaviour => .null

namespace Value

/-- The type of a value; null has none. -/
def type? : Value → Option TypeTag
  | null => none
  | boolean _ => some .boolean
  | int32 _ => some .int32
  | int64 _ => some .int64
  | uint32 _ => some .uint32
  | single _ => some .single
  | double _ => some .double
  | string _ => some .string
  | object ⟨.gameObject, _⟩ => some .gameObject
  | object ⟨.transform, _⟩ => some .transform
  | object ⟨.behaviour, _⟩ => some .behaviour
  | object ⟨.other, _⟩ => some .object

/-- Whether a value may stand in a slot of type `t`. -/
def fits (v : Value) (t : TypeTag) : Bool :=
  match t, v with
  | .object, _ => true
  | t, null => t.isNullable
  | t, object o => t.objectKind? == some o.kind
  | t, v => v.type? == some t

def isNull : Value → Bool
  | null => true
  | _ => false

def boolean? : Value → Option Bool
  | boolean b => some b
  | _ => none

def int32? : Value → Option Int32
  | int32 i => some i
  | _ => none

def uint32? : Value → Option UInt32
  | uint32 n => some n
  | _ => none

def single? : Value → Option UInt32
  | single bits => some bits
  | _ => none

def string? : Value → Option String
  | string s => some s
  | _ => none

def object? : Value → Option ObjectRef
  | object o => some o
  | _ => none

/-- A value as shown to people. -/
def display : Value → String
  | null => "null"
  | boolean b => if b then "true" else "false"
  | int32 i => toString i.toInt
  | int64 i => toString i.toInt
  | uint32 n => toString n.toNat
  | single bits => Decimal.display .single bits.toNat
  | double bits => Decimal.display .double bits.toNat
  | string s => Text.quote s
  | object o => o.display

/-- Equality of values, floating-point ones being compared as numbers. -/
def same : Value → Value → Bool
  | single a, single b => FloatFormat.single.equal a.toNat b.toNat
  | double a, double b => FloatFormat.double.equal a.toNat b.toNat
  | v, w => v == w

/-- The byte in front of an encoded value. -/
def tag : Value → UInt8
  | null => 0
  | boolean _ => 1
  | int32 _ => 2
  | int64 _ => 3
  | uint32 _ => 4
  | single _ => 5
  | double _ => 6
  | string _ => 7
  | object _ => 8

/-- The encoding without the tag. -/
def payload : Value → Bytes
  | null => []
  | boolean b => Write.flag b
  | int32 i => Write.i32 i
  | int64 i => Write.i64 i
  | uint32 n => Write.u32 n
  | single bits => Write.u32 bits
  | double bits => Write.u64 bits
  | string s => Write.string s
  | object o => o.encode

/-- The encoding: the tag, then the payload. -/
def encode (v : Value) : Bytes :=
  Write.u8 v.tag ++ v.payload

/-- Takes a value. A Boolean is true unless its byte is zero. -/
def decode : Reader Value := do
  let offset ← Reader.position
  let tag ← Reader.u8
  match tag with
  | 0 => return .null
  | 1 => return .boolean ((← Reader.u8) != 0)
  | 2 => return .int32 (← Reader.i32)
  | 3 => return .int64 (← Reader.i64)
  | 4 => return .uint32 (← Reader.u32)
  | 5 => return .single (← Reader.u32)
  | 6 => return .double (← Reader.u64)
  | 7 => return .string (← Reader.string)
  | 8 => return .object (← ObjectRef.decode)
  | _ => throw (.invalidTag .value tag offset)

theorem fits_default (t : TypeTag) : t.default.fits t = true := by
  cases t <;> rfl

end Value

end EventVm
