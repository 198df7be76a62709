import EventVm.Bytes.Reader

/-!
# Types

Every heap slot and every symbol declares a type. `object` takes any value; the types of host
objects take handles of one kind; null fits the types that are not numbers or Booleans.
-/

namespace EventVm

/-- What a handle to a host object refers to. -/
inductive ObjectKind where
  | gameObject
  | transform
  | behaviour
  | other
  deriving DecidableEq, Repr

namespace ObjectKind

/-- All kinds, by code. -/
def all : List ObjectKind :=
  [gameObject, transform, behaviour, other]

/-- The byte that encodes a kind. -/
def code : ObjectKind → UInt8
  | gameObject => 0
  | transform => 1
  | behaviour => 2
  | other => 3

/-- The kind that a byte encodes. -/
def ofCode? (b : UInt8) : Option ObjectKind :=
  all[b.toNat]?

/-- The name of a kind. -/
def name : ObjectKind → String
  | gameObject => "GameObject"
  | transform => "Transform"
  | behaviour => "UdonBehaviour"
  | other => "Other"

@[simp]
theorem ofCode?_code (k : ObjectKind) : ofCode? k.code = some k := by
  cases k <;> rfl

end ObjectKind

/-- The declared type of a heap slot or symbol. -/
inductive TypeTag where
  | object
  | boolean
  | int32
  | int64
  | uint32
  | single
  | double
  | string
  | gameObject
  | transform
  | behaviour
  deriving DecidableEq, Repr

namespace TypeTag

/-- All types, by code. -/
def all : List TypeTag :=
  [object, boolean, int32, int64, uint32, single, double, string, gameObject, transform, behaviour]

/-- The byte that encodes a type. -/
def code : TypeTag → UInt8
  | object => 0
  | boolean => 1
  | int32 => 2
  | int64 => 3
  | uint32 => 4
  | single => 5
  | double => 6
  | string => 7
  | gameObject => 8
  | transform => 9
  | behaviour => 10

/-- The type that a byte encodes. -/
def ofCode? (b : UInt8) : Option TypeTag :=
  all[b.toNat]?

/-- The name in assembly text and signatures. -/
def name : TypeTag → String
  | object => "SystemObject"
  | boolean => "SystemBoolean"
  | int32 => "SystemInt32"
  | int64 => "SystemInt64"
  | uint32 => "SystemUInt32"
  | single => "SystemSingle"
  | double => "SystemDouble"
  | string => "SystemString"
  | gameObject => "UnityEngineGameObject"
  | transform => "UnityEngineTransform"
  | behaviour => "VRCUdonUdonBehaviour"

/-- The type with the given name in assembly text. -/
def ofName? (text : String) : Option TypeTag :=
  all.find? fun t => t.name == text

/-- The short name, as summaries give it. -/
def shortName : TypeTag → String
  | object => "Object"
  | boolean => "Boolean"
  | int32 => "Int32"
  | int64 => "Int64"
  | uint32 => "UInt32"
  | single => "Single"
  | double => "Double"
  | string => "String"
  | gameObject => "GameObject"
  | transform => "Transform"
  | behaviour => "UdonBehaviour"

/-- The type with the given short name. -/
def ofShortName? (text : String) : Option TypeTag :=
  all.find? fun t => t.shortName == text

/-- Whether null may stand in a slot of this type. -/
def isNullable : TypeTag → Bool
  | object | string | gameObject | transform | behaviour => true
  | boolean | int32 | int64 | uint32 | single | double => false

/-- The kind of the handles that fit this type, for the types of host objects. -/
def objectKind? : TypeTag → Option ObjectKind
  | gameObject => some .gameObject
  | transform => some .transform
  | behaviour => some .behaviour
  | object | boolean | int32 | int64 | uint32 | single | double | string => none

/-- The encoding, one byte. -/
def encode (t : TypeTag) : Bytes :=
  Write.u8 t.code

/-- Takes a type. -/
def decode : Reader TypeTag := do
  let offset ← Reader.position
  let tag ← Reader.u8
  match ofCode? tag with
  | some t => return t
  | none => throw (.invalidTag .type tag offset)

theorem mem_all (t : TypeTag) : t ∈ all := by
  cases t <;> decide

@[simp]
theorem ofCode?_code (t : TypeTag) : ofCode? t.code = some t := by
  cases t <;> rfl

@[simp]
theorem ofName?_name (t : TypeTag) : ofName? t.name = some t := by
  cases t <;> decide

end TypeTag

end EventVm
