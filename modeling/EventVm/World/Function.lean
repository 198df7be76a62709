import EventVm.World.Behaviour

/-!
# Host functions

A program calls a host function by its signature: the declaring type, the member, the parameter
types and the result type, joined by underscores. The function's arity says how many addresses it
takes off the operand stack; it reads its arguments and writes its result through them, the result
standing last. Some functions are built in, others are scripts of actions that a host registers.
-/

namespace EventVm

/-- The functions that every world starts with. -/
inductive BuiltIn where
  | int32Addition
  | int32Subtraction
  | int32LessThan
  | int32Equality
  | booleanNegation
  | singleAddition
  | stringConcat
  | debugLog
  | sendCustomEvent
  | setProgramVariable
  | getProgramVariable
  | sendCustomNetworkEvent
  deriving DecidableEq, Repr

namespace BuiltIn

/-- All built-in functions. -/
def all : List BuiltIn :=
  [int32Addition, int32Subtraction, int32LessThan, int32Equality, booleanNegation, singleAddition,
    stringConcat, debugLog, sendCustomEvent, setProgramVariable, getProgramVariable,
    sendCustomNetworkEvent]

/-- The signature of a function. -/
def signature : BuiltIn → String
  | int32Addition => "SystemInt32.__op_Addition__SystemInt32_SystemInt32__SystemInt32"
  | int32Subtraction => "SystemInt32.__op_Subtraction__SystemInt32_SystemInt32__SystemInt32"
  | int32LessThan => "SystemInt32.__op_LessThan__SystemInt32_SystemInt32__SystemBoolean"
  | int32Equality => "SystemInt32.__op_Equality__SystemInt32_SystemInt32__SystemBoolean"
  | booleanNegation => "SystemBoolean.__op_UnaryNegation__SystemBoolean__SystemBoolean"
  | singleAddition => "SystemSingle.__op_Addition__SystemSingle_SystemSingle__SystemSingle"
  | stringConcat => "SystemString.__Concat__SystemString_SystemString__SystemString"
  | debugLog => "UnityEngineDebug.__Log__SystemObject__SystemVoid"
  | sendCustomEvent =>
    "VRCUdonCommonInterfacesIUdonEventReceiver.__SendCustomEvent__SystemString__SystemVoid"
  | setProgramVariable =>
    "VRCUdonCommonInterfacesIUdonEventReceiver.__SetProgramVariable__" ++
      "SystemString_SystemObject__SystemVoid"
  | getProgramVariable =>
    "VRCUdonCommonInterfacesIUdonEventReceiver.__GetProgramVariable__SystemString__SystemObject"
  | sendCustomNetworkEvent =>
    "VRCUdonCommonInterfacesIUdonEventReceiver.__SendCustomNetworkEvent__" ++
      "VRCUdonCommonInterfacesNetworkEventTarget_SystemString__SystemVoid"

/-- How many addresses a function takes. -/
def arity : BuiltIn → Nat
  | debugLog => 1
  | booleanNegation | sendCustomEvent => 2
  | int32Addition | int32Subtraction | int32LessThan | int32Equality | singleAddition
  | stringConcat | setProgramVariable | getProgramVariable | sendCustomNetworkEvent => 3

end BuiltIn

/-- A step of a script. Reading and writing arguments, failing and loading may end the script; all
else acts on the behaviour that is running, if the world still finds it. -/
inductive HostAction where
  | get (index : Nat)
  | getBoolean (index : Nat)
  | getInt32 (index : Nat)
  | getSingle (index : Nat)
  | getString (index : Nat)
  | getBehaviour (index : Nat)
  | set (index : Nat) (v : Value)
  | fail (text : String)
  /-- Loads a program into the calling machine, with its own heap if none is given. -/
  | load (p : Program) (heap : Option Heap)
  | abort
  | send (event : String)
  | dispatch (event : String)
  | markFaulted
  | runAt (address : UInt32)
  | state
  | activate
  | position
  | register (signature : String) (arity : Nat) (actions : List HostAction)
  | shutdown

/-- A function that programs can call. -/
inductive HostFunction where
  | builtIn (f : BuiltIn)
  | script (arity : Nat) (actions : List HostAction)

/-- How many addresses a function takes. -/
def HostFunction.arity : HostFunction → Nat
  | builtIn f => f.arity
  | script n _ => n

/-- The functions of a world by signature. -/
structure Registry where
  functions : List (String × HostFunction)

namespace Registry

/-- The registry of the built-in functions. -/
def builtIns : Registry :=
  ⟨BuiltIn.all.map fun f => (f.signature, .builtIn f)⟩

/-- The function with a signature. -/
def get? (r : Registry) (signature : String) : Option HostFunction :=
  r.functions.lookup signature

/-- Whether a signature is registered. -/
def contains (r : Registry) (signature : String) : Bool :=
  (r.get? signature).isSome

/-- The number of functions. -/
def size (r : Registry) : Nat :=
  r.functions.length

/-- Registers a function, in place of an earlier one with the signature. -/
def register (r : Registry) (signature : String) (f : HostFunction) : Registry :=
  ⟨(signature, f) :: r.functions.filter fun e => e.1 != signature⟩

end Registry

end EventVm
