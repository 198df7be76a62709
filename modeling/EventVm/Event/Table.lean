import EventVm.Event.Vocabulary
import EventVm.SymbolTable

/-!
# Event tables

When a behaviour starts, the exported entry points of its program are sorted into handlers of
vocabulary events and handlers of custom events. An exported name that begins with an underscore
and is not in the vocabulary handles nothing.
-/

namespace EventVm

/-- The code offsets of event handlers, in order of declaration. -/
structure EventTable where
  builtIn : List (EventKind × UInt32)
  custom : List (String × UInt32)
  deriving DecidableEq, Repr

namespace EventTable

/-- The table without handlers. -/
def empty : EventTable := ⟨[], []⟩

/-- Whether a name begins with an underscore. -/
def isReserved (name : String) : Bool :=
  name.toList.head? == some '_'

/-- The vocabulary event that an entry point handles. -/
def builtInOf? (s : Symbol) : Option (EventKind × UInt32) :=
  (EventKind.ofEntryName? s.name).map (·, s.address)

/-- The custom event that an entry point handles. -/
def customOf? (s : Symbol) : Option (String × UInt32) :=
  if (EventKind.ofEntryName? s.name).isSome || isReserved s.name then none
  else some (s.name, s.address)

/-- The table of a program's entry points. -/
def ofEntryPoints (entryPoints : SymbolTable) : EventTable where
  builtIn := entryPoints.exported.filterMap builtInOf?
  custom := entryPoints.exported.filterMap customOf?

/-- The handlers of a vocabulary event. -/
def addressesFor (t : EventTable) (k : EventKind) : List UInt32 :=
  (t.builtIn.filter (fun e => e.1 == k)).map Prod.snd

/-- The handlers of a custom event. -/
def customAddresses (t : EventTable) (name : String) : List UInt32 :=
  (t.custom.filter (fun e => e.1 == name)).map Prod.snd

/-- The handlers of an event by name. -/
def addresses (t : EventTable) (name : String) : List UInt32 :=
  match EventKind.ofEntryName? name with
  | some k => t.addressesFor k
  | none => t.customAddresses name

/-- Whether a vocabulary event has a handler. -/
def handles (t : EventTable) (k : EventKind) : Bool :=
  t.builtIn.any fun e => e.1 == k

/-- The vocabulary events of a category that have a handler, in the order of the vocabulary. -/
def eventsIn (t : EventTable) (c : EventCategory) : List EventKind :=
  EventKind.all.filter fun k => k.category == c && t.handles k

/-- The custom events with a handler. -/
def customEvents (t : EventTable) : List String :=
  (t.custom.map Prod.fst).eraseDups

/-- Whether nothing has a handler. -/
def isEmpty (t : EventTable) : Bool :=
  t.builtIn.isEmpty && t.custom.isEmpty

end EventTable

end EventVm
