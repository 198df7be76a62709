import EventVm.Heap
import EventVm.SemVer.Version
import EventVm.SymbolTable
import EventVm.SyncTable

/-!
# Programs

A program is byte code with the template of its heap, the names of its variables and entry points
and the list of its synced variables. It declares the instruction set that the byte code is
written for.
-/

namespace EventVm

/-- The name of the instruction set described here. -/
def instructionSetName : String := "UDON"

/-- The version of the instruction set described here. -/
def instructionSetVersion : Version := .release 1 0 0

/-- A compiled program. -/
structure Program where
  name : String
  instructionSet : String
  version : Version
  code : Bytes
  /-- The heap that every instance starts from. -/
  heap : Heap
  /-- Event names and code offsets. -/
  entryPoints : SymbolTable
  /-- Variable names and heap addresses. -/
  symbols : SymbolTable
  sync : SyncTable
  deriving DecidableEq

namespace Program

/-- The program without code and variables. -/
def empty (name : String) : Program where
  name := name
  instructionSet := instructionSetName
  version := instructionSetVersion
  code := []
  heap := .empty
  entryPoints := .empty
  symbols := .empty
  sync := .empty

/-- Equality, floating-point values being compared as numbers. -/
def same (p q : Program) : Bool :=
  p.name == q.name && p.instructionSet == q.instructionSet && p.version == q.version &&
    p.code == q.code && p.heap.same q.heap && p.entryPoints == q.entryPoints &&
    p.symbols == q.symbols && p.sync == q.sync

end Program

end EventVm
