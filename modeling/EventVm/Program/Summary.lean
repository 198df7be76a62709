import EventVm.Json
import EventVm.Program.Container

/-!
# Summaries

An overview of a program in JSON: its labels, the sizes of its parts, its content hash and its
tables.
-/

namespace EventVm.Program

/-- A symbol in a summary. -/
def symbolJson (s : Symbol) : Json :=
  .object [("name", .string s.name), ("address", .nat s.address.toNat),
    ("type_tag", .string s.type.shortName), ("exported", .bool s.exported)]

/-- A synced variable in a summary. -/
def syncJson (e : SyncEntry) : Json :=
  .object [("name", .string e.name), ("interpolation", .string e.interpolation.name)]

/-- The overview of a program. -/
def summary (p : Program) : Json :=
  .object [
    ("name", .string p.name),
    ("instruction_set", .string s!"{p.instructionSet} {p.version.display}"),
    ("byte_code_len", .nat p.code.length),
    ("heap_len", .nat p.heap.size),
    ("content_hash", .string p.contentHash),
    ("entry_points", .array (p.entryPoints.symbols.map symbolJson)),
    ("symbols", .array (p.symbols.symbols.map symbolJson)),
    ("sync", .array (p.sync.entries.map syncJson))]

end EventVm.Program
