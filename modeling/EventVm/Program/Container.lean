import EventVm.Bytes.Crc32
import EventVm.Bytes.Sha256
import EventVm.Program.Basic
import EventVm.Text.Hex
import EventVm.Text.Quoted

/-!
# Program files

A program file is a header of four words and a payload. The header holds the magic number, the
version of the format, flags, which are ignored, and the CRC-32 of the payload. The payload holds
the parts of the program in a fixed order; bytes behind the last part are covered by the checksum
and otherwise ignored.
-/

namespace EventVm

/-- Why a program file was refused. -/
inductive ContainerError where
  | decode (e : DecodeError)
  | invalidMagic (found : Bytes)
  | unsupportedFormat (version : UInt32)
  | checksumMismatch (stored calculated : UInt32)
  | invalidVersion (text : String)
  deriving DecidableEq, Repr

namespace Program

/-- The first four bytes of a program file. -/
def magic : Bytes := [0x55, 0x44, 0x4F, 0x4E]

/-- The version of the file format. -/
def formatVersion : UInt32 := 1

/-- The length of the header. -/
def headerSize : Nat := 16

end Program

/-- The text of a container error. -/
def ContainerError.message : ContainerError → String
  | decode e => "Decode error: " ++ e.message
  | invalidMagic found =>
    let bytes := ", ".intercalate (found.map fun b => toString b.toNat)
    s!"Invalid magic number: expected UDON, got [{bytes}]"
  | unsupportedFormat version =>
    s!"Unsupported format version: {version} (current: {Program.formatVersion})"
  | checksumMismatch stored calculated =>
    s!"Checksum mismatch: expected {Text.addressHex stored}, got {Text.addressHex calculated}"
  | invalidVersion text => s!"Invalid instruction set version {Text.quote text}"

namespace Program

/-- The parts of the program, in file order. -/
def payload (p : Program) : Bytes :=
  Write.string p.name ++ Write.string p.instructionSet ++ Write.string p.version.display ++
    Write.blob p.code ++ p.heap.encode ++ p.entryPoints.encode ++ p.symbols.encode ++
    p.sync.encode

/-- The header of a file with the given payload. -/
def header (payload : Bytes) : Bytes :=
  magic ++ Write.u32 formatVersion ++ Write.u32 0 ++ Write.u32 (Crc32.checksum payload)

/-- The program file. -/
def encode (p : Program) : Bytes :=
  header p.payload ++ p.payload

/-- The SHA-256 digest of the program file, in hexadecimal. Instances whose programs share it take
part in one network topology. -/
def contentHash (p : Program) : String :=
  Text.bytesHex (Sha256.digest p.encode)

/-- Takes the parts in front of the byte code: name, instruction set and version text. -/
def decodeLabels : Reader (String × String × String) := do
  let name ← Reader.string
  let instructionSet ← Reader.string
  return (name, instructionSet, ← Reader.string)

/-- Takes the parts from the byte code on. -/
def decodeBody (name instructionSet : String) (version : Version) : Reader Program := do
  let code ← Reader.blob
  let heap ← Heap.decode
  let entryPoints ← SymbolTable.decode
  let symbols ← SymbolTable.decode
  let sync ← SyncTable.decode
  return { name, instructionSet, version, code, heap, entryPoints, symbols, sync }

/-- Runs a reader from a cursor, errors being container errors. -/
def readPart (r : Reader α) (c : Cursor) : Except ContainerError (α × Cursor) :=
  match r.run c with
  | .ok a c => .ok (a, c)
  | .error e _ => .error (.decode e)

/-- The program in a file. The header is checked word by word, the checksum before the payload is
looked at. -/
def decode (file : Bytes) : Except ContainerError Program := do
  let (word, c) ← readPart (Reader.take 4) (.start file)
  if word ≠ magic then throw (.invalidMagic word)
  let (format, c) ← readPart Reader.u32 c
  if format ≠ formatVersion then throw (.unsupportedFormat format)
  let (_, c) ← readPart Reader.u32 c
  let (stored, c) ← readPart Reader.u32 c
  let calculated := Crc32.checksum (file.drop headerSize)
  if stored ≠ calculated then throw (.checksumMismatch stored calculated)
  let ((name, instructionSet, text), c) ← readPart decodeLabels c
  match Version.parse? text with
  | none => throw (.invalidVersion text)
  | some version =>
    let (p, _) ← readPart (decodeBody name instructionSet version) c
    return p

end Program

end EventVm
