import EventVm.Program.Container
import EventVm.Proofs.Program.Tables

/-!
# Reading back a program file

A program file is read back as the program it was written from. The readers of the parts take what
was written for each of them, in file order; the header passes its checks since the checksum is that
of the payload behind it. Values are compared by their bits.

The lengths that the format can express bound the program (`Program.IsEncodable`), and its version
has to be the one that its text writes.
-/

namespace EventVm.Program

open Reader

/-- Whether every length and every number of entries in the file of a program fits the word in front
of it. -/
structure IsEncodable (p : Program) : Prop where
  name : IsCount (Utf8.encode p.name).length
  instructionSet : IsCount (Utf8.encode p.instructionSet).length
  version : IsCount (Utf8.encode p.version.display).length
  code : IsCount p.code.length
  heap : p.heap.IsEncodable
  entryPoints : p.entryPoints.IsEncodable
  symbols : p.symbols.IsEncodable
  sync : p.sync.IsEncodable

/-- The labels of the program, in file order. -/
def labels (p : Program) : Bytes :=
  Write.string p.name ++ Write.string p.instructionSet ++ Write.string p.version.display

/-- The program from the byte code on, in file order. -/
def body (p : Program) : Bytes :=
  Write.blob p.code ++ p.heap.encode ++ p.entryPoints.encode ++ p.symbols.encode ++ p.sync.encode

theorem payload_eq (p : Program) : p.payload = p.labels ++ p.body := by
  simp only [payload, labels, body, List.append_assoc]

@[simp]
theorem length_header (payload : Bytes) : (header payload).length = headerSize := by
  simp [header, magic, Write.u32, headerSize]

/-! ### The parts of the payload -/

theorem takes_decodeLabels {p : Program} (h : p.IsEncodable) :
    Takes decodeLabels p.labels (p.name, p.instructionSet, p.version.display) := by
  unfold labels
  rw [List.append_assoc]
  refine takes_bind (takes_string h.name) (takes_bind (takes_string h.instructionSet) ?_)
  exact takes_then (takes_string h.version) rfl

theorem takes_decodeBody {p : Program} (h : p.IsEncodable) :
    Takes (decodeBody p.name p.instructionSet p.version) p.body p := by
  unfold body
  simp only [List.append_assoc]
  refine takes_bind (takes_blob h.code) ?_
  refine takes_bind (Heap.takes_decode h.heap) ?_
  refine takes_bind (SymbolTable.takes_decode h.entryPoints) ?_
  refine takes_bind (SymbolTable.takes_decode h.symbols) ?_
  exact takes_then (SyncTable.takes_decode h.sync) rfl

/-! ### The file -/

/-- A reader that takes `bytes` is run on a stream that starts with them. -/
theorem readPart_of_takes {r : Reader α} {bytes : Bytes} {a : α} (h : Takes r bytes a)
    (position : Nat) (rest : Bytes) :
    readPart r ⟨position, bytes ++ rest⟩ = .ok (a, ⟨position + bytes.length, rest⟩) := by
  rw [readPart, h position rest]

/-- The file of an encodable program is read back as the program. -/
theorem decode_encode {p : Program} (h : p.IsEncodable)
    (hv : Version.parse? p.version.display = some p.version) : decode p.encode = .ok p := by
  have hsum : Crc32.checksum (p.encode.drop headerSize) = Crc32.checksum p.payload := by
    rw [encode, ← length_header p.payload, List.drop_left]
  have hfile : Cursor.start p.encode = ⟨0, magic ++ (Write.u32 formatVersion ++ (Write.u32 0 ++
      (Write.u32 (Crc32.checksum p.payload) ++ (p.labels ++ (p.body ++ [])))))⟩ := by
    rw [List.append_nil, ← payload_eq]
    simp only [Cursor.start, encode, header, List.append_assoc]
  have hmagic : ∀ rest, readPart (take 4) ⟨0, magic ++ rest⟩ = .ok (magic, ⟨4, rest⟩) :=
    readPart_of_takes (takes_take magic) 0
  have hword := fun n => readPart_of_takes (takes_u32 n)
  have hlabels := readPart_of_takes (takes_decodeLabels h)
  have hbody := readPart_of_takes (takes_decodeBody h)
  unfold decode
  simp only [hsum, hfile, hmagic, hword, hlabels, hv, hbody, bind, Except.bind, pure, Except.pure,
    ne_eq, not_true_eq_false, if_false]

/-- A program with a NaN that carries a payload, a waiting slot, a pre-release and entries in every
table. -/
def specimen : Program where
  name := "specimen"
  instructionSet := instructionSetName
  version := ⟨1, 0, 0, "beta.2", ""⟩
  code := [5, 0, 0, 0, 0xFC, 0xFF, 0xFF, 0xFF]
  heap := ⟨[⟨.single, .value (.single 0x7FC00001)⟩, ⟨.string, .value (.string "a")⟩,
    ⟨.behaviour, .pending .behaviour⟩]⟩
  entryPoints := .ofList [⟨"_start", 0, .object, true⟩] (by decide)
  symbols := .ofList [⟨"ratio", 0, .single, true⟩, ⟨"text", 1, .string, false⟩] (by decide)
  sync := ⟨[⟨"ratio", .smooth⟩], by decide⟩

theorem decode_encode_specimen : decode specimen.encode = .ok specimen := by
  have h : specimen.IsEncodable := by
    constructor
    case heap | entryPoints | symbols | sync => exact ⟨by decide, by decide⟩
    all_goals decide
  exact decode_encode h (by cbv)

end EventVm.Program
