import EventVm.Bytes.Reader
import EventVm.Opcode

/-!
# Instruction streams

Byte code is the instructions one after the other, each an opcode word and, where the opcode has
one, an operand word. `decode` reads a whole stream and says where each instruction begins; it
refuses a stream that does not end where an instruction ends.
-/

namespace EventVm

/-- An instruction and the code offset of its opcode word. -/
structure Instruction where
  offset : UInt32
  opcode : Opcode
  /-- The operand word, if the opcode has one. -/
  operand : Option UInt32
  deriving DecidableEq, Repr

/-- Why a stream of instructions could not be read. -/
inductive StreamError where
  | invalidOpcode (word offset : UInt32)
  /-- The stream ends inside the instruction at `offset`. -/
  | truncated (offset : UInt32)
  deriving DecidableEq, Repr

/-- Takes an opcode word. -/
def Opcode.decode : Reader Opcode := do
  let offset ← Reader.position
  let word ← Reader.u32
  match ofWord? word with
  | some op => return op
  | none => throw (.invalidOpcode word offset)

namespace Instruction

/-- The bytes of an opcode with an operand word where it has one. -/
def encodeWords (op : Opcode) (operand : Option UInt32) : Bytes :=
  Write.u32 op.word ++ (operand.map Write.u32).getD []

/-- The bytes of an instruction. -/
def encode (i : Instruction) : Bytes :=
  encodeWords i.opcode i.operand

/-- The word with the given bytes. -/
def wordOf (a b c d : UInt8) : UInt32 :=
  UInt32.ofNat (ofLittleEndian [a, b, c, d])

/-- The instructions of a stream that begins at `offset`. -/
def decodeFrom (offset : Nat) : Bytes → Except StreamError (List Instruction)
  | [] => .ok []
  | a :: b :: c :: d :: rest =>
    let word := wordOf a b c d
    match Opcode.ofWord? word with
    | none => .error (.invalidOpcode word (UInt32.ofNat offset))
    | some op =>
      if op.hasOperand then
        match rest with
        | e :: f :: g :: h :: rest =>
          (decodeFrom (offset + 8) rest).map
            (⟨UInt32.ofNat offset, op, some (wordOf e f g h)⟩ :: ·)
        | _ => .error (.truncated (UInt32.ofNat offset))
      else (decodeFrom (offset + 4) rest).map (⟨UInt32.ofNat offset, op, none⟩ :: ·)
  | _ => .error (.truncated (UInt32.ofNat offset))

/-- The instructions of a stream. -/
def decodeAll (code : Bytes) : Except StreamError (List Instruction) :=
  decodeFrom 0 code

end Instruction

end EventVm
