/-!
# Opcodes

An instruction is an opcode word and, for six of the nine opcodes, an operand word. An operand is a
heap address, except for the two direct jumps, whose operand is a byte offset into the code.
-/

namespace EventVm

/-- Jumping here ends the run. -/
def haltAddress : UInt32 := 0xFFFFFFFC

/-- The operations of the machine. -/
inductive Opcode where
  | nop
  /-- Pushes the operand, a heap address. -/
  | push
  | pop
  /-- Pops the address of a Boolean and jumps if it is false. -/
  | jumpIfFalse
  | jump
  /-- Calls the host function whose signature the operand's slot holds. -/
  | call
  /-- A note for tools, without effect. -/
  | remark
  /-- Jumps to the code address that the operand's slot holds. -/
  | jumpIndirect
  /-- Pops destination and source and copies the value. -/
  | copy
  deriving DecidableEq, Repr

namespace Opcode

/-- All opcodes, by word. -/
def all : List Opcode :=
  [nop, push, pop, jumpIfFalse, jump, call, remark, jumpIndirect, copy]

/-- The word that encodes an opcode; 3 is unused. -/
def word : Opcode → UInt32
  | nop => 0
  | push => 1
  | pop => 2
  | jumpIfFalse => 4
  | jump => 5
  | call => 6
  | remark => 7
  | jumpIndirect => 8
  | copy => 9

/-- The opcode that a word encodes. -/
def ofWord? (w : UInt32) : Option Opcode :=
  all.find? fun op => op.word == w

/-- The name in assembly text. -/
def mnemonic : Opcode → String
  | nop => "NOP"
  | push => "PUSH"
  | pop => "POP"
  | jumpIfFalse => "JUMP_IF_FALSE"
  | jump => "JUMP"
  | call => "EXTERN"
  | remark => "ANNOTATION"
  | jumpIndirect => "JUMP_INDIRECT"
  | copy => "COPY"

/-- The opcode with the given name in assembly text. -/
def ofMnemonic? (name : String) : Option Opcode :=
  all.find? fun op => op.mnemonic == name

/-- Whether an operand word follows. -/
def hasOperand : Opcode → Bool
  | nop | pop | copy => false
  | push | jumpIfFalse | jump | call | remark | jumpIndirect => true

/-- Whether the operand is a heap address. -/
def takesHeapAddress : Opcode → Bool
  | push | call | remark | jumpIndirect => true
  | nop | pop | jumpIfFalse | jump | copy => false

/-- Whether the opcode sets the program counter. -/
def isJump : Opcode → Bool
  | jump | jumpIfFalse | jumpIndirect => true
  | nop | push | pop | call | remark | copy => false

/-- Whether the operand is a code offset. -/
def takesCodeOffset : Opcode → Bool
  | jump | jumpIfFalse => true
  | nop | push | pop | call | remark | jumpIndirect | copy => false

/-- The length of the instruction in bytes. -/
def size (op : Opcode) : UInt32 :=
  if op.hasOperand then 8 else 4

theorem toNat_size (op : Opcode) : op.size.toNat = if op.hasOperand then 8 else 4 := by
  unfold size
  split <;> rfl

theorem mem_all (op : Opcode) : op ∈ all := by
  cases op <;> decide

@[simp]
theorem ofWord?_word (op : Opcode) : ofWord? op.word = some op := by
  cases op <;> decide

theorem word_of_ofWord? {w : UInt32} {op : Opcode} (h : ofWord? w = some op) : op.word = w := by
  simpa using List.find?_some h

@[simp]
theorem ofMnemonic?_mnemonic (op : Opcode) : ofMnemonic? op.mnemonic = some op := by
  cases op <;> decide

end Opcode

end EventVm
