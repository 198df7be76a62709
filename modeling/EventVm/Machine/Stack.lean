import EventVm.Machine.Error

/-!
# Operand stacks

Instructions push heap addresses, never values. All runs on one machine share its stack; a nested
run notes the depth at its beginning and cuts the stack back to it at its end.
-/

namespace EventVm

/-- A stack of heap addresses, the top first, with a limit on its depth. -/
@[ext]
structure OperandStack where
  entries : List UInt32
  limit : Nat
  depth : Nat
  depth_eq : depth = entries.length
  deriving Repr

namespace OperandStack

/-- The empty stack with the given limit. -/
def new (limit : Nat) : OperandStack :=
  ⟨[], limit, 0, rfl⟩

/-- The stack with the given entries, the top first. -/
def ofList (entries : List UInt32) (limit : Nat) : OperandStack :=
  ⟨entries, limit, entries.length, rfl⟩

/-- Pushes an address unless the limit is reached. -/
def push (s : OperandStack) (address : UInt32) : Except VmError OperandStack :=
  if s.limit ≤ s.depth then .error .stackOverflow
  else .ok ⟨address :: s.entries, s.limit, s.depth + 1, by simp [s.depth_eq]⟩

/-- Pops an address. -/
def pop (s : OperandStack) : Except VmError (UInt32 × OperandStack) :=
  match s with
  | ⟨[], _, _, _⟩ => .error .stackUnderflow
  | ⟨address :: entries, limit, depth, h⟩ =>
    .ok (address, ⟨entries, limit, depth - 1, by simp [h]⟩)

/-- Pops `count` addresses, answered in the order in which they were pushed. -/
def popMany (s : OperandStack) (count : Nat) : Except VmError (List UInt32 × OperandStack) :=
  if s.depth < count then .error .stackUnderflow
  else .ok ((s.entries.take count).reverse,
    ⟨s.entries.drop count, s.limit, s.depth - count, by simp [s.depth_eq]⟩)

/-- The top address. -/
def peek? (s : OperandStack) : Option UInt32 :=
  s.entries.head?

/-- Drops everything above the given depth. -/
def truncate (s : OperandStack) (depth : Nat) : OperandStack :=
  ⟨s.entries.drop (s.depth - depth), s.limit, min s.depth depth, by
    simp [s.depth_eq]; omega⟩

/-- Drops everything. -/
def clear (s : OperandStack) : OperandStack :=
  new s.limit

end OperandStack

end EventVm
