import EventVm.Machine.Basic
import Mathlib.Tactic.Common

/-!
# Effects of instructions

The table of everything that an instruction can do to its machine (`Effect`), with the proof that
there is nothing else (`effect_execute`). What instructions leave alone and what they do to the
operand stack is read off the table.
-/

namespace EventVm

/-! ### Operand stacks -/

namespace OperandStack

variable {s s' : OperandStack} {address : UInt32}

theorem push_ok (h : s.push address = .ok s') :
    s'.entries = address :: s.entries ∧ s'.limit = s.limit := by
  unfold push at h
  split at h
  · cases h
  · cases h
    exact ⟨rfl, rfl⟩

theorem pop_ok (h : s.pop = .ok (address, s')) :
    s.entries = address :: s'.entries ∧ s'.limit = s.limit := by
  unfold pop at h
  split at h
  · cases h
  · cases h
    exact ⟨rfl, rfl⟩

theorem popMany_ok {count : Nat} {args : List UInt32} (h : s.popMany count = .ok (args, s')) :
    args = (s.entries.take count).reverse ∧ s'.entries = s.entries.drop count := by
  unfold popMany at h
  split at h
  · cases h
  · cases h
    exact ⟨rfl, rfl⟩

theorem truncate_entries (s : OperandStack) (depth : Nat) :
    (s.truncate depth).entries = s.entries.drop (s.entries.length - depth) := by
  simp only [truncate, s.depth_eq]

theorem push_error {e : VmError} (h : s.push address = .error e) : e = .stackOverflow := by
  unfold push at h
  split at h
  · cases h
    rfl
  · cases h

theorem pop_error {e : VmError} (h : s.pop = .error e) : e = .stackUnderflow := by
  unfold pop at h
  split at h
  · cases h
    rfl
  · cases h

theorem popMany_error {count : Nat} {e : VmError} (h : s.popMany count = .error e) :
    e = .stackUnderflow := by
  unfold popMany at h
  split at h
  · cases h
    rfl
  · cases h

end OperandStack

namespace Machine

/-- What an instruction can do to a machine `m` behind which the program counter already stands:
answer, and the machine afterwards. -/
inductive Effect (operand : UInt32) (m : Machine) :
    Opcode → Except VmError Unit → Machine → Prop where
  | nop : Effect operand m .nop (.ok ()) m
  | remark : Effect operand m .remark (.ok ()) m
  /-- The effect of a host call is not the machine's. -/
  | call : Effect operand m .call (.ok ()) m
  | push {stack : OperandStack} (pushed : m.stack.push operand = .ok stack) :
      Effect operand m .push (.ok ()) { m with stack }
  | noPush {e : VmError} (failed : m.stack.push operand = .error e) :
      Effect operand m .push (.error e) m
  | pop {address : UInt32} {stack : OperandStack} (popped : m.stack.pop = .ok (address, stack)) :
      Effect operand m .pop (.ok ()) { m with stack }
  | noPop {e : VmError} (failed : m.stack.pop = .error e) : Effect operand m .pop (.error e) m
  | jumpIfFalse {address : UInt32} {stack : OperandStack} {condition : Bool}
      (popped : m.stack.pop = .ok (address, stack))
      (read : m.readAs .boolean Value.boolean? address = .ok condition) :
      Effect operand m .jumpIfFalse (.ok ())
        { m with stack, pc := if condition then m.pc else operand }
  | noConditionAddress {e : VmError} (failed : m.stack.pop = .error e) :
      Effect operand m .jumpIfFalse (.error e) m
  | noCondition {address : UInt32} {stack : OperandStack} {e : VmError}
      (popped : m.stack.pop = .ok (address, stack))
      (failed : m.readAs .boolean Value.boolean? address = .error e) :
      Effect operand m .jumpIfFalse (.error e) { m with stack }
  | jump : Effect operand m .jump (.ok ()) { m with pc := operand }
  | jumpIndirect {target : UInt32} (read : m.readAs .uint32 Value.uint32? operand = .ok target) :
      Effect operand m .jumpIndirect (.ok ()) { m with pc := target }
  | noTarget {e : VmError} (failed : m.readAs .uint32 Value.uint32? operand = .error e) :
      Effect operand m .jumpIndirect (.error e) m
  | copy {destination source : UInt32} {stack stack' : OperandStack} {heap : Heap}
      (popped : m.stack.pop = .ok (destination, stack)) (popped' : stack.pop = .ok (source, stack'))
      (copied : m.heap.copy source destination = .ok heap) :
      Effect operand m .copy (.ok ()) { m with stack := stack', heap }
  | noDestination {e : VmError} (failed : m.stack.pop = .error e) :
      Effect operand m .copy (.error e) m
  | noSource {destination : UInt32} {stack : OperandStack} {e : VmError}
      (popped : m.stack.pop = .ok (destination, stack)) (failed : stack.pop = .error e) :
      Effect operand m .copy (.error e) { m with stack }
  | noCopy {destination source : UInt32} {stack stack' : OperandStack} {e : HeapError}
      (popped : m.stack.pop = .ok (destination, stack)) (popped' : stack.pop = .ok (source, stack'))
      (failed : m.heap.copy source destination = .error e) :
      Effect operand m .copy (.error (.heap e)) { m with stack := stack' }

/-! ### What an instruction does to the parts of a machine -/

namespace Effect

variable {operand : UInt32} {m m' : Machine} {op : Opcode} {x : Except VmError Unit}

/-- An instruction moves the program counter and works on the stack and the heap. -/
theorem frame (h : Effect operand m op x m') :
    m' = { m with pc := m'.pc, stack := m'.stack, heap := m'.heap } := by
  cases h <;> rfl

theorem program_eq (h : Effect operand m op x m') : m'.program = m.program := by
  rw [h.frame]

theorem faulted_eq (h : Effect operand m op x m') : m'.faulted = m.faulted := by
  rw [h.frame]

theorem abortRequested_eq (h : Effect operand m op x m') :
    m'.abortRequested = m.abortRequested := by
  rw [h.frame]

/-- An instruction pushes its operand or pops some addresses. -/
theorem stack_entries (h : Effect operand m op x m') :
    (op = .push ∧ m'.stack.entries = operand :: m.stack.entries) ∨
      ∃ k, m'.stack.entries = m.stack.entries.drop k := by
  cases h with
  | push h => exact .inl ⟨rfl, (OperandStack.push_ok h).1⟩
  | nop | remark | call | noPush _ | noPop _ | noConditionAddress _ | jump | jumpIndirect _
  | noTarget _ | noDestination _ => exact .inr ⟨0, rfl⟩
  | pop h | jumpIfFalse h _ | noCondition h _ | noSource h _ =>
    rw [(OperandStack.pop_ok h).1]
    exact .inr ⟨1, rfl⟩
  | copy h h' _ | noCopy h h' _ =>
    rw [(OperandStack.pop_ok h).1, (OperandStack.pop_ok h').1]
    exact .inr ⟨2, rfl⟩

end Effect

/-! ### Instructions do what the table says -/

/-- How an action ends: with an answer or a failure, and the machine afterwards. -/
def Action.outcome (a : Action α) (m : Machine) : Except VmError α × Machine :=
  match a.run m with
  | .ok x m' => (.ok x, m')
  | .error e m' => (.error e, m')

namespace Action

variable {m : Machine}

theorem outcome_bind {a : Action α} {f : α → Action β} :
    (a >>= f).outcome m =
      match a.outcome m with
      | (.ok x, m') => (f x).outcome m'
      | (.error e, m') => (.error e, m') := by
  simp only [outcome, EStateM.run, bind, EStateM.bind]
  cases a m <;> rfl

theorem outcome_get {f : Machine → Action α} : (get >>= f).outcome m = (f m).outcome m :=
  rfl

theorem outcome_push {address : UInt32} :
    (push address).outcome m =
      match m.stack.push address with
      | .ok stack => (.ok (), { m with stack })
      | .error e => (.error e, m) := by
  rw [push, outcome_get]
  cases m.stack.push address <;> rfl

theorem outcome_pop :
    pop.outcome m =
      match m.stack.pop with
      | .ok (address, stack) => (.ok address, { m with stack })
      | .error e => (.error e, m) := by
  rw [pop, outcome_get]
  cases m.stack.pop <;> rfl

theorem outcome_readAs {expected : TypeTag} {part? : Value → Option α} {address : UInt32} :
    (readAs expected part? address).outcome m = (m.readAs expected part? address, m) := by
  rw [readAs, outcome_get]
  cases m.readAs expected part? address <;> rfl

theorem outcome_copy {source destination : UInt32} :
    (copy source destination).outcome m =
      match m.heap.copy source destination with
      | .ok heap => (.ok (), { m with heap })
      | .error e => (.error (.heap e), m) := by
  rw [copy, outcome_get]
  cases m.heap.copy source destination <;> rfl

end Action

/-- An instruction does what the table says. -/
theorem effect_execute (op : Opcode) (operand : UInt32) (m : Machine) :
    Effect operand m op ((Action.execute op operand).outcome m).1
      ((Action.execute op operand).outcome m).2 := by
  cases op with
  | nop => exact .nop
  | remark => exact .remark
  | call => exact .call
  | jump => exact .jump
  | push =>
    rw [Action.execute, Action.outcome_push]
    cases h : m.stack.push operand with
    | error e => exact .noPush h
    | ok stack => exact .push h
  | pop =>
    rw [Action.execute, Action.outcome_bind, Action.outcome_pop]
    cases h : m.stack.pop with
    | error e => exact .noPop h
    | ok popped => exact .pop h
  | jumpIfFalse =>
    rw [Action.execute, Action.outcome_bind, Action.outcome_pop]
    cases h : m.stack.pop with
    | error e => exact .noConditionAddress h
    | ok popped =>
      obtain ⟨address, stack⟩ := popped
      dsimp only
      rw [Action.outcome_bind, Action.outcome_readAs]
      have hread : ({ m with stack } : Machine).readAs .boolean Value.boolean? address =
        m.readAs .boolean Value.boolean? address := rfl
      cases hr : m.readAs .boolean Value.boolean? address with
      | error e =>
        rw [hread, hr]
        exact .noCondition h hr
      | ok condition =>
        rw [hread, hr]
        have := @Effect.jumpIfFalse operand m address stack condition h hr
        cases condition <;> exact this
  | jumpIndirect =>
    rw [Action.execute, Action.outcome_bind, Action.outcome_readAs]
    cases h : m.readAs .uint32 Value.uint32? operand with
    | error e => exact .noTarget h
    | ok target => exact .jumpIndirect h
  | copy =>
    rw [Action.execute, Action.outcome_bind, Action.outcome_pop]
    cases h : m.stack.pop with
    | error e => exact .noDestination h
    | ok popped =>
      obtain ⟨destination, stack⟩ := popped
      dsimp only
      rw [Action.outcome_bind, Action.outcome_pop]
      dsimp only
      cases h' : stack.pop with
      | error e => exact .noSource h h'
      | ok popped' =>
        obtain ⟨source, stack'⟩ := popped'
        dsimp only
        rw [Action.outcome_copy]
        dsimp only
        cases hc : m.heap.copy source destination with
        | error e => exact .noCopy h h' hc
        | ok heap => exact .copy h h' hc

end Machine

end EventVm
