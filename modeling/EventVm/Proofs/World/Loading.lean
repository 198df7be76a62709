import EventVm.Proofs.World.TypedHeap

/-!
# Loading a program with a prepared heap

Whoever loads a program into a machine may bring the heap for it. That heap is meant to have the
layout of the program: slots of the declared types, each with a value that fits. The machine
compares the number of slots only.

* `loadsLayout_iff`: a load leaves a heap of the program's layout behind, or else fails and changes
  nothing, exactly if the heap has that layout or one of the checks that are made fails. A heap that
  was got from the program's own by writing has it.
* `load_without_layout`: a heap with as many slots of another type is accepted.
-/

namespace EventVm

/-- Writing values one after the other keeps a heap typed. -/
theorem Heap.Typed.of_setAll {types : List TypeTag} {h h' : Heap} {xs : List (UInt32 × Value)}
    (ht : h.Typed types) (hs : h.setAll xs = .ok h') : h'.Typed types :=
  foldlM_induct (motive := fun _ h => h.Typed types) hs ht fun _ _ _ _ _ ht hset => ht.of_set hset

namespace Invocation

variable {call : Invocation} {w : World} {p : Program} {heap : Option Heap} {m : Machine}

/-- A load that a script asks for either takes place or leaves the world alone. -/
theorem run_load (call : Invocation) (p : Program) (heap : Option Heap) (w : World) :
    (call.load p heap).run w =
      match w.loadMachine call.machine p (heap.getD p.heap) with
      | .ok w' => .ok (.ok ()) w'
      | .error e => .ok (.error (.host e.message)) w := by
  have hload : (call.load p heap).run w =
      (match w.loadMachine call.machine p (heap.getD p.heap) with
        | .ok w' => Run.put w'
        | .error e => throw (.host e.message) : HostCall Unit).run w := rfl
  rw [hload]
  cases w.loadMachine call.machine p (heap.getD p.heap) <;> rfl

/-- A load keeps to the layout of the program: if it passes, the heap of the machine has that
layout, and if the prepared heap does not have it, the load fails and changes nothing. -/
def LoadsLayout (call : Invocation) (w : World) (p : Program) (heap : Option Heap) : Prop :=
  ∃ x w', (call.load p heap).run w = .ok x w' ∧
    (x = .ok () → ∃ m, w'.machine? call.machine = some m ∧ m.program = some p ∧
      m.heap.Typed p.types) ∧
    (¬ (heap.getD p.heap).Typed p.types → (∃ e, x = .error e) ∧ w' = w)

/-- A load whose checks fail keeps to the layout. -/
theorem loadsLayout_of_refused {e : VmError}
    (h : Machine.checkLoad w.options p (heap.getD p.heap) = .error e) :
    call.LoadsLayout w p heap := by
  have hrefused : w.loadMachine call.machine p (heap.getD p.heap) = .error e := by
    unfold World.loadMachine Machine.load
    rw [h]
    rfl
  have hrun : (call.load p heap).run w = .ok (.error (.host e.message)) w := by
    rw [run_load, hrefused]
  exact ⟨_, w, hrun, nofun, fun _ => ⟨⟨_, rfl⟩, rfl⟩⟩

/-- A load whose checks pass keeps to the layout exactly if the prepared heap does. -/
theorem loadsLayout_of_accepted (found : w.machine? call.machine = some m)
    (h : Machine.checkLoad w.options p (heap.getD p.heap) = .ok ()) :
    call.LoadsLayout w p heap ↔ (heap.getD p.heap).Typed p.types := by
  obtain ⟨m', hm', hprogram, hheap⟩ : ∃ m', (w.machine call.machine).load w.options p
      (heap.getD p.heap) = .ok m' ∧ m'.program = some p ∧ m'.heap = heap.getD p.heap :=
    ⟨_, bind_eq_ok.2 ⟨(), h, rfl⟩, rfl, rfl⟩
  have hrun : (call.load p heap).run w =
      .ok (.ok ()) (w.mapMachine (fun _ => m') call.machine) := by
    have hloaded : w.loadMachine call.machine p (heap.getD p.heap) =
        .ok (w.mapMachine (fun _ => m') call.machine) :=
      bind_eq_ok.2 ⟨m', hm', rfl⟩
    rw [run_load, hloaded]
  constructor
  · rintro ⟨x, w', hx, -, hfails⟩
    rw [hrun] at hx
    cases hx
    by_contra hlayout
    obtain ⟨⟨e, he⟩, -⟩ := hfails hlayout
    cases he
  · intro hlayout
    refine ⟨_, _, hrun, fun _ => ⟨m', ?_, hprogram, hheap ▸ hlayout⟩, fun h => absurd hlayout h⟩
    rw [World.machine?_mapMachine_self, found, Option.map_some]

/-- When a load keeps to the layout of the program: if the prepared heap has it, or the program is
not supported or not accepted, or the heap has another number of slots or a slot that waits. That is
so for every heap that was got from the program's own by writing. -/
theorem loadsLayout_iff (found : w.machine? call.machine = some m) :
    (call.LoadsLayout w p heap ↔ (heap.getD p.heap).Typed p.types ∨
      ¬ (w.options.supports p.instructionSet p.version = true ∧ p.verifyStructure = .ok () ∧
        (heap.getD p.heap).size = p.heap.size ∧ (heap.getD p.heap).pending = [])) ∧
    ∀ xs h, p.heap.setAll xs = .ok h → call.LoadsLayout w p (some h) := by
  have hmeets : ∀ heap, call.LoadsLayout w p heap ↔ (heap.getD p.heap).Typed p.types ∨
      ¬ (w.options.supports p.instructionSet p.version = true ∧ p.verifyStructure = .ok () ∧
        (heap.getD p.heap).size = p.heap.size ∧ (heap.getD p.heap).pending = []) := by
    intro heap
    rw [← Machine.checkLoad_eq_ok]
    cases hcheck : Machine.checkLoad w.options p (heap.getD p.heap) with
    | ok u => simp [loadsLayout_of_accepted found hcheck]
    | error e => simp [loadsLayout_of_refused hcheck]
  refine ⟨hmeets heap, fun xs h hset => (hmeets (some h)).2 ?_⟩
  rw [or_iff_not_imp_right, not_not]
  rintro ⟨-, hverified, -⟩
  have htyped : p.heap.Typed p.types := ⟨rfl, (Program.tables_of_verifyStructure hverified).1⟩
  exact htyped.of_setAll hset

end Invocation

/-- A program with one integer variable. -/
def Program.integer : Program :=
  { Program.empty "integer" with heap := ⟨[⟨.int32, .value (.int32 0)⟩]⟩ }

/-- A heap with a slot too many is refused. -/
theorem loadsLayout_of_longer_heap :
    (⟨.bench, "load", []⟩ : Invocation).LoadsLayout (.new .default) .integer
      (some ⟨[⟨.string, .value (.string "x")⟩, ⟨.int32, .value (.int32 0)⟩]⟩) :=
  (Invocation.loadsLayout_iff rfl).1.2 (.inr fun h => absurd h.2.2.1 (by decide))

/-- A heap with as many slots of another type is accepted: the machine then holds a text where the
program declares a number. -/
theorem load_without_layout :
    ¬ (⟨.bench, "load", []⟩ : Invocation).LoadsLayout (.new .default) .integer
      (some ⟨[⟨.string, .value (.string "x")⟩]⟩) := by
  rintro ⟨x, w', hx, hpasses, -⟩
  cases hx
  obtain ⟨m, hm, -, htyped⟩ := hpasses rfl
  cases hm
  exact absurd htyped.declared (by decide)

end EventVm
