import EventVm.Proofs.World.Serving
import Mathlib.Data.List.Induction

/-!
# Activation from end to end

An activation puts the supplied variables on a copy of the program's heap, lets the host's objects
take the slots that still wait, and loads the outcome into a new machine.

* `supplyAll_heap`, `supplyAll_kept`: every slot ends up with the last variable, in order of name,
  that has its place there; the variables that the program refuses are dropped from the table.
* `resolveReferences_eq_ok`: the references are resolved exactly if the host has a fitting object
  for every slot that waits.
* `activate_unhooked`: when a behaviour without hook can be activated, what its machine has on its
  heap then, and what is left of a behaviour that cannot.
-/

namespace EventVm

/-! ### Supplied variables -/

namespace Program

/-- The place of a supplied variable on the heap: the address of the exported symbol with its name,
if the types agree and the value fits the slot. -/
def place? (p : Program) (v : PublicVariable) : Option Nat :=
  match p.symbols.get? v.name with
  | none => none
  | some s =>
    if s.exported = true ∧ v.type = s.type ∧ p.heap.accepts s.address v.value = true then
      some s.address.toNat
    else none

/-- Whether a program refuses a supplied variable: its name is that of an exported symbol, but the
types differ or the value does not fit. -/
def refuses (p : Program) (v : PublicVariable) : Bool :=
  match p.symbols.get? v.name with
  | none => false
  | some s => s.exported && (v.type != s.type || !v.value.fits s.type)

/-- The value that supplied variables leave at a place: that of the last one that belongs there. -/
def supplied? (p : Program) (vs : List PublicVariable) (i : Nat) : Option Value :=
  (vs.filter fun v => p.place? v = some i).getLast?.map PublicVariable.value

variable {p : Program} {vs : List PublicVariable} {v : PublicVariable} {i : Nat}

theorem supplied?_concat : p.supplied? (vs ++ [v]) i =
    if p.place? v = some i then some v.value else p.supplied? vs i := by
  unfold supplied?
  rw [List.filter_append, List.filter_singleton]
  by_cases hv : p.place? v = some i <;> simp [hv]

/-- Nothing is left at a place where no variable belongs. -/
theorem supplied?_eq_none : p.supplied? vs i = none ↔ ∀ v ∈ vs, p.place? v ≠ some i := by
  simp [supplied?]

/-- In a checked program, what can be put at the address of a symbol is what fits its type. -/
theorem accepts_of_verifyStructure {s : Symbol} {name : String}
    (hv : p.verifyStructure = .ok ()) (hs : p.symbols.get? name = some s) (v : Value) :
    p.heap.accepts s.address v = v.fits s.type := by
  obtain ⟨-, hsymbols, -⟩ := verifyStructure_eq_ok.1 hv
  obtain ⟨slot, hslot, hdeclared⟩ := hsymbols s (SymbolTable.get?_eq_some.1 hs).1
  rw [Heap.accepts, hslot, Option.any_some, hdeclared]

end Program

/-- Filling slots leaves their types alone. -/
theorem declared_filled (slots : List Slot) (value? : Nat → Option Value) :
    (slots.mapIdx fun i s => (value? i).elim s s.filled).map Slot.declared =
      slots.map Slot.declared := by
  refine List.ext_getElem? fun i => ?_
  rw [List.getElem?_map, List.getElem?_mapIdx, Option.map_map, List.getElem?_map]
  refine congrArg (Option.map · _) (funext fun s => ?_)
  cases value? i <;> simp [Slot.filled]

namespace World

variable {b : Behaviour} {p : Program} {heap : Heap} {kept : PublicVariables}
  {events : List LogEvent} {v : PublicVariable}

/-- A supplied variable fills its place on a heap with the program's types, if it has one. -/
theorem supplyOne_heap (hd : heap.slots.map Slot.declared = p.types) :
    (supplyOne b p (heap, kept, events) v).1.slots = match p.place? v with
      | some i => heap.slots.modify i (·.filled v.value)
      | none => heap.slots := by
  unfold supplyOne Program.place?
  dsimp only
  cases p.symbols.get? v.name with
  | none => rfl
  | some s =>
    have haccepts := Heap.accepts_congr hd s.address v.value
    dsimp only
    by_cases he : s.exported = true
    · rw [if_neg (by simp [he])]
      by_cases ht : v.type = s.type
      · rw [if_neg (not_not.2 ht), ← haccepts]
        cases hset : heap.set s.address v.value with
        | ok heap' =>
          rw [if_pos ⟨he, ht, Heap.accepts_iff.2 ⟨heap', hset⟩⟩]
          exact Heap.slots_of_set hset
        | error e =>
          have hrefused : ¬ heap.accepts s.address v.value = true := by
            intro h
            obtain ⟨heap', hset'⟩ := Heap.accepts_iff.1 h
            rw [hset] at hset'
            cases hset'
          rw [if_neg fun h => hrefused h.2.2]
      · rw [if_pos ht, if_neg fun h => ht h.2.1]
    · rw [if_pos (by simp [he]), if_neg fun h => he h.1]

/-- Supplied variables fill their places on the program's heap, one after the other. -/
theorem slots_supplied (kept : PublicVariables) (events : List LogEvent)
    (vs : List PublicVariable) :
    (vs.foldl (supplyOne b p) (p.heap, kept, events)).1.slots =
      p.heap.slots.mapIdx fun i s => (p.supplied? vs i).elim s s.filled := by
  induction vs using List.reverseRecOn with
  | nil =>
    refine List.ext_getElem? fun i => ?_
    simp [Program.supplied?]
  | append_singleton vs v ih =>
    rw [List.foldl_concat]
    generalize vs.foldl (supplyOne b p) (p.heap, kept, events) = s at ih
    obtain ⟨heap, kept, events⟩ := s
    dsimp only at ih
    have hd : heap.slots.map Slot.declared = p.types := ih ▸ declared_filled ..
    rw [supplyOne_heap hd, ih]
    refine List.ext_getElem? fun i => ?_
    rw [List.getElem?_mapIdx]
    simp only [Program.supplied?_concat]
    cases hv : p.place? v with
    | none => simp
    | some j =>
      rw [List.getElem?_modify, List.getElem?_mapIdx]
      cases p.heap.slots[i]? with
      | none => rfl
      | some s =>
        by_cases hj : j = i
        · cases p.supplied? vs i <;> simp [hj, Slot.filled]
        · simp [hj]

/-- A variable that a checked program refuses is dropped, any other is kept. -/
theorem supplyOne_kept (hv : p.verifyStructure = .ok ())
    (hd : heap.slots.map Slot.declared = p.types) :
    (supplyOne b p (heap, kept, events) v).2.1 =
      if p.refuses v then kept.erase v.name else kept := by
  unfold supplyOne Program.refuses
  dsimp only
  cases hs : p.symbols.get? v.name with
  | none => rfl
  | some s =>
    have haccepts := Heap.accepts_congr hd s.address v.value
    rw [Program.accepts_of_verifyStructure hv hs] at haccepts
    dsimp only
    by_cases he : s.exported = true
    · rw [if_neg (by simp [he])]
      by_cases ht : v.type = s.type
      · rw [if_neg (not_not.2 ht)]
        cases hset : heap.set s.address v.value with
        | ok heap' =>
          have hfits : v.value.fits s.type = true := by
            rw [← haccepts]
            exact Heap.accepts_iff.2 ⟨heap', hset⟩
          simp [he, ht, hfits]
        | error e =>
          have hrefused : v.value.fits s.type = false := by
            rw [← haccepts, Bool.eq_false_iff]
            intro h
            obtain ⟨heap', hset'⟩ := Heap.accepts_iff.1 h
            rw [hset] at hset'
            cases hset'
          simp [he, ht, hrefused]
      · rw [if_pos ht]
        simp [he, ht]
    · rw [if_pos (by simp [he])]
      simp [he]

/-- The variables that a checked program refuses are dropped, the others are kept. -/
theorem entries_supplied (hv : p.verifyStructure = .ok ()) (vs : List PublicVariable) :
    (vs.foldl (supplyOne b p) (p.heap, kept, events)).2.1.entries =
      kept.entries.filter fun x => !vs.any fun v => v.name == x.name && p.refuses v := by
  induction vs using List.reverseRecOn with
  | nil => simp
  | append_singleton vs v ih =>
    have hslots := slots_supplied (b := b) (p := p) kept events vs
    rw [List.foldl_concat]
    generalize vs.foldl (supplyOne b p) (p.heap, kept, events) = s at ih hslots
    obtain ⟨heap, kept', events⟩ := s
    dsimp only at ih hslots
    rw [supplyOne_kept hv (hslots ▸ declared_filled ..)]
    by_cases hr : p.refuses v = true
    · rw [if_pos hr]
      refine (congrArg (List.filter _) ih).trans ?_
      rw [List.filter_filter]
      refine List.filter_congr fun x _ => ?_
      have hname : (x.name != v.name) = !(v.name == x.name) := by rw [bne, BEq.comm]
      rw [List.any_append, hname]
      simp [hr, Bool.and_comm]
    · rw [if_neg hr, ih]
      refine List.filter_congr fun x _ => ?_
      simp [hr]

/-- What is left of the supplied variables when a checked program has been loaded: those that it
does not refuse. -/
theorem supplyAll_kept (hv : p.verifyStructure = .ok ()) : (supplyAll b p).2.1.entries =
    b.supplied.entries.filter fun v => !p.refuses v := by
  refine (entries_supplied hv _).trans (List.filter_congr fun x hx => ?_)
  refine congrArg not (Bool.eq_iff_iff.2 ?_)
  rw [List.any_eq_true]
  constructor
  · rintro ⟨v, hmem, h⟩
    rw [Bool.and_eq_true, beq_iff_eq] at h
    obtain rfl := List.inj_on_of_nodup_map b.supplied.names_nodup hmem hx h.1
    exact h.2
  · intro h
    exact ⟨x, hx, by simp [h]⟩

/-- Every slot of the heap that an activation starts from holds the last variable supplied for
it, if there is one, and otherwise what the program's slot holds. -/
theorem supplyAll_heap : (supplyAll b p).1.slots =
    p.heap.slots.mapIdx fun i s => (p.supplied? b.supplied.entries i).elim s s.filled :=
  slots_supplied _ _ _

theorem length_supplyAll (b : Behaviour) (p : Program) :
    (supplyAll b p).1.slots.length = p.heap.slots.length := by
  rw [supplyAll_heap, List.length_mapIdx]

/-- The slots that still wait when the variables have been supplied are those of the program for
which there is none. -/
theorem waits_supplyAll {i : Nat} {s : Slot} {t : TypeTag} (ht : s.content = .pending t) :
    (supplyAll b p).1.slots[i]? = some s ↔
      p.heap.slots[i]? = some s ∧ ∀ v ∈ b.supplied.entries, p.place? v ≠ some i := by
  rw [supplyAll_heap, List.getElem?_mapIdx, ← Program.supplied?_eq_none]
  cases p.supplied? b.supplied.entries i with
  | none => simp
  | some v =>
    suffices h : ∀ s', p.heap.slots[i]? = some s' → s'.filled v ≠ s by
      simpa using fun s' hs' => h s' hs'
    rintro s' - rfl
    cases ht

end World

/-! ### References to the host -/

namespace Behaviour

/-- The host has an object for a slot, if that waits for one. -/
def Resolvable (b : Behaviour) (s : Slot) : Prop :=
  ∀ t, s.content = .pending t →
    ∃ o, b.resolve? t = some o ∧ (Value.object o).fits s.declared = true

/-- The slot, with the host's object in it if it waits for one. -/
def resolved (b : Behaviour) (s : Slot) : Slot :=
  match s.content with
  | .value _ => s
  | .pending t => (b.resolve? t).elim s fun o => s.filled (.object o)

/-- Puts the object into a slot that waits for it. -/
def resolveOne (b : Behaviour) (h : Heap) (x : UInt32 × TypeTag) : Except LoadError Heap :=
  match b.resolve? x.2 with
  | none => .error (.unsupportedReference x.1 x.2)
  | some o => (h.set x.1 (.object o)).mapError .heap

variable {b : Behaviour} {h h' : Heap} {s : Slot} {t : TypeTag} {g r : UInt64}

/-- The host of an object with its transform has objects of three types, each fitting only slots of
its type and of the general one. -/
theorem resolvable_iff (hb : b.host = .of g r) (hs : s.content = .pending t) : b.Resolvable s ↔
    (t = .gameObject ∨ t = .transform ∨ t = .behaviour) ∧
      (s.declared = t ∨ s.declared = .object) := by
  have hfits : ∀ o : ObjectRef, (Value.object o).fits s.declared = true ↔
      s.declared.objectKind? = some o.kind ∨ s.declared = .object := by
    rintro ⟨kind, id⟩
    cases s.declared <;> cases kind <;> simp [Value.fits, TypeTag.objectKind?]
  have hresolvable : b.Resolvable s ↔ ∃ o, b.resolve? t = some o ∧
      (Value.object o).fits s.declared = true := by
    simp [Resolvable, hs]
  rw [hresolvable]
  simp only [hfits]
  cases t <;> cases s.declared <;>
    simp [resolve?, hb, HostObjects.of, BehaviourId.toRef, TypeTag.objectKind?]

/-- A slot that waits is resolved if the host has an object for it. -/
theorem resolveOne_eq_ok {done todo : List Slot} (hs : s.content = .pending t)
    (hn : done.length < UInt32.size) :
    b.resolveOne ⟨done ++ s :: todo⟩ (UInt32.ofNat done.length, t) = .ok h' ↔
      b.Resolvable s ∧ h' = ⟨done ++ b.resolved s :: todo⟩ := by
  have haddress : (UInt32.ofNat done.length).toNat = done.length :=
    UInt32.toNat_ofNat_of_lt' hn
  have hslot : (⟨done ++ s :: todo⟩ : Heap).slot? (UInt32.ofNat done.length) = some s := by
    simp [Heap.slot?, haddress]
  have hresolvable : b.Resolvable s ↔ ∃ o, b.resolve? t = some o ∧
      (Value.object o).fits s.declared = true := by
    simp [Resolvable, hs]
  have hresolved : ∀ o, b.resolve? t = some o → b.resolved s = s.filled (.object o) := by
    intro o ho
    simp only [resolved, hs, ho, Option.elim_some]
  rw [hresolvable, resolveOne]
  cases ho : b.resolve? t with
  | none => simp
  | some o =>
    dsimp only
    rw [mapError_eq_ok, hresolved o ho]
    have hset : ∀ h', (⟨done ++ s :: todo⟩ : Heap).set (UInt32.ofNat done.length) (.object o) =
        .ok h' → (Value.object o).fits s.declared = true ∧
          h' = ⟨done ++ s.filled (.object o) :: todo⟩ := by
      intro h' hset
      obtain ⟨s', hs', hfits, rfl⟩ := Heap.set_ok hset
      rw [hslot] at hs'
      cases hs'
      refine ⟨hfits, congrArg Heap.mk ?_⟩
      simp [haddress, Slot.filled]
    constructor
    · intro h
      exact ⟨⟨o, rfl, (hset h' h).1⟩, (hset h' h).2⟩
    · rintro ⟨⟨o', ho', hfits⟩, rfl⟩
      cases ho'
      obtain ⟨h', h⟩ := Heap.set_of_fits hslot hfits
      rw [h, (hset h' h).2]

/-- Slots are resolved one after the other: the first ones are done when the next ones are due. -/
theorem foldlM_resolveOne (done todo : List Slot)
    (hw : ∀ i s t, todo[i]? = some s → s.content = .pending t → done.length + i < UInt32.size) :
    (Heap.pendingFrom done.length todo).foldlM b.resolveOne ⟨done ++ todo⟩ = .ok h' ↔
      (∀ s ∈ todo, b.Resolvable s) ∧ h' = ⟨done ++ todo.map b.resolved⟩ := by
  induction todo generalizing done with
  | nil =>
    rw [Heap.pendingFrom_nil, List.foldlM_nil, List.map_nil, eq_comm (a := h')]
    simp [pure, Except.pure]
  | cons s todo ih =>
    have hnext : ∀ s', (Heap.pendingFrom (done.length + 1) todo).foldlM b.resolveOne
        ⟨done ++ s' :: todo⟩ = .ok h' ↔
          (∀ s ∈ todo, b.Resolvable s) ∧ h' = ⟨done ++ s' :: todo.map b.resolved⟩ := by
      intro s'
      have ih := ih (done ++ [s']) fun i s t hs ht => by
        have := hw (i + 1) s t hs ht
        rw [List.length_append, List.length_singleton]
        omega
      simpa only [List.length_append, List.length_singleton, List.append_assoc,
        List.singleton_append] using ih
    rw [Heap.pendingFrom_cons, List.foldlM_append, List.forall_mem_cons, List.map_cons]
    cases hs : s.content with
    | value v =>
      have hresolvable : b.Resolvable s := fun t ht => by
        rw [hs] at ht
        cases ht
      have hresolved : b.resolved s = s := by simp only [resolved, hs]
      rw [hresolved]
      exact (hnext s).trans ⟨fun h => ⟨⟨hresolvable, h.1⟩, h.2⟩, fun h => ⟨h.1.2, h.2⟩⟩
    | pending t =>
      have hone : ∀ h₁, b.resolveOne ⟨done ++ s :: todo⟩ (UInt32.ofNat done.length, t) = .ok h₁ ↔
          b.Resolvable s ∧ h₁ = ⟨done ++ b.resolved s :: todo⟩ := fun _ =>
        resolveOne_eq_ok hs (hw 0 s t rfl hs)
      simp only [Content.pending?, Option.map_some, Option.toList_some, List.foldlM_cons,
        List.foldlM_nil, bind_pure]
      rw [bind_eq_ok]
      constructor
      · rintro ⟨h₁, hfirst, hrest⟩
        obtain ⟨hresolvable, rfl⟩ := (hone h₁).1 hfirst
        obtain ⟨hall, rfl⟩ := (hnext _).1 hrest
        exact ⟨⟨hresolvable, hall⟩, rfl⟩
      · rintro ⟨⟨hresolvable, hall⟩, rfl⟩
        exact ⟨_, (hone _).2 ⟨hresolvable, rfl⟩, (hnext _).2 ⟨hall, rfl⟩⟩

/-- If all slots that wait have an address, the references are resolved exactly if the host has an
object for each of them. -/
theorem resolveReferences_eq_ok
    (hw : ∀ i s t, h.slots[i]? = some s → s.content = .pending t → i < UInt32.size) :
    b.resolveReferences h = .ok h' ↔
      (∀ s ∈ h.slots, b.Resolvable s) ∧ h' = ⟨h.slots.map b.resolved⟩ :=
  foldlM_resolveOne [] h.slots fun i s t hs ht => by
    rw [List.length_nil, Nat.zero_add]
    exact hw i s t hs ht

/-- What the slots hold when the variables have been supplied and the references resolved. -/
theorem map_resolved_supplyAll (b : Behaviour) (p : Program) :
    (World.supplyAll b p).1.slots.map b.resolved = p.heap.slots.mapIdx fun i s =>
      match p.supplied? b.supplied.entries i with
      | some v => s.filled v
      | none => b.resolved s := by
  rw [World.supplyAll_heap]
  refine List.ext_getElem? fun i => ?_
  rw [List.getElem?_map, List.getElem?_mapIdx, List.getElem?_mapIdx, Option.map_map]
  refine congrArg (Option.map · _) (funext fun s => ?_)
  cases p.supplied? b.supplied.entries i with
  | none => simp
  | some v => simp [resolved, Slot.filled]

end Behaviour

/-! ### Building the machine -/

namespace World

section Building

variable {o : Options} {b : Behaviour} {p : Program} {heap : Heap} {m : Machine}

/-- Slots that have no address keep waiting: they cannot be written. -/
theorem addressed_of_resolved {heap' : Heap} (hr : b.resolveReferences heap = .ok heap')
    (hp : heap'.pending = []) {i : Nat} {s : Slot} {t : TypeTag} (hs : heap.slots[i]? = some s)
    (ht : s.content = .pending t) : i < UInt32.size := by
  by_contra hi
  have hkept : heap'.slots[i]? = heap.slots[i]? := by
    refine resolveReferences_induct (motive := fun h => h.slots[i]? = heap.slots[i]?) hr rfl ?_
    intro h h' address v hh hset
    have hne : address.toNat ≠ i := fun he => hi (he ▸ address.toNat_lt_size)
    rw [Heap.slots_of_set hset, List.getElem?_modify, hh]
    simp [hne]
  have hwaits := Heap.pending_eq_nil.1 hp s (List.mem_of_getElem? (hkept.trans hs))
  rw [ht] at hwaits
  cases hwaits

/-- When a machine can be built on a heap of the program's size, and what it is then. -/
theorem buildMachine_eq_ok (hd : heap.slots.length = p.heap.slots.length) :
    buildMachine o b p heap = .ok m ↔
      (o.supports p.instructionSet p.version = true ∧ p.verifyStructure = .ok () ∧
        ∀ i s t, heap.slots[i]? = some s → s.content = .pending t →
          i < UInt32.size ∧ b.Resolvable s) ∧
      m = { Machine.new o with program := some p, heap := ⟨heap.slots.map b.resolved⟩ } := by
  constructor
  · intro h
    obtain ⟨heap', hresolved, hload⟩ := bind_eq_ok.1 h
    obtain ⟨_, hcheck, hm⟩ := bind_eq_ok.1 (mapError_eq_ok.1 hload)
    obtain ⟨hs, hv, -, hpending⟩ := Machine.checkLoad_eq_ok.1 hcheck
    have hw := fun i s t => addressed_of_resolved (i := i) (s := s) (t := t) hresolved hpending
    obtain ⟨hall, rfl⟩ := (Behaviour.resolveReferences_eq_ok hw).1 hresolved
    cases hm
    exact ⟨⟨hs, hv, fun i s t hslot ht =>
      ⟨hw i s t hslot ht, hall s (List.mem_of_getElem? hslot)⟩⟩, rfl⟩
  · rintro ⟨⟨hs, hv, hw⟩, rfl⟩
    have hall : ∀ s ∈ heap.slots, b.Resolvable s := by
      intro s hmem t ht
      obtain ⟨i, hi⟩ := List.mem_iff_getElem?.1 hmem
      exact (hw i s t hi ht).2 t ht
    refine bind_eq_ok.2 ⟨_, (Behaviour.resolveReferences_eq_ok fun i s t hslot ht =>
      (hw i s t hslot ht).1).2 ⟨hall, rfl⟩, mapError_eq_ok.2 (bind_eq_ok.2 ⟨(), ?_, rfl⟩)⟩
    refine Machine.checkLoad_eq_ok.2 ⟨hs, hv, ?_, Heap.pending_eq_nil.2 ?_⟩
    · simpa [Heap.size] using hd
    · intro s' hmem
      obtain ⟨s, hslot, rfl⟩ := List.mem_map.1 hmem
      unfold Behaviour.resolved
      cases hc : s.content with
      | value v => simp [hc, Content.pending?]
      | pending t =>
        obtain ⟨obj, hobj, -⟩ := hall s hslot t hc
        simp [hobj, Slot.filled, Content.pending?]

/-- When a machine can be built once the supplied variables are in their places. -/
theorem exists_buildMachine_iff {gameObject transform : UInt64}
    (hhost : b.host = .of gameObject transform) :
    (∃ m, buildMachine o b p (supplyAll b p).1 = .ok m) ↔
      o.supports p.instructionSet p.version = true ∧ p.verifyStructure = .ok () ∧
        ∀ i s t, p.heap.slots[i]? = some s → s.content = .pending t →
          (∀ v ∈ b.supplied.entries, p.place? v ≠ some i) →
          i < UInt32.size ∧ (t = .gameObject ∨ t = .transform ∨ t = .behaviour) ∧
            (s.declared = t ∨ s.declared = .object) := by
  have hbuild := fun m => buildMachine_eq_ok (o := o) (b := b) (m := m) (length_supplyAll b p)
  constructor
  · rintro ⟨m, hm⟩
    obtain ⟨hs, hv, hall⟩ := ((hbuild m).1 hm).1
    refine ⟨hs, hv, fun i s t hslot ht hno => ?_⟩
    obtain ⟨hi, hr⟩ := hall i s t ((waits_supplyAll ht).2 ⟨hslot, hno⟩) ht
    exact ⟨hi, (Behaviour.resolvable_iff hhost ht).1 hr⟩
  · rintro ⟨hs, hv, hall⟩
    refine ⟨_, (hbuild _).2 ⟨⟨hs, hv, fun i s t hslot ht => ?_⟩, rfl⟩⟩
    obtain ⟨hslot, hno⟩ := (waits_supplyAll ht).1 hslot
    obtain ⟨hi, hr⟩ := hall i s t hslot ht hno
    exact ⟨hi, (Behaviour.resolvable_iff hhost ht).2 hr⟩

/-- What such a machine holds. -/
theorem slots_of_buildMachine (h : buildMachine o b p (supplyAll b p).1 = .ok m) :
    m.heap.slots = p.heap.slots.mapIdx fun i s =>
      match p.supplied? b.supplied.entries i with
      | some v => s.filled v
      | none => b.resolved s := by
  obtain ⟨-, rfl⟩ := (buildMachine_eq_ok (length_supplyAll b p)).1 h
  exact Behaviour.map_resolved_supplyAll ..

end Building

/-! ### Activating -/

section Activating

variable {w : World} {b : Behaviour} {p : Program}

/-- What the part of an activation before the hook answers, and what it makes of the behaviour. -/
theorem beginActivation_eq (hb : w.behaviour? b.id = some b) (hp : b.program = some p) :
    (w.beginActivation b).1 = (buildMachine w.options b p (supplyAll b p).1).map (fun _ => ()) ∧
    (w.beginActivation b).2.behaviour? b.id =
      some (match buildMachine w.options b p (supplyAll b p).1 with
        | .ok m => { b with
          supplied := (supplyAll b p).2.1
          machine := some m
          events := .ofEntryPoints p.entryPoints
          state := .ready }
        | .error _ => { b with supplied := (supplyAll b p).2.1, state := .disabled }) := by
  have hmap : ∀ {v : World} {b' : Behaviour} (f : Behaviour → Behaviour),
      (∀ b, (f b).id = b.id) → v.behaviour? b.id = some b' →
        (v.mapBehaviour b.id f).behaviour? b.id = some (f b') := by
    intro v b' f hf hv
    rw [behaviour?_mapBehaviour f hf, if_pos rfl, hv, Option.map_some]
  have hloading := hmap (fun b => { b with state := .loading }) (fun _ => rfl) hb
  obtain ⟨v, hsupplied, hfails, hloads⟩ : ∃ v : World,
      v.behaviour? b.id = some { b with supplied := (supplyAll b p).2.1, state := .loading } ∧
      (∀ e, buildMachine w.options b p (supplyAll b p).1 = .error e →
        (w.setState b.id .loading).loadBehaviour b = (.error e, v)) ∧
      ∀ m, buildMachine w.options b p (supplyAll b p).1 = .ok m →
        (w.setState b.id .loading).loadBehaviour b = (.ok (), v.mapBehaviour b.id fun b =>
          { b with machine := some m, events := .ofEntryPoints p.entryPoints }) := by
    refine ⟨_, behaviour?_supply (supplyAll b p).2.2.reverse _ hloading, ?_⟩
    unfold loadBehaviour
    rw [hp]
    dsimp only
    rw [(Continues.supply (w.setState b.id .loading) b.id _ _).options, options_setState]
    constructor
    · intro e he
      rw [he]
      rfl
    · intro m hm
      rw [hm]
      rfl
  unfold beginActivation
  cases hbuild : buildMachine w.options b p (supplyAll b p).1 with
  | error e =>
    rw [hfails e hbuild]
    exact ⟨rfl, hmap (fun b => { b with state := .disabled }) (fun _ => rfl) hsupplied⟩
  | ok m =>
    rw [hloads m hbuild]
    have hbuilt := hmap (fun b =>
      { b with machine := some m, events := .ofEntryPoints p.entryPoints }) (fun _ => rfl) hsupplied
    exact ⟨rfl, hmap (fun b => { b with state := .ready }) (fun _ => rfl) hbuilt⟩

/-- Without a hook, an activation is over after the part before the hook. -/
theorem activate_of_unhooked (hb : w.behaviour? b.id = some b) (hs : b.state = .unloaded)
    (hh : b.hook = none) (hp : b.program = some p) (fuel : Nat) :
    ∃ w', activate (fuel + 1) b.id w = .ok (w.beginActivation b).1 w' ∧
      w'.behaviour? b.id = (w.beginActivation b).2.behaviour? b.id := by
  suffices h : (activateWith (reentry fuel) b.id).Ends w (fun x w' => x = (w.beginActivation b).1 ∧
      w'.behaviour? b.id = (w.beginActivation b).2.behaviour? b.id) fun _ => False by
    obtain ⟨x, w', hok, rfl, hw'⟩ := h.exists_ok
    exact ⟨w', hok, hw'⟩
  refine activateWith_ends (fun h => absurd hs (h b hb)) ?_ ?_
  · intro b' e w' hb' _ hfailed
    cases hb.symm.trans hb'
    rw [hfailed]
    exact ⟨rfl, rfl⟩
  · intro b' w' hb' _ hloaded
    cases hb.symm.trans hb'
    have hhook : (w'.behaviour? b.id).bind Behaviour.hook = none := by
      have hbegun := (beginActivation_eq hb hp).2
      rw [hloaded] at hbegun
      rw [hbegun, Option.bind_some]
      split <;> exact hh
    unfold takeHook
    rw [Run.ends_bind, Run.ends_behaviour?, hhook, Run.ends_pure, hloaded]
    exact ⟨rfl, rfl⟩

end Activating

end World

/-! ### Behaviours that have not been activated -/

section Unloaded

variable {k : Access} {o : Options} {c c' : Moment} {d : Deed} {id : BehaviourId} {w : World}
  {b : Behaviour} {p : Program}

open Moment

/-- A behaviour that has not been activated has no handlers. -/
theorem Moment.Step.unhandled (h : Step k c d c') (hc : c.Consistent k)
    (before : c.world.state? id = some .unloaded → ∃ q, c.world.plan? id = some (q, .empty))
    (hs : c'.world.state? id = some .unloaded) : ∃ q, c'.world.plan? id = some (q, .empty) := by
  have hfound : ∀ v : World, v.state? id = (v.behaviour? id).map (·.state) := fun _ => rfl
  have hplanned : ∀ v : World, v.plan? id = none ↔ v.state? id = none := by
    intro v
    rw [hfound, World.plan?, Option.map_eq_none_iff, Option.map_eq_none_iff]
  have hplan := h.plans id
  have hplanned' := hplanned c'.world
  cases hs₀ : c.world.state? id with
  | none =>
    rw [(hplanned _).2 hs₀] at hplan
    generalize c'.world.plan? id = t? at hplan hplanned' ⊢
    cases hplan with
    | created => exact ⟨_, rfl⟩
    | kept | dropped =>
      rw [hplanned'.1 rfl] at hs
      cases hs
  | some s =>
    by_cases hu : s = .unloaded
    · subst hu
      have hturn := h.turns id
      rw [hs₀, hs] at hturn
      obtain ⟨q, hq⟩ := before hs₀
      rw [hq] at hplan
      generalize c'.world.plan? id = t? at hplan hplanned' ⊢
      cases hplan with
      | kept => exact ⟨q, rfl⟩
      | dropped =>
        rw [hplanned'.1 rfl] at hs
        cases hs
      | activated =>
        cases hturn with
        | kept other => exact absurd rfl other
    · exact absurd hs (h.state?_ne_unloaded hc hs₀ hu)

/-- A behaviour that has not been activated has neither a machine nor handlers. -/
theorem Reachable.unloaded (hw : Reachable k o w) (hb : w.behaviour? id = some b)
    (hs : b.state = .unloaded) : b.machine = none ∧ b.events = .empty := by
  obtain ⟨es, rs, h⟩ := hw.account
  have hinv := h.induct (P := fun c => c.Consistent k ∧ ∀ id, c.world.state? id = some .unloaded →
    ∃ q, c.world.plan? id = some (q, .empty)) ⟨consistent_start k o, nofun⟩
    fun hstep hc => ⟨hstep.consistent hc.1, fun id => hstep.unhandled hc.1 (hc.2 id)⟩
  have hstate := World.state?_of_behaviour? hb
  rw [hs] at hstate
  constructor
  · cases hm : b.machine with
    | none => rfl
    | some m =>
      exact absurd hstate (hinv.1.activated id m (World.machine?_of_behaviour? hb hm)).1
  · obtain ⟨q, hq⟩ := hinv.2 id hstate
    rw [World.plan?_of_behaviour? hb] at hq
    exact (Prod.mk.inj (Option.some.inj hq)).2

/-- In every world that a host can reach, for every behaviour that has not been activated, has a
program and no hook: it can be activated exactly if the machine supports and accepts the program and
the host has a fitting object for every slot that waits and that no supplied variable fills. Then it
is ready, and each slot of its machine holds the last variable, in order of name, that has its place
there, or else what the host has for it, or else what the program's slot holds. Otherwise it is
disabled, without machine and handlers. A checked program loses just the variables that it
refuses. A slot that waits beyond the addresses of 32 bits cannot be filled. -/
theorem activate_unhooked (hw : Reachable k o w) (hb : w.behaviour? id = some b)
    (unloaded : b.state = .unloaded) (unhooked : b.hook = none) (hp : b.program = some p)
    {gameObject transform : UInt64} (hhost : b.host = .of gameObject transform) (fuel : Nat) :
    ∃ x w' b', World.activate (fuel + 1) id w = .ok x w' ∧ w'.behaviour? id = some b' ∧
      (x = .ok () ↔ w.options.supports p.instructionSet p.version = true ∧
        p.verifyStructure = .ok () ∧
        ∀ i s t, p.heap.slots[i]? = some s → s.content = .pending t →
          (∀ v ∈ b.supplied.entries, p.place? v ≠ some i) →
          i < UInt32.size ∧ (t = .gameObject ∨ t = .transform ∨ t = .behaviour) ∧
            (s.declared = t ∨ s.declared = .object)) ∧
      (x = .ok () → b'.state = .ready ∧ b'.program = some p ∧
        ∃ m, b'.machine = some m ∧ m.program = some p ∧
          m.heap.slots = p.heap.slots.mapIdx fun i s =>
            match p.supplied? b.supplied.entries i with
            | some v => s.filled v
            | none => b.resolved s) ∧
      (∀ e, x = .error e → b'.state = .disabled ∧ b'.program = some p ∧ b'.machine = none ∧
        b'.events = .empty) ∧
      (p.verifyStructure = .ok () →
        b'.supplied.entries = b.supplied.entries.filter fun v => !p.refuses v) := by
  obtain rfl := World.id_of_behaviour? hb
  obtain ⟨hmachine, hevents⟩ := hw.unloaded hb unloaded
  obtain ⟨hx, hb'⟩ := World.beginActivation_eq hb hp
  obtain ⟨w', hactivated, hkept⟩ := World.activate_of_unhooked hb unloaded unhooked hp fuel
  rw [hb'] at hkept
  refine ⟨_, w', _, hactivated, hkept, ?_, ?_, ?_, ?_⟩
  · rw [hx, ← World.exists_buildMachine_iff hhost, map_eq_ok]
    simp
  · rw [hx]
    intro h
    obtain ⟨m, hm, -⟩ := map_eq_ok.1 h
    rw [hm]
    exact ⟨rfl, hp, m, rfl, (World.buildMachine_ok hm).1, World.slots_of_buildMachine hm⟩
  · intro e he
    rw [hx] at he
    cases hm : World.buildMachine w.options b p (World.supplyAll b p).1 with
    | ok m =>
      rw [hm] at he
      cases he
    | error e' => exact ⟨rfl, hp, hmachine, hevents⟩
  · intro hv
    rw [← World.supplyAll_kept hv]
    split <;> rfl

end Unloaded

/-- A program whose first slot has two names; the others wait for the host. -/
def Program.waiting : Program where
  name := "waiting"
  instructionSet := instructionSetName
  version := instructionSetVersion
  code := []
  heap := ⟨[⟨.int32, .value (.int32 0)⟩, ⟨.behaviour, .pending .behaviour⟩,
    ⟨.object, .pending .transform⟩]⟩
  entryPoints := .empty
  symbols := .ofList [⟨"first", 0, .int32, true⟩, ⟨"second", 0, .int32, true⟩] (by decide)
  sync := .empty

/-- Values for both names of a slot, the second of which counts, and one of the wrong type. -/
theorem activate_unhooked_waiting : ∃ w w' b' m, Reachable .full .default w ∧
    World.activate 1 ⟨1⟩ w = .ok (.ok ()) w' ∧ w'.behaviour? ⟨1⟩ = some b' ∧
    b'.machine = some m ∧ m.heap.slots = [⟨.int32, .value (.int32 8)⟩,
      ⟨.behaviour, .value (.object ⟨.behaviour, 1⟩)⟩,
      ⟨.object, .value (.object ⟨.transform, 3⟩)⟩] := by
  let t : PublicVariables :=
    ⟨[⟨"first", .int32, .int32 7⟩, ⟨"second", .int32, .int32 8⟩], by decide +kernel⟩
  let w : World := ((World.new .default).addBehaviour (.of 2 3) (some .waiting)).mapBehaviour ⟨1⟩
    fun b => { b with supplied := t }
  have hw : Reachable .full .default w :=
    .between (.act (.act .new (.create (.of 2 3) (some .waiting)) rfl)
      (.operate 0 ⟨1⟩ (show Operation.Permitted .full (.supply t) from .inl rfl)) rfl)
  have hverified : Program.waiting.verifyStructure = .ok () := rfl
  obtain ⟨x, w', b', hactivated, hb', hok, hready, -⟩ :=
    activate_unhooked hw (show w.behaviour? ⟨1⟩ = some _ from rfl) rfl rfl rfl rfl 0
  have hx : x = .ok () := by
    refine hok.2 ⟨by decide +kernel, hverified, fun i s t hs ht _ => ?_⟩
    obtain _ | _ | _ | i := i
    · cases hs
      cases ht
    · cases hs
      cases ht
      exact ⟨by decide, by decide, by decide⟩
    · cases hs
      cases ht
      exact ⟨by decide, by decide, by decide⟩
    · cases hs
  subst hx
  obtain ⟨-, -, m, hm, -, hheap⟩ := hready rfl
  exact ⟨w, w', b', m, hw, hactivated, hb', hm, hheap.trans (by decide +kernel)⟩

end EventVm
