import EventVm.Heap
import EventVm.Proofs.Failure

/-!
# Heaps in use

Writing keeps the slots with their types and leaves no slot waiting. On a heap where no slot waits,
an address that names a slot can be read, and writing there fails only if the value does not fit.
-/

namespace EventVm

/-- The slot, with a value in the place of what it holds. -/
def Slot.filled (s : Slot) (v : Value) : Slot :=
  { s with content := .value v }

namespace Heap

variable {h h' : Heap} {address source : UInt32} {v : Value} {e : HeapError}

theorem contains_iff : h.contains address = true ↔ address.toNat < h.slots.length := by
  unfold contains size
  exact decide_eq_true_iff

theorem slot?_of_contains (hc : h.contains address = true) : ∃ s, h.slot? address = some s := by
  exact ⟨_, List.getElem?_eq_getElem (contains_iff.1 hc)⟩

theorem contains_of_slot? {s : Slot} (hs : h.slot? address = some s) :
    h.contains address = true :=
  contains_iff.2 (List.getElem?_eq_some_iff.1 hs).1

/-- A slot that holds a value is read as that value. -/
theorem get_of_slot? {s : Slot} {v : Value} (hs : h.slot? address = some s)
    (hv : s.content = .value v) : h.get address = .ok v := by
  simp only [get, slot, hs, hv, bind, Except.bind, pure, Except.pure]

/-- No slot waits exactly if every slot holds a value. -/
theorem pending_eq_nil : h.pending = [] ↔ ∀ s ∈ h.slots, s.content.pending? = none := by
  unfold pending
  rw [List.filterMap_eq_nil_iff]
  constructor
  · intro hp s hs
    obtain ⟨i, hi⟩ := List.mem_iff_getElem?.1 hs
    have hmem : (s, i) ∈ h.slots.zipIdx := List.mem_zipIdx_iff_getElem?.2 hi
    simpa using hp _ hmem
  · rintro hp ⟨s, i⟩ hmem
    have hs : s ∈ h.slots := List.mem_of_getElem? (List.mem_zipIdx_iff_getElem?.1 hmem)
    simp [hp s hs]

/-- The waiting slots of the part of a heap that begins at the position `n`. -/
def pendingFrom (n : Nat) (slots : List Slot) : List (UInt32 × TypeTag) :=
  (slots.zipIdx n).filterMap fun (s, i) => s.content.pending?.map fun t => (UInt32.ofNat i, t)

theorem pendingFrom_nil (n : Nat) : pendingFrom n [] = [] :=
  rfl

theorem pendingFrom_cons (n : Nat) (s : Slot) (slots : List Slot) : pendingFrom n (s :: slots) =
    (s.content.pending?.map fun t => (UInt32.ofNat n, t)).toList ++ pendingFrom (n + 1) slots := by
  unfold pendingFrom
  rw [List.zipIdx_cons, List.filterMap_cons]
  dsimp only
  cases s.content <;> rfl

/-! ### Writing -/

theorem set_ok (hs : h.set address v = .ok h') : ∃ s, h.slot? address = some s ∧
    v.fits s.declared = true ∧
    h' = ⟨h.slots.set address.toNat { s with content := .value v }⟩ := by
  unfold Heap.set at hs
  obtain ⟨s, hslot, hs⟩ := bind_eq_ok.1 hs
  unfold slot at hslot
  split at hslot
  · next s' hs' =>
    cases hslot
    split at hs
    · next hfits =>
      cases hs
      exact ⟨s, hs', hfits, rfl⟩
    · cases hs
  · cases hslot

/-- Writing fills one slot. -/
theorem slots_of_set (hs : h.set address v = .ok h') :
    h'.slots = h.slots.modify address.toNat (·.filled v) := by
  obtain ⟨s, hslot, -, rfl⟩ := set_ok hs
  refine List.ext_getElem? fun i => ?_
  rw [List.getElem?_set, List.getElem?_modify]
  split
  · next hi =>
    subst hi
    obtain ⟨hlength, hs⟩ := List.getElem?_eq_some_iff.1 hslot
    simp [hlength, hs, Slot.filled]
  · simp

theorem size_of_set (hs : h.set address v = .ok h') : h'.size = h.size := by
  obtain ⟨s, -, -, rfl⟩ := set_ok hs
  exact List.length_set

theorem pending_of_set (hp : h.pending = []) (hs : h.set address v = .ok h') : h'.pending = [] := by
  rw [pending_eq_nil] at hp ⊢
  obtain ⟨s, -, -, rfl⟩ := set_ok hs
  intro s' hs'
  obtain hmem | rfl := List.mem_or_eq_of_mem_set hs'
  · exact hp s' hmem
  · rfl

/-- Writing leaves the slots at other addresses alone. -/
theorem slot?_of_set {address' : UInt32} (hs : h.set address v = .ok h')
    (hne : address' ≠ address) : h'.slot? address' = h.slot? address' := by
  obtain ⟨s, -, -, rfl⟩ := set_ok hs
  unfold slot?
  rw [List.getElem?_set_ne]
  exact fun he => hne (UInt32.toNat_inj.1 he.symm)

theorem declared_of_set (hs : h.set address v = .ok h') :
    h'.slots.map Slot.declared = h.slots.map Slot.declared := by
  obtain ⟨s, hslot, -, rfl⟩ := set_ok hs
  rw [List.map_set]
  refine List.ext_getElem? fun i => ?_
  rw [List.getElem?_set]
  split
  · next hi =>
    subst hi
    rw [List.getElem?_map, show h.slots[address.toNat]? = some s from hslot]
    simp [(List.getElem?_eq_some_iff.1 hslot).1]
  · rfl

/-- Heaps whose slots have the same types have slots of the same types at every address. -/
theorem declared_congr (hd : h'.slots.map Slot.declared = h.slots.map Slot.declared)
    (address : UInt32) :
    (h'.slot? address).map Slot.declared = (h.slot? address).map Slot.declared := by
  unfold slot?
  rw [← List.getElem?_map, ← List.getElem?_map, hd]

/-- The heap has slots of the given types, and none holds a value that does not fit. -/
structure Typed (h : Heap) (types : List TypeTag) : Prop where
  declared : h.slots.map Slot.declared = types
  fits : ∀ s ∈ h.slots, s.isWellTyped = true

theorem Typed.of_set {types : List TypeTag} (ht : h.Typed types) (hs : h.set address v = .ok h') :
    h'.Typed types where
  declared := (declared_of_set hs).trans ht.declared
  fits := by
    obtain ⟨s, -, hfits, rfl⟩ := set_ok hs
    intro s' hs'
    obtain hmem | rfl := List.mem_or_eq_of_mem_set hs'
    · exact ht.fits s' hmem
    · exact hfits

/-- Every slot of a typed heap on which no slot waits holds a value that fits. -/
theorem Typed.value {types : List TypeTag} (ht : h.Typed types) (hp : h.pending = []) {s : Slot}
    (hs : s ∈ h.slots) : ∃ v, s.content = .value v ∧ v.fits s.declared = true := by
  have hfits := ht.fits s hs
  have hpending := pending_eq_nil.1 hp s hs
  unfold Slot.isWellTyped at hfits
  cases hv : s.content with
  | value v =>
    rw [hv] at hfits
    exact ⟨v, rfl, hfits⟩
  | pending t =>
    rw [hv] at hpending
    cases hpending

/-- Writing to a slot fails only because the value does not fit. -/
theorem set_error_of_contains (hc : h.contains address = true) (hs : h.set address v = .error e) :
    ∃ t, e = .typeMismatch address t v.display := by
  obtain ⟨s, hslot⟩ := slot?_of_contains hc
  unfold Heap.set at hs
  obtain hs | ⟨s', -, hs⟩ := bind_eq_error.1 hs
  · unfold slot at hs
    rw [hslot] at hs
    cases hs
  · split at hs
    · cases hs
    · cases hs
      exact ⟨_, rfl⟩

/-- A value that fits its slot can be written. -/
theorem set_of_fits {s : Slot} (hs : h.slot? address = some s) (hv : v.fits s.declared = true) :
    ∃ h', h.set address v = .ok h' := by
  cases hset : h.set address v with
  | ok h' => exact ⟨h', rfl⟩
  | error e =>
    unfold Heap.set slot at hset
    rw [hs] at hset
    obtain hset | ⟨s', hs', hset⟩ := bind_eq_error.1 hset
    · cases hset
    · cases hs'
      rw [if_pos hv] at hset
      cases hset

/-- Whether a value can be put at an address: there is a slot, and the value fits. -/
def accepts (h : Heap) (address : UInt32) (v : Value) : Bool :=
  (h.slot? address).any fun s => v.fits s.declared

theorem accepts_iff : h.accepts address v = true ↔ ∃ h', h.set address v = .ok h' := by
  unfold accepts
  rw [Option.any_eq_true]
  constructor
  · rintro ⟨s, hs, hv⟩
    exact set_of_fits hs hv
  · rintro ⟨h', hs⟩
    obtain ⟨s, hslot, hv, -⟩ := set_ok hs
    exact ⟨s, hslot, hv⟩

/-- What can be put on a heap depends on the types of its slots only. -/
theorem accepts_congr (hd : h'.slots.map Slot.declared = h.slots.map Slot.declared)
    (address : UInt32) (v : Value) : h'.accepts address v = h.accepts address v := by
  have hslot := declared_congr hd address
  unfold accepts
  cases hs' : h'.slot? address with
  | none =>
    rw [hs', Option.map_none, eq_comm, Option.map_eq_none_iff] at hslot
    rw [hslot]
  | some s' =>
    rw [hs', Option.map_some, eq_comm, Option.map_eq_some_iff] at hslot
    obtain ⟨s, hs, hdeclared⟩ := hslot
    rw [hs, Option.any_some, Option.any_some, hdeclared]

/-! ### Reading -/

/-- What is read at an address is what has been written there. -/
theorem get_of_set (hs : h.set address v = .ok h') : h'.get address = .ok v := by
  obtain ⟨s, hslot, -, rfl⟩ := set_ok hs
  have hlength := (List.getElem?_eq_some_iff.1 hslot).1
  exact get_of_slot? (List.getElem?_set_self hlength) rfl

/-- Only a slot that holds a value is read. -/
theorem slot?_of_get (hv : h.get address = .ok v) :
    ∃ s, h.slot? address = some s ∧ s.content = .value v := by
  unfold get slot at hv
  obtain ⟨s, hs, hv⟩ := bind_eq_ok.1 hv
  cases hslot : h.slot? address with
  | none =>
    rw [hslot] at hs
    cases hs
  | some s' =>
    rw [hslot] at hs
    cases hs
    refine ⟨s, rfl, ?_⟩
    cases hc : s.content with
    | value v' =>
      rw [hc] at hv
      cases hv
      rfl
    | pending t =>
      rw [hc] at hv
      cases hv

theorem get_congr (hs : h'.slot? address = h.slot? address) : h'.get address = h.get address := by
  unfold get slot
  rw [hs]

theorem get_of_contains (hp : h.pending = []) (hc : h.contains address = true) :
    ∃ v, h.get address = .ok v := by
  obtain ⟨s, hslot⟩ := slot?_of_contains hc
  have hs : s ∈ h.slots := List.mem_of_getElem? hslot
  have hcontent := pending_eq_nil.1 hp s hs
  unfold get slot
  rw [hslot]
  cases hv : s.content with
  | value v => exact ⟨v, by simp [bind, Except.bind, hv]; rfl⟩
  | pending t =>
    rw [hv] at hcontent
    cases hcontent

theorem copy_error_of_contains (hp : h.pending = []) (hsource : h.contains source = true)
    (hc : h.contains address = true) (hs : h.copy source address = .error e) :
    ∃ t actual, e = .typeMismatch address t actual := by
  obtain ⟨v, hv⟩ := get_of_contains hp hsource
  unfold copy at hs
  obtain hs | ⟨v', -, hs⟩ := bind_eq_error.1 hs
  · rw [hv] at hs
    cases hs
  · obtain ⟨t, rfl⟩ := set_error_of_contains hc hs
    exact ⟨t, _, rfl⟩

theorem copy_ok (hs : h.copy source address = .ok h') :
    ∃ v, h.get source = .ok v ∧ h.set address v = .ok h' :=
  bind_eq_ok.1 hs

/-! ### Writing one value after the other -/

/-- Puts values at addresses, one after the other. -/
def setAll (h : Heap) (xs : List (UInt32 × Value)) : Except HeapError Heap :=
  xs.foldlM (fun h x => h.set x.1 x.2) h

theorem setAll_cons_eq_ok {x : UInt32 × Value} {xs : List (UInt32 × Value)} :
    h.setAll (x :: xs) = .ok h' ↔ ∃ h₁, h.set x.1 x.2 = .ok h₁ ∧ h₁.setAll xs = .ok h' := by
  unfold setAll
  rw [List.foldlM_cons]
  exact bind_eq_ok

variable {xs : List (UInt32 × Value)}

/-- Values that fit their slots can all be written, since slots keep their types. -/
theorem setAll_of_fits
    (hx : ∀ x ∈ xs, ∃ s, h.slot? x.1 = some s ∧ x.2.fits s.declared = true) :
    ∃ h', h.setAll xs = .ok h' := by
  induction xs generalizing h with
  | nil => exact ⟨h, rfl⟩
  | cons x xs ih =>
    obtain ⟨⟨s, hs, hv⟩, hx⟩ := List.forall_mem_cons.1 hx
    obtain ⟨h₁, hset⟩ := set_of_fits hs hv
    have hfits : ∀ x ∈ xs, ∃ s, h₁.slot? x.1 = some s ∧ x.2.fits s.declared = true := by
      intro x' hx'
      obtain ⟨s', hs', hv'⟩ := hx x' hx'
      have hslot := declared_congr (declared_of_set hset) x'.1
      rw [hs', Option.map_some] at hslot
      obtain ⟨s₁, hs₁, hd⟩ := Option.map_eq_some_iff.1 hslot
      exact ⟨s₁, hs₁, hd ▸ hv'⟩
    obtain ⟨h', hall⟩ := ih hfits
    exact ⟨h', setAll_cons_eq_ok.2 ⟨h₁, hset, hall⟩⟩

/-- The slots at other addresses are left alone. -/
theorem slot?_of_setAll (hs : h.setAll xs = .ok h') (ha : address ∉ xs.map Prod.fst) :
    h'.slot? address = h.slot? address := by
  induction xs generalizing h with
  | nil =>
    cases hs
    rfl
  | cons x xs ih =>
    obtain ⟨h₁, hset, hall⟩ := setAll_cons_eq_ok.1 hs
    rw [List.map_cons, List.mem_cons, not_or] at ha
    rw [ih hall ha.2, slot?_of_set hset ha.1]

/-- Where values have been written that were read from another heap, both heaps read the same. An
address may have been written more than once. -/
theorem get_of_setAll {g : Heap} (hs : h.setAll xs = .ok h') (hx : ∀ x ∈ xs, g.get x.1 = .ok x.2)
    (ha : address ∈ xs.map Prod.fst) : h'.get address = g.get address := by
  induction xs generalizing h with
  | nil => cases ha
  | cons x xs ih =>
    obtain ⟨h₁, hset, hall⟩ := setAll_cons_eq_ok.1 hs
    obtain ⟨hv, hx⟩ := List.forall_mem_cons.1 hx
    by_cases hlater : address ∈ xs.map Prod.fst
    · exact ih hall hx hlater
    · obtain rfl : address = x.1 := by simpa [hlater] using ha
      rw [get_congr (slot?_of_setAll hall hlater), get_of_set hset, hv]

end Heap

end EventVm
