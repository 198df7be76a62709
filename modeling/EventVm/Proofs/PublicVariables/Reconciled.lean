import EventVm.Proofs.PublicVariables.Stored
import EventVm.Proofs.World.Activation

/-!
# Reconciled public variables

A table that is read for a program has the names of the stored one. What fits its declaration, or
has none, is as it was stored; anything else is reset to the default of the declared type. Whether
an entry fits is asked in the same way when it is reconciled and, of a checked program, when it is
put on the heap: so an activation with a reconciled table drops nothing of it.

* `get?_reconcile`, `mismatches_reconcile`, `reconcile_reconcile`: reconciling works entry by entry,
  and nothing is left to reconcile;
* `supplied_of_begun`, `supplied_of_activated`: what an activation leaves of a reconciled table;
* `loadFor_reconciles`: all of it for a table that is read.
-/

namespace EventVm

namespace PublicVariables

variable {symbols : SymbolTable} {s : Symbol} {v : PublicVariable} {t u : PublicVariables}
  {data : StoredVariables} {name : String}

/-! ### One entry -/

theorem agrees_iff : agrees symbols v = true ↔
    ∀ s, symbols.get? v.name = some s → v.type = s.type ∧ v.value.fits s.type = true := by
  unfold agrees
  cases symbols.get? v.name <;> simp

theorem reset_of_agrees (h : agrees symbols v = true) : reset symbols v = v := by
  unfold reset
  cases symbols.get? v.name with
  | none => rfl
  | some s => exact if_pos h

theorem reset_of_not_agrees (hs : symbols.get? v.name = some s) (h : ¬ agrees symbols v = true) :
    reset symbols v = ⟨v.name, s.type, s.type.default⟩ := by
  unfold reset
  rw [hs]
  exact if_neg h

/-- The default of a type fits it. -/
theorem agrees_reset (symbols : SymbolTable) (v : PublicVariable) :
    agrees symbols (reset symbols v) = true := by
  by_cases h : agrees symbols v = true
  · rwa [reset_of_agrees h]
  · rw [agrees_iff, name_reset]
    intro s hs
    rw [reset_of_not_agrees hs h]
    exact ⟨rfl, Value.fits_default s.type⟩

/-! ### Tables -/

theorem get?_of_mem (h : v ∈ t.entries) : t.get? v.name = some v := by
  cases hw : t.get? v.name with
  | none => exact absurd (beq_self_eq_true v.name) (List.find?_eq_none.1 hw v h)
  | some w =>
    have hname : w.name = v.name := by simpa using List.find?_some hw
    exact congrArg some
      (List.inj_on_of_nodup_map t.names_nodup (List.mem_of_find?_eq_some hw) h hname)

theorem names_reconcile (symbols : SymbolTable) (t : PublicVariables) :
    (t.reconcile symbols).entries.map PublicVariable.name =
      t.entries.map PublicVariable.name := by
  change (t.entries.map (reset symbols)).map PublicVariable.name = _
  rw [List.map_map]
  exact List.map_congr_left fun v _ => name_reset symbols v

theorem get?_reconcile (symbols : SymbolTable) (h : v ∈ t.entries) :
    (t.reconcile symbols).get? v.name = some (reset symbols v) := by
  have hmem : reset symbols v ∈ (t.reconcile symbols).entries := List.mem_map_of_mem h
  rw [← name_reset symbols v]
  exact get?_of_mem hmem

theorem agrees_of_mem_reconcile (h : v ∈ (t.reconcile symbols).entries) :
    agrees symbols v = true := by
  obtain ⟨w, -, rfl⟩ := List.mem_map.1 h
  exact agrees_reset symbols w

/-- Nothing is left to reset. -/
theorem mismatches_reconcile (symbols : SymbolTable) (t : PublicVariables) :
    mismatches symbols (t.reconcile symbols) = 0 := by
  refine List.countP_eq_zero.2 fun v hv => ?_
  rw [agrees_of_mem_reconcile hv]
  decide

theorem reconcile_reconcile (symbols : SymbolTable) (t : PublicVariables) :
    (t.reconcile symbols).reconcile symbols = t.reconcile symbols := by
  refine PublicVariables.ext ((List.map_congr_left fun v hv => ?_).trans (List.map_id _))
  exact reset_of_agrees (agrees_of_mem_reconcile hv)

end PublicVariables

/-! ### Activating with a reconciled table -/

namespace Program

variable {p : Program} {v : PublicVariable}

/-- A program refuses no variable that agrees with its declarations. -/
theorem refuses_of_agrees (h : PublicVariables.agrees p.symbols v = true) :
    p.refuses v = false := by
  rw [PublicVariables.agrees_iff] at h
  unfold refuses
  cases hs : p.symbols.get? v.name with
  | none => rfl
  | some s =>
    obtain ⟨htype, hfits⟩ := h s hs
    simp [htype, hfits]

end Program

namespace World

variable {w w' : World} {b : Behaviour} {p : Program} {t : PublicVariables} {fuel : Nat}
  {x : Except LoadError Unit}

/-- A checked program drops nothing of a reconciled table, whether it can be loaded or not. -/
theorem supplied_of_begun (hb : w.behaviour? b.id = some b) (hp : b.program = some p)
    (hv : p.verifyStructure = .ok ()) (ht : b.supplied = t.reconcile p.symbols) :
    ∃ b', (w.beginActivation b).2.behaviour? b.id = some b' ∧ b'.supplied = b.supplied := by
  have hkept : (supplyAll b p).2.1 = b.supplied := by
    refine PublicVariables.ext ((supplyAll_kept hv).trans (List.filter_eq_self.2 fun v hmem => ?_))
    rw [ht] at hmem
    rw [Program.refuses_of_agrees (PublicVariables.agrees_of_mem_reconcile hmem)]
    rfl
  refine ⟨_, (beginActivation_eq hb hp).2, ?_⟩
  cases buildMachine w.options b p (supplyAll b p).1 <;> exact hkept

/-- Without a hook, neither does the whole activation. -/
theorem supplied_of_activated (hb : w.behaviour? b.id = some b) (hs : b.state = .unloaded)
    (hh : b.hook = none) (hp : b.program = some p) (hv : p.verifyStructure = .ok ())
    (ht : b.supplied = t.reconcile p.symbols) (fuel : Nat) :
    ∃ x w' b', activate (fuel + 1) b.id w = .ok x w' ∧ w'.behaviour? b.id = some b' ∧
      b'.supplied = b.supplied := by
  obtain ⟨w', hactivated, hkept⟩ := activate_of_unhooked hb hs hh hp fuel
  obtain ⟨b', hb', hsupplied⟩ := supplied_of_begun hb hp hv ht
  exact ⟨_, w', b', hactivated, hkept.trans hb', hsupplied⟩

end World

/-! ### Tables that are read -/

namespace PublicVariables

variable {symbols : SymbolTable} {data : StoredVariables} {t : PublicVariables}

/-- A table that is read for a program has the names of the stored one. An entry without declaration
or that fits its declaration is as it was stored, and any other has the declared type and its
default. Nothing is left to reset; and if the program is a checked one, a behaviour that is
activated with the table has all of it when its hook begins, and at the end without a hook. -/
theorem loadFor_reconciles (h : loadFor symbols data = .ok t) : ∃ u, load data = .ok u ∧
    t.entries.map PublicVariable.name = u.entries.map PublicVariable.name ∧
    (∀ v ∈ u.entries, (∀ s, symbols.get? v.name = some s →
      v.type = s.type ∧ v.value.fits s.type = true) → t.get? v.name = some v) ∧
    (∀ v ∈ u.entries, ∀ s, symbols.get? v.name = some s →
      ¬ (v.type = s.type ∧ v.value.fits s.type = true) →
        t.get? v.name = some ⟨v.name, s.type, s.type.default⟩) ∧
    mismatches symbols t = 0 ∧ t.reconcile symbols = t ∧
    ∀ (w : World) (b : Behaviour) (p : Program), w.behaviour? b.id = some b →
      b.program = some p → p.symbols = symbols → p.verifyStructure = .ok () → b.supplied = t →
      (∃ b', (w.beginActivation b).2.behaviour? b.id = some b' ∧ b'.supplied = t) ∧
      (b.state = .unloaded → b.hook = none → ∀ fuel, ∃ x w' b',
        World.activate (fuel + 1) b.id w = .ok x w' ∧ w'.behaviour? b.id = some b' ∧
        b'.supplied = t) := by
  obtain ⟨u, hu, ht⟩ := bind_eq_ok.1 h
  cases ht
  refine ⟨u, hu, names_reconcile symbols u, ?_, ?_, mismatches_reconcile symbols u,
    reconcile_reconcile symbols u, ?_⟩
  · intro v hv hagrees
    rw [get?_reconcile symbols hv, reset_of_agrees (agrees_iff.2 hagrees)]
  · intro v hv s hs hdiffers
    have hnot : ¬ agrees symbols v = true := fun h => hdiffers (agrees_iff.1 h s hs)
    rw [get?_reconcile symbols hv, reset_of_not_agrees hs hnot]
  · rintro w b p hb hp rfl hverified hsupplied
    rw [← hsupplied]
    exact ⟨World.supplied_of_begun hb hp hverified hsupplied,
      fun hs hh => World.supplied_of_activated hb hs hh hp hverified hsupplied⟩

/-- Stored before `second` became a number: the type has been brought up to date, the value has
not. -/
def outdated : PublicVariables where
  entries := [⟨"first", .int32, .int32 7⟩, ⟨"second", .int32, .string "two"⟩,
    ⟨"third", .string, .string "three"⟩]
  sorted := by decide +kernel

theorem loadFor_reconciles_outdated : ∃ t,
    loadFor Program.waiting.symbols outdated.store = .ok t ∧
    t.get? "first" = some ⟨"first", .int32, .int32 7⟩ ∧
    t.get? "second" = some ⟨"second", .int32, .int32 0⟩ ∧
    t.get? "third" = some ⟨"third", .string, .string "three"⟩ ∧
    ∃ w x w' b', World.activate 1 ⟨1⟩ w = .ok x w' ∧ w'.behaviour? ⟨1⟩ = some b' ∧
      b'.supplied = t := by
  have hencodable : outdated.IsEncodable := by
    refine ⟨by decide, fun v hv => ?_⟩
    fin_cases hv <;> exact ⟨by decide, by decide⟩
  have hstored := load_stored hencodable
  let t := outdated.reconcile Program.waiting.symbols
  have hread : loadFor Program.waiting.symbols outdated.store = .ok t :=
    bind_eq_ok.2 ⟨_, hstored, rfl⟩
  obtain ⟨u, hu, -, hkept, hreset, -, -, hsupplied⟩ := loadFor_reconciles hread
  cases hu.symm.trans hstored
  refine ⟨t, hread, hkept ⟨"first", .int32, .int32 7⟩ (by decide +kernel) fun s hs => ?_,
    hreset ⟨"second", .int32, .string "two"⟩ (by decide +kernel) ⟨"second", 0, .int32, true⟩
      (by decide +kernel) (by decide),
    hkept ⟨"third", .string, .string "three"⟩ (by decide +kernel) fun s hs => ?_, ?_⟩
  · have hdeclared : Program.waiting.symbols.get? "first" = some ⟨"first", 0, .int32, true⟩ := by
      decide +kernel
    cases hs.symm.trans hdeclared
    exact ⟨rfl, rfl⟩
  · have hundeclared : Program.waiting.symbols.get? "third" = none := by decide +kernel
    cases hs.symm.trans hundeclared
  · let b : Behaviour := { Behaviour.new ⟨1⟩ (.of 2 3) (some .waiting) with supplied := t }
    let w : World := { World.new .default with behaviours := [b] }
    obtain ⟨x, w', b', hok, hb', ht⟩ := (hsupplied w b .waiting rfl rfl rfl rfl rfl).2 rfl rfl 0
    exact ⟨w, x, w', b', hok, hb', ht⟩

end PublicVariables

end EventVm
