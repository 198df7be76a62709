import EventVm.Proofs.World.Serving

/-!
# Synced variables are replicated

A behaviour hands out the values of its synced variables; another one of the same program takes them
over. Both have heaps of the types that the program declares, so every value fits where it is
written, and variables that share an address get the one value that was read there
(`synced_variables_replicate`).

Two things can come between: the handler that prepares the collection may make the other behaviour
fault, which then takes nothing over, and a host may load another program into a machine, past its
behaviour (`synced_variables_lost`).
-/

namespace EventVm

open Moment

/-! ### Handlers -/

/-- An event that no exported entry point is named after has no handler. -/
theorem EventTable.addressesFor_ofEntryPoints_eq_nil {entryPoints : SymbolTable} {k : EventKind}
    (h : ∀ s ∈ entryPoints.exported, s.name ≠ k.entryName) :
    (ofEntryPoints entryPoints).addressesFor k = [] := by
  have hnone : ∀ e ∈ (ofEntryPoints entryPoints).builtIn, e.1 ≠ k := by
    rintro e he rfl
    obtain ⟨s, hs, he⟩ := List.mem_filterMap.1 he
    obtain ⟨k, hk, rfl⟩ := Option.map_eq_some_iff.1 he
    exact h s hs (EventKind.entryName_of_ofEntryName? hk).symm
  unfold addressesFor
  rw [List.map_eq_nil_iff, List.filter_eq_nil_iff]
  intro e he
  simpa using hnone e he

/-! ### Variables and addresses -/

namespace SymbolTable

/-- The addresses of variables with the values that are meant for them. -/
def placed (t : SymbolTable) (values : List (String × Value)) : List (UInt32 × Value) :=
  values.filterMap fun x => (t.addressOf? x.1).map (·, x.2)

variable {t : SymbolTable} {values : List (String × Value)} {name : String} {address : UInt32}

theorem mem_placed {y : UInt32 × Value} :
    y ∈ t.placed values ↔ ∃ x ∈ values, t.addressOf? x.1 = some y.1 ∧ x.2 = y.2 := by
  unfold placed
  rw [List.mem_filterMap]
  refine exists_congr fun x => and_congr_right fun _ => ?_
  rw [Option.map_eq_some_iff]
  constructor
  · rintro ⟨address, ha, rfl⟩
    exact ⟨ha, rfl⟩
  · rintro ⟨ha, hv⟩
    exact ⟨y.1, ha, Prod.ext rfl hv⟩

theorem mem_placed_addresses :
    address ∈ (t.placed values).map Prod.fst ↔
      ∃ name ∈ values.map Prod.fst, t.addressOf? name = some address := by
  simp only [List.mem_map, mem_placed]
  constructor
  · rintro ⟨_, ⟨x, hx, ha, -⟩, rfl⟩
    exact ⟨x.1, ⟨x, hx, rfl⟩, ha⟩
  · rintro ⟨_, ⟨x, hx, rfl⟩, ha⟩
    exact ⟨(address, x.2), ⟨x, hx, ha, rfl⟩, rfl⟩

/-- The symbol of a declared name. -/
theorem addressOf?_of_mem (h : name ∈ t.names) :
    ∃ s ∈ t.symbols, t.addressOf? name = some s.address := by
  obtain ⟨s, hs, rfl⟩ := List.mem_map.1 h
  exact ⟨s, hs, congrArg (Option.map Symbol.address) (get?_eq_some.2 ⟨hs, rfl⟩)⟩

end SymbolTable

/-- A value that is read on a heap of a program fits on every other one at the same address. -/
theorem Machine.Suits.fits_of_get {m m' : Machine} {p : Program} {address : UInt32} {v : Value}
    (h : m.Suits p) (h' : m'.Suits p) (hv : m.heap.get address = .ok v) :
    ∃ s, m'.heap.slot? address = some s ∧ v.fits s.declared = true := by
  obtain ⟨s, hs, hcontent⟩ := Heap.slot?_of_get hv
  obtain ⟨v', hv', hfits⟩ := h.fits s (List.mem_of_getElem? hs)
  cases hcontent.symm.trans hv'
  have hdeclared := Heap.declared_congr (h'.declared.trans h.declared.symm) address
  rw [hs, Option.map_some] at hdeclared
  obtain ⟨s', hs', hd⟩ := Option.map_eq_some_iff.1 hdeclared
  exact ⟨s', hs', hd ▸ hfits⟩

theorem Behaviour.addressOf?_eq {p : Program} (b : Behaviour) (hp : b.program = some p)
    (name : String) : b.addressOf? name = p.symbols.addressOf? name := by
  unfold addressOf?
  rw [hp]
  rfl

namespace World

variable {w w' w'' : World} {id : BehaviourId} {p : Program} {t : EventTable} {m : Machine}
  {heap heap' : Heap} {name : String} {address : UInt32} {v : Value}
  {values : List (String × Value)}

theorem behaviour?_of_plan? (hp : w.plan? id = some (some p, t))
    (hm : w.machine? (.behaviour id) = some m) :
    ∃ b, w.behaviour? id = some b ∧ b.program = some p ∧ b.events = t ∧ b.machine = some m := by
  obtain ⟨b, hb, hplan⟩ := Option.map_eq_some_iff.1 hp
  obtain ⟨hprogram, hevents⟩ := Prod.mk.inj hplan
  refine ⟨b, hb, hprogram, hevents, ?_⟩
  simpa only [machine?, hb, Option.bind_some] using hm

/-- A variable is read where the program declares it. -/
theorem getVariable_eq (hp : w.plan? id = some (some p, t))
    (hm : w.machine? (.behaviour id) = some m) (name : String) :
    w.getVariable id name =
      (p.symbols.addressOf? name).bind fun address => (m.heap.get address).toOption := by
  obtain ⟨b, hb, hprogram, -, hmachine⟩ := behaviour?_of_plan? hp hm
  unfold getVariable Behaviour.get?
  rw [hb, Option.bind_some, b.addressOf?_eq hprogram, hmachine]
  rfl

/-! ### Taking values over -/

/-- The world `w'` is like `w`, but for what is on the heap of a behaviour's machine, and for
messages. -/
structure Rewritten (w : World) (id : BehaviourId) (heap : Heap) (w' : World) : Prop where
  machine? : ∀ r, w'.machine? r =
    if r = .behaviour id then (w.machine? r).map fun m => { m with heap } else w.machine? r
  states : w.SameStates w'
  plans : w.SamePlans w'

theorem Rewritten.machine?_self (h : w.Rewritten id heap w')
    (hm : w.machine? (.behaviour id) = some m) :
    w'.machine? (.behaviour id) = some { m with heap } := by
  rw [h.machine?, if_pos rfl, hm, Option.map_some]

theorem Rewritten.refl (hm : w.machine? (.behaviour id) = some m) :
    w.Rewritten id m.heap w := by
  refine ⟨fun r => ?_, .refl w, .refl w⟩
  split
  · next hr => rw [hr, hm, Option.map_some]
  · rfl

theorem Rewritten.trans (h : w.Rewritten id heap w') (h' : w'.Rewritten id heap' w'') :
    w.Rewritten id heap' w'' := by
  refine ⟨fun r => ?_, h.states.trans h'.states, h.plans.trans h'.plans⟩
  rw [h'.machine?, h.machine?]
  split
  · rw [Option.map_map]
    rfl
  · rfl

theorem rewritten_setVariable (hp : w.plan? id = some (some p, t))
    (hm : w.machine? (.behaviour id) = some m) (ha : p.symbols.addressOf? name = some address)
    (hs : m.heap.set address v = .ok heap) : w.Rewritten id heap (w.setVariable id name v) := by
  obtain ⟨b, hb, hprogram, -, hmachine⟩ := behaviour?_of_plan? hp hm
  have haddress : b.addressOf? name = some address := (b.addressOf?_eq hprogram name).trans ha
  have hwrite : m.write address v = .ok { m with heap } := by
    unfold Machine.write
    rw [hs]
    rfl
  unfold setVariable
  rw [hb]
  dsimp only
  rw [haddress, hmachine]
  dsimp only
  rw [hwrite]
  refine ⟨fun r => ?_, .mapMachine .., .mapMachine ..⟩
  rw [machine?_mapMachine]
  split
  · next hr =>
    subst hr
    rw [hm]
    rfl
  · rfl

theorem setVariable_of_undeclared (hp : w.plan? id = some (some p, t))
    (hm : w.machine? (.behaviour id) = some m) (ha : p.symbols.addressOf? name = none) :
    w.setVariable id name v = w := by
  obtain ⟨b, hb, hprogram, -, -⟩ := behaviour?_of_plan? hp hm
  have haddress : b.addressOf? name = none := (b.addressOf?_eq hprogram name).trans ha
  unfold setVariable
  rw [hb]
  dsimp only
  rw [haddress]

/-- Values of synced variables are taken over one after the other, if they all fit. -/
theorem rewritten_foldl (hp : w.plan? id = some (some p, t))
    (hm : w.machine? (.behaviour id) = some m)
    (synced : ∀ x ∈ values, p.sync.contains x.1 = true)
    (hs : m.heap.setAll (p.symbols.placed values) = .ok heap) :
    w.Rewritten id heap (values.foldl (applyValue id p) w) := by
  induction values generalizing w m with
  | nil =>
    cases hs
    exact .refl hm
  | cons x values ih =>
    obtain ⟨hx, synced⟩ := List.forall_mem_cons.1 synced
    rw [List.foldl_cons, applyValue, if_pos hx]
    unfold SymbolTable.placed at hs
    rw [List.filterMap_cons] at hs
    cases ha : p.symbols.addressOf? x.1 with
    | none =>
      rw [ha] at hs
      rw [setVariable_of_undeclared hp hm ha]
      exact ih hp hm synced hs
    | some address =>
      rw [ha] at hs
      obtain ⟨heap₁, hset, hall⟩ := Heap.setAll_cons_eq_ok.1 hs
      have hfirst := rewritten_setVariable hp hm ha hset
      exact hfirst.trans (ih ((hfirst.plans.plan?_eq id).trans hp) (hfirst.machine?_self hm) synced
        hall)

/-- A behaviour that serves a program takes over values of synced variables that fit; without a
handler for that nothing else happens. -/
theorem applySynced_ends (self : Reentry) (h : w.Serves id p) (hr : w.IsRunnable id)
    (unhandled : ∀ s ∈ p.entryPoints.exported, s.name ≠ EventKind.deserialization.entryName)
    (hm : w.machine? (.behaviour id) = some m)
    (synced : ∀ x ∈ values, p.sync.contains x.1 = true)
    (hs : m.heap.setAll (p.symbols.placed values) = .ok heap) :
    (perform self id (.applySynced values)).Ends w
      (fun x w' => x = .nothing ∧ w.Rewritten id heap w') fun _ => False := by
  have hrewritten := rewritten_foldl h.plan hm synced hs
  obtain ⟨b, hb, hprogram, -, -⟩ := behaviour?_of_plan? h.plan hm
  obtain ⟨b', hb', -, hevents, -⟩ := behaviour?_of_plan?
    ((hrewritten.plans.plan?_eq id).trans h.plan) (hrewritten.machine?_self hm)
  obtain ⟨s, hstate, hrunnable⟩ := hr
  rw [state?_of_behaviour? hb] at hstate
  cases hstate
  unfold perform applySyncedValues raiseKind dispatchBy
  simp only [Run.ends_bind, Run.ends_behaviour?, hb, hrunnable, if_true, hprogram, Run.ends_change,
    hb', hevents, EventTable.addressesFor_ofEntryPoints_eq_nil unhandled, runAll]
  split
  · exact ⟨rfl, hrewritten⟩
  · exact ⟨rfl, hrewritten⟩

/-! ### Collecting values -/

/-- The values are those of the synced variables of a behaviour with the program `p`, each once and
in the order of the program. -/
structure Lists (w : World) (id : BehaviourId) (p : Program) (values : List (String × Value)) :
    Prop where
  names : values.map Prod.fst = p.sync.entries.map SyncEntry.name
  once : (values.map Prod.fst).Nodup
  current : ∀ x ∈ values, w.getVariable id x.1 = some x.2

/-- A behaviour that serves a program has all synced variables. -/
theorem Serves.getVariable_isSome (h : w.Serves id p) {e : SyncEntry} (he : e ∈ p.sync.entries) :
    ∃ v, w.getVariable id e.name = some v := by
  obtain ⟨m, hm, hs⟩ := h.machine
  obtain ⟨-, hsymbols, -, -, -, -, hsync⟩ := Program.verifyStructure_eq_ok.1 h.verified
  obtain ⟨s, hmem, ha⟩ := SymbolTable.addressOf?_of_mem (hsync e he)
  obtain ⟨slot, hslot, -⟩ := hsymbols s hmem
  have hdeclared := Heap.declared_congr hs.declared s.address
  rw [hslot, Option.map_some] at hdeclared
  obtain ⟨slot', hslot', -⟩ := Option.map_eq_some_iff.1 hdeclared
  obtain ⟨v, hv, -⟩ := hs.fits slot' (List.mem_of_getElem? hslot')
  rw [getVariable_eq h.plan hm, ha, Option.bind_some, Heap.get_of_slot? hslot' hv]
  exact ⟨v, rfl⟩

theorem Serves.lists (h : w.Serves id p) {b : Behaviour} (hb : w.behaviour? id = some b) :
    w.Lists id p (syncedValues b) := by
  have hprogram : b.program = some p := by
    have hplan := h.plan
    rw [plan?_of_behaviour? hb] at hplan
    exact (Prod.mk.inj (Option.some.inj hplan)).1
  have hget : ∀ n, b.get? n = w.getVariable id n := by
    intro n
    rw [getVariable, hb, Option.bind_some]
  have hnames : (syncedValues b).map Prod.fst = p.sync.entries.map SyncEntry.name := by
    unfold syncedValues
    rw [hprogram]
    dsimp only
    rw [List.map_filterMap, ← List.filterMap_eq_map]
    refine List.filterMap_congr fun e he => ?_
    obtain ⟨v, hv⟩ := h.getVariable_isSome he
    rw [hget, hv]
    rfl
  refine ⟨hnames, hnames ▸ p.sync.names_nodup, fun x hx => ?_⟩
  unfold syncedValues at hx
  rw [hprogram] at hx
  obtain ⟨e, -, hx⟩ := List.mem_filterMap.1 hx
  obtain ⟨v, hv, rfl⟩ := Option.map_eq_some_iff.1 hx
  exact (hget e.name).symm.trans hv

theorem Lists.synced (h : w.Lists id p values) : ∀ x ∈ values, p.sync.contains x.1 = true := by
  intro x hx
  rw [SyncTable.contains_iff, ← h.names]
  exact List.mem_map_of_mem hx

/-- The listed values are meant for the addresses to which synced variables are bound. -/
theorem Lists.mem_placed_addresses (h : w.Lists id p values) :
    address ∈ (p.symbols.placed values).map Prod.fst ↔
      ∃ e ∈ p.sync.entries, p.symbols.addressOf? e.name = some address := by
  rw [SymbolTable.mem_placed_addresses, h.names]
  constructor
  · rintro ⟨_, hname, ha⟩
    obtain ⟨e, he, rfl⟩ := List.mem_map.1 hname
    exact ⟨e, he, ha⟩
  · rintro ⟨e, he, ha⟩
    exact ⟨e.name, List.mem_map_of_mem he, ha⟩

/-- The listed values stand on the heap at the addresses of their variables. -/
theorem Lists.get_of_mem_placed (h : w.Lists id p values) (hp : w.plan? id = some (some p, t))
    (hm : w.machine? (.behaviour id) = some m) :
    ∀ y ∈ p.symbols.placed values, m.heap.get y.1 = .ok y.2 := by
  intro y hy
  obtain ⟨x, hx, ha, hv⟩ := SymbolTable.mem_placed.1 hy
  have hcurrent := h.current x hx
  rw [getVariable_eq hp hm, ha, Option.bind_some] at hcurrent
  exact hv ▸ toOption_eq_some.1 hcurrent

/-- What a behaviour that is ready after a collection has handed out. -/
theorem lists_of_collected {self : Reentry}
    (h : perform self id .collectSynced w = .ok (.values values) w')
    (hs : w'.Serves id p) (hr : w'.IsRunnable id) : w'.Lists id p values := by
  have hends : (perform self id .collectSynced).Ends w (fun x w' => w'.IsRunnable id →
      ∃ b, w'.behaviour? id = some b ∧ x = .values (syncedValues b)) fun _ => True := by
    unfold perform collectSyncedValues
    simp only [Run.ends_bind, Run.ends_behaviour?]
    have hhandled : (raiseKind self id .preSerialization).Ends w (fun _ _ => True)
        fun _ => True := by
      unfold Run.Ends
      split <;> trivial
    refine hhandled.mono (fun _ v _ => ?_) fun _ _ => trivial
    cases hb : v.behaviour? id with
    | none =>
      rintro ⟨s, hs, -⟩
      rw [state?, hb] at hs
      cases hs
    | some b =>
      rintro ⟨s, hs, hrunnable⟩
      rw [state?_of_behaviour? hb] at hs
      cases hs
      rw [if_pos hrunnable]
      exact ⟨b, hb, rfl⟩
  obtain ⟨b, hb, hvalues⟩ := hends.of_ok h hr
  cases hvalues
  exact hs.lists hb

/-! ### Replication -/

/-- The behaviours `a` and `b` of the program `p` are ready, and the program has no handler for
values that have been taken over. -/
structure Twins (w : World) (a b : BehaviourId) (p : Program) : Prop where
  programs : w.program? a = some p ∧ w.program? b = some p
  ready : w.state? a = some .ready ∧ w.state? b = some .ready
  unhandled : ∀ s ∈ p.entryPoints.exported, s.name ≠ "_onDeserialization"

/-- Between `w` and `w'` the behaviour `b` has taken over the synced variables of the behaviour `a`.
The slots to which none of them is bound are as they were, and the behaviour is still ready. -/
structure Replicates (a b : BehaviourId) (p : Program) (w w' : World) : Prop where
  taken : ∀ e ∈ p.sync.entries, w'.getVariable b e.name = w.getVariable a e.name
  same : ∀ e ∈ p.sync.entries, w'.getVariable b e.name = w'.getVariable a e.name
  others : ∃ m m', w.machine? (.behaviour b) = some m ∧ w'.machine? (.behaviour b) = some m' ∧
    ∀ address, (∀ e ∈ p.sync.entries, p.symbols.addressOf? e.name ≠ some address) →
      m'.heap.slot? address = m.heap.slot? address
  ready : w'.state? b = some .ready

end World

section Replication

variable {k : Access} {o : Options} {w w' : World} {rs : List OpenRun} {es : List (Deed × Moment)}
  {a b : BehaviourId} {p : Program} {values : List (String × Value)}

/-- What has been listed of one behaviour is taken over by another one that serves the program. -/
theorem World.replicates_of_lists (hlists : w.Lists a p values) (ha : w.Serves a p)
    (hb : w.Serves b p) (hr : w.state? b = some .ready)
    (unhandled : ∀ s ∈ p.entryPoints.exported, s.name ≠ "_onDeserialization") (self : Reentry) :
    ∃ w', World.perform self b (.applySynced values) w = .ok .nothing w' ∧
      World.Replicates a b p w w' := by
  obtain ⟨ma, hma, hsa⟩ := ha.machine
  obtain ⟨mb, hmb, hsb⟩ := hb.machine
  have hread := hlists.get_of_mem_placed ha.plan hma
  obtain ⟨heap, hall⟩ := Heap.setAll_of_fits fun y hy => hsa.fits_of_get hsb (hread y hy)
  obtain ⟨x, w', happlied, rfl, hw'⟩ :=
    (World.applySynced_ends self hb ⟨_, hr, rfl⟩ unhandled hmb hlists.synced hall).exists_ok
  have hplan := fun id => hw'.plans.plan?_eq id
  have hmb' := hw'.machine?_self hmb
  have htaken : ∀ e ∈ p.sync.entries, w'.getVariable b e.name = w.getVariable a e.name := by
    intro e he
    rw [World.getVariable_eq ((hplan b).trans hb.plan) hmb', World.getVariable_eq ha.plan hma]
    cases haddress : p.symbols.addressOf? e.name with
    | none => rfl
    | some address =>
      have hplaced := hlists.mem_placed_addresses.2 ⟨e, he, haddress⟩
      exact congrArg Except.toOption (Heap.get_of_setAll hall hread hplaced)
  refine ⟨w', happlied, htaken, ?_, ⟨mb, _, hmb, hmb', ?_⟩, ?_⟩
  · intro e he
    by_cases hab : a = b
    · rw [hab]
    · have hma' : w'.machine? (.behaviour a) = some ma := by
        rw [hw'.machine?, if_neg (by simpa using hab), hma]
      rw [htaken e he, World.getVariable_eq ha.plan hma,
        World.getVariable_eq ((hplan a).trans ha.plan) hma']
  · intro address hunbound
    refine Heap.slot?_of_setAll hall fun hplaced => ?_
    obtain ⟨e, he, haddress⟩ := hlists.mem_placed_addresses.1 hplaced
    exact hunbound e he haddress
  · rw [hw'.states.state?_eq, hr]

/-- Synced variables are replicated: if two behaviours of a program are ready when the synced
variables of the first one have been collected, then these are all synced variables, each once and
in order, with their values; and the second one takes them over, which changes nothing else of it.
No program must have been loaded into their machines past the behaviours. -/
theorem synced_variables_replicate {fuel : Nat}
    (account : Trace k [] (start o) es ⟨w', rs⟩)
    (own : ∀ e ∈ es, ∀ q heap,
      e.1 ≠ .loaded (.behaviour a) q heap ∧ e.1 ≠ .loaded (.behaviour b) q heap)
    (collected : World.operate fuel a .collectSynced w = .ok (.values values) w')
    (twins : w'.Twins a b p) :
    w'.Lists a p values ∧
    ∀ fuel', ∃ w'', World.operate fuel' b (.applySynced values) w' = .ok .nothing w'' ∧
      World.Replicates a b p w' w'' := by
  have hra : w'.IsRunnable a := ⟨_, twins.ready.1, rfl⟩
  have hrb : w'.IsRunnable b := ⟨_, twins.ready.2, rfl⟩
  have ha := account.serves (fun e he q heap => (own e he q heap).1) hra twins.programs.1
  have hb := account.serves (fun e he q heap => (own e he q heap).2) hrb twins.programs.2
  have hlists := World.lists_of_collected collected ha hra
  refine ⟨hlists, fun fuel' => ?_⟩
  exact World.replicates_of_lists hlists ha hb twins.ready.2 twins.unhandled (World.reentry fuel')

end Replication

/-! ### Two instances of a program -/

namespace World

instance (w : World) (a b : BehaviourId) (p : Program) : Decidable (w.Twins a b p) :=
  decidable_of_iff
    ((w.program? a = some p ∧ w.program? b = some p) ∧
      (w.state? a = some .ready ∧ w.state? b = some .ready) ∧
      ∀ s ∈ p.entryPoints.exported, s.name ≠ "_onDeserialization")
    ⟨fun h => ⟨h.1, h.2.1, h.2.2⟩, fun h => ⟨h.programs, h.ready, h.unhandled⟩⟩

/-- A world with two behaviours of a program. -/
def pair (p : Program) : World :=
  ((new .default).addBehaviour (.of 100 101) (some p)).addBehaviour (.of 102 103) (some p)

/-- Operations that are carried out one after the other. -/
def operateAll (fuel : Nat) : List (BehaviourId × Operation) → Run Unit
  | [] => return ()
  | (id, op) :: ops => do
    let _ ← operate fuel id op
    operateAll fuel ops

/-- The values that are collected, and the world then. -/
def collected? (fuel : Nat) (id : BehaviourId) (w : World) :
    Option (List (String × Value) × World) :=
  match operate fuel id .collectSynced w with
  | .ok (.values values) w' => some (values, w')
  | _ => none

theorem of_collected? {fuel : Nat} {id : BehaviourId} {w : World}
    {r : List (String × Value) × World} (h : collected? fuel id w = some r) :
    operate fuel id .collectSynced w = .ok (.values r.1) r.2 := by
  unfold collected? at h
  split at h
  · next h' =>
    cases h
    exact h'
  · cases h

end World

section Hosts

variable {k : Access} {o : Options} {w w' : World}

theorem history_pair (k : Access) (p : Program) : History k .default (World.pair p) :=
  .act (.act .new (.create (.of 100 101) (some p)) rfl) (.create (.of 102 103) (some p)) rfl

theorem History.operateAll {fuel : Nat} {ops : List (BehaviourId × Operation)} (h : History k o w)
    (permitted : Operation.AllPermitted k (ops.map Prod.snd))
    (hw : (World.operateAll fuel ops).after? w = some w') : History k o w' := by
  induction ops generalizing w with
  | nil =>
    cases hw
    exact h
  | cons x ops ih =>
    obtain ⟨id, op⟩ := x
    obtain ⟨hop, hops⟩ := Operation.AllPermitted.cons permitted
    obtain ⟨_, hw⟩ := Run.of_after? hw
    simp only [World.operateAll, bind, EStateM.bind] at hw
    split at hw
    · next a v hv =>
      refine ih (h.act (.operate fuel id hop) hv) hops ?_
      unfold Run.after?
      rw [hw]
    · cases hw

end Hosts

/-- A program with a synced variable that has two names, `n` and `m`. The handler that prepares the
collection copies the value of another variable into it. -/
def Program.counting : Program :=
  { Program.empty "counting" with
    heap := ⟨[⟨.int32, .value (.int32 0)⟩, ⟨.int32, .value (.int32 0)⟩]⟩
    code := Instruction.encodeWords .push (some 1) ++ Instruction.encodeWords .push (some 0) ++
      Instruction.encodeWords .copy none ++ Instruction.encodeWords .jump (some haltAddress)
    entryPoints := .ofList [⟨"_onPreSerialization", 0, .object, true⟩]
      (List.nodup_singleton "_onPreSerialization")
    symbols := .ofList
      [⟨"n", 0, .int32, true⟩, ⟨"m", 0, .int32, true⟩, ⟨"count", 1, .int32, true⟩] (by simp)
    sync := ⟨[⟨"m", .none⟩, ⟨"n", .none⟩], by simp⟩ }

/-- A program with a synced variable `n`. The handler that prepares the collection sends an event to
another behaviour, whose handler takes an address off the empty stack. -/
def Program.meddling : Program :=
  { Program.empty "meddling" with
    heap := ⟨[⟨.int32, .value (.int32 0)⟩, ⟨.behaviour, .value .null⟩,
      ⟨.string, .value (.string "crash")⟩,
      ⟨.string, .value (.string BuiltIn.sendCustomEvent.signature)⟩]⟩
    code := Instruction.encodeWords .push (some 1) ++ Instruction.encodeWords .push (some 2) ++
      Instruction.encodeWords .call (some 3) ++ Instruction.encodeWords .jump (some haltAddress) ++
      Instruction.encodeWords .pop none ++ Instruction.encodeWords .jump (some haltAddress)
    entryPoints := .ofList
      [⟨"_onPreSerialization", 0, .object, true⟩, ⟨"crash", 32, .object, true⟩] (by simp)
    symbols := .ofList [⟨"n", 0, .int32, true⟩, ⟨"other", 1, .behaviour, true⟩] (by simp)
    sync := ⟨[⟨"n", .none⟩], List.nodup_singleton "n"⟩ }

/-- Two instances, the first of which has counted: the second one takes the count over, under both
names. -/
theorem synced_variables_replicate_count : ∃ w w' w'' values,
    World.operate 9 ⟨1⟩ .collectSynced w = .ok (.values values) w' ∧
      values = [("m", .int32 7), ("n", .int32 7)] ∧
      World.operate 9 ⟨2⟩ (.applySynced values) w' = .ok .nothing w'' ∧
      w''.getVariable ⟨2⟩ "n" = some (.int32 7) := by
  let ops : List (BehaviourId × Operation) :=
    [(⟨1⟩, .activate), (⟨2⟩, .activate), (⟨1⟩, .set "count" (.int32 7))]
  have hrun : (((World.operateAll 9 ops).after? (World.pair .counting)).any fun w =>
      (World.collected? 9 ⟨1⟩ w).any fun r =>
        r.1 = [("m", .int32 7), ("n", .int32 7)] ∧ r.2.Twins ⟨1⟩ ⟨2⟩ .counting) = true := by
    decide +kernel
  obtain ⟨w, hw, hrun⟩ := (Option.any_eq_true _ _).1 hrun
  obtain ⟨⟨values, w'⟩, hcollected, hends⟩ := (Option.any_eq_true _ _).1 hrun
  obtain ⟨hvalues, htwins⟩ := of_decide_eq_true hends
  replace hcollected := World.of_collected? hcollected
  have hbefore : History ⟨false, false⟩ .default w :=
    (history_pair _ _).operateAll (.inr rfl) hw
  obtain ⟨es, account⟩ := (hbefore.act (.operate 9 ⟨1⟩ (.inr rfl)) hcollected).account
  have hown := account.not_loaded rfl
  obtain ⟨hlists, htaken⟩ := synced_variables_replicate account
    (fun e he q heap => ⟨hown e he _ q heap, hown e he _ q heap⟩) hcollected htwins
  obtain ⟨w'', happlied, hreplicates⟩ := htaken 9
  refine ⟨w, w', w'', values, hcollected, hvalues, happlied, ?_⟩
  have hcurrent : w'.getVariable ⟨1⟩ "n" = some (.int32 7) := by
    refine hlists.current ("n", .int32 7) ?_
    rw [hvalues]
    decide
  have hentry : (⟨"n", .none⟩ : SyncEntry) ∈ Program.counting.sync.entries := by decide
  exact (hreplicates.taken _ hentry).trans hcurrent

/-- Two behaviours of a program are ready, and the first one still is when its synced variables have
been collected. The second one takes nothing over: the handler has made it fault. And if another
program has been loaded into the machine of the first one, nothing is collected. -/
theorem synced_variables_lost :
    (∃ w w' w'' values x, History ⟨false, false⟩ .default w ∧ w.Twins ⟨1⟩ ⟨2⟩ .meddling ∧
      World.operate 9 ⟨1⟩ .collectSynced w = .ok (.values values) w' ∧
      w'.state? ⟨1⟩ = some .ready ∧
      World.operate 9 ⟨2⟩ (.applySynced values) w' = .ok x w'' ∧
      ¬ World.Replicates ⟨1⟩ ⟨2⟩ .meddling w' w'') ∧
    ∃ w w' values, History .full .default w ∧ w.Twins ⟨1⟩ ⟨2⟩ .counting ∧
      World.operate 9 ⟨1⟩ .collectSynced w = .ok (.values values) w' ∧
      w'.state? ⟨1⟩ = some .ready ∧ ¬ w'.Lists ⟨1⟩ .counting values := by
  constructor
  · let ops : List (BehaviourId × Operation) :=
      [(⟨1⟩, .activate), (⟨2⟩, .activate), (⟨1⟩, .set "other" (.object (BehaviourId.toRef ⟨2⟩))),
        (⟨1⟩, .set "n" (.int32 7))]
    have hrun : (((World.operateAll 9 ops).after? (World.pair .meddling)).any fun w =>
        w.Twins ⟨1⟩ ⟨2⟩ .meddling ∧ (World.collected? 9 ⟨1⟩ w).any fun r =>
          r.2.state? ⟨1⟩ = some .ready ∧
            ((World.operate 9 ⟨2⟩ (.applySynced r.1)).after? r.2).any fun w' =>
              w'.state? ⟨2⟩ = some .faulted) = true := by
      decide +kernel
    obtain ⟨w, hw, hrun⟩ := (Option.any_eq_true _ _).1 hrun
    obtain ⟨htwins, hrun⟩ := of_decide_eq_true hrun
    obtain ⟨⟨values, w'⟩, hcollected, hrun⟩ := (Option.any_eq_true _ _).1 hrun
    obtain ⟨hready, hrun⟩ := of_decide_eq_true hrun
    obtain ⟨w'', happlied, hfaulted⟩ := (Option.any_eq_true _ _).1 hrun
    obtain ⟨x, happlied⟩ := Run.of_after? happlied
    replace hfaulted : w''.state? ⟨2⟩ = some .faulted := of_decide_eq_true hfaulted
    have hbefore : History ⟨false, false⟩ .default w :=
      (history_pair _ _).operateAll (.inr rfl) hw
    refine ⟨w, w', w'', values, x, hbefore, htwins, World.of_collected? hcollected, hready,
      happlied, fun hreplicates => ?_⟩
    cases hfaulted.symm.trans hreplicates.ready
  · let ops : List (BehaviourId × Operation) := [(⟨1⟩, .activate), (⟨2⟩, .activate)]
    let other := { Program.empty "other" with
      code := Instruction.encodeWords .jump (some haltAddress) }
    let load : Run Unit := Run.change fun w =>
      (w.loadMachine (.behaviour ⟨1⟩) other other.heap).toOption.getD w
    have hrun : ((((World.operateAll 9 ops).after? (World.pair .counting)).bind load.after?).any
        fun w => w.Twins ⟨1⟩ ⟨2⟩ .counting ∧ (World.collected? 9 ⟨1⟩ w).any fun r =>
          r.1 = [] ∧ r.2.state? ⟨1⟩ = some .ready) = true := by
      decide +kernel
    obtain ⟨w, hw, hrun⟩ := (Option.any_eq_true _ _).1 hrun
    obtain ⟨v, hv, hw⟩ := Option.bind_eq_some_iff.1 hw
    obtain ⟨_, hw⟩ := Run.of_after? hw
    obtain ⟨htwins, hrun⟩ := of_decide_eq_true hrun
    obtain ⟨⟨values, w'⟩, hcollected, hends⟩ := (Option.any_eq_true _ _).1 hrun
    obtain ⟨rfl, hready⟩ := of_decide_eq_true hends
    have hbefore : History .full .default v :=
      (history_pair _ _).operateAll (.inr rfl) hv
    have hloaded : HostAct .full load := .load (.behaviour ⟨1⟩) other other.heap rfl
    refine ⟨w, w', [], hbefore.act hloaded hw, htwins, World.of_collected? hcollected, hready,
      fun hlists => ?_⟩
    cases hlists.names

end EventVm
