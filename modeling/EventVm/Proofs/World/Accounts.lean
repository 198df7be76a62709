import EventVm.Proofs.World.Chronicles

/-!
# There is an account of everything that happens

Whatever a host does, the world gets where it gets by deeds: there is a chronicle, and so an
account, of every world that can be reached, which begins in the new world (`Reachable.chronicle`,
`Reachable.account`). What the host lets run is chronicled already (`chronicled_reentry`); the acts
of the host itself are gone through here one by one.
-/

namespace EventVm

open Moment

/-- There is an account of how a computation got from a world to another one, in the midst of the
same runs. -/
def Accounted (k : Access) (rs : List OpenRun) (w w' : World) : Prop :=
  ∃ es, Trace k rs ⟨w, rs⟩ es ⟨w', rs⟩

/-- There is an account of how a computation got to where it is out of fuel, perhaps in the midst of
more runs. -/
def BegunAccounted (k : Access) (rs : List OpenRun) (w w' : World) : Prop :=
  ∃ es rs', Trace k rs ⟨w, rs⟩ es ⟨w', rs'⟩

section Accounts

variable {k : Access} {rs : List OpenRun} {u v w w' : World} {d : Deed}

namespace Accounted

theorem of_step (h : Step k ⟨w, rs⟩ d ⟨w', rs⟩) : Accounted k rs w w' :=
  ⟨_, .single h List.suffix_rfl List.suffix_rfl⟩

theorem refl (w : World) : Accounted k rs w w :=
  ⟨[], .nil List.suffix_rfl⟩

theorem trans (h : Accounted k rs u v) (h' : Accounted k rs v w) : Accounted k rs u w := by
  obtain ⟨es, h⟩ := h
  obtain ⟨es', h'⟩ := h'
  exact ⟨_, h.trans h'⟩

theorem before (h : Accounted k rs u v) (h' : BegunAccounted k rs v w) :
    BegunAccounted k rs u w := by
  obtain ⟨es, h⟩ := h
  obtain ⟨es', rs', h'⟩ := h'
  exact ⟨_, rs', h.trans h'⟩

theorem consistent (h : Accounted k rs w w') (hc : Consistent k ⟨w, rs⟩) :
    Consistent k ⟨w', rs⟩ := by
  obtain ⟨es, h⟩ := h
  exact h.consistent hc

end Accounted

theorem Chronicled.accounted (h : Chronicled k rs w w') : Accounted k rs w w' := by
  obtain ⟨es, h⟩ := h
  exact ⟨es, h.trace⟩

theorem BegunChronicled.accounted (h : BegunChronicled k rs w w') : BegunAccounted k rs w w' := by
  obtain ⟨es, rs', h⟩ := h
  exact ⟨es, rs', h.trace⟩

/-- Deeds of the innermost run's machine are accounted for, and so are sequences. -/
theorem steady_accounted (k : Access) (rs : List OpenRun) :
    Steady k (OpenRun.actor rs) (fun w => Consistent k ⟨w, rs⟩) (Accounted k rs)
      (BegunAccounted k rs) where
  permits := fun hc => hc.permits
  keeps := fun hc h => h.consistent hc
  refl := .refl
  trans := .trans
  short := fun _ => ⟨[], rs, .nil List.suffix_rfl⟩
  before := Accounted.before
  deed := fun h _ => .of_step (.change h)

end Accounts

/-! ### Runs and activations -/

/-- Runs and activations that code begins are accounted for, whatever runs are in progress. -/
def Reentry.AccountedFor (k : Access) (runs : Reentry) : Prop :=
  ∀ rs, runs.RespectsWithin k (fun w => Consistent k ⟨w, rs⟩) (Accounted k rs) (BegunAccounted k rs)

/-- However much fuel there is, runs and activations are accounted for. -/
theorem accounted_reentry (k : Access) (fuel : Nat) : (World.reentry fuel).AccountedFor k :=
  fun rs => (chronicled_reentry k fuel rs).mono Chronicled.accounted BegunChronicled.accounted

/-! ### Hosts -/

/-- What a host does between runs. What it does to a machine past its behaviour needs the access for
it. -/
inductive HostAct (k : Access) : {α : Type} → Run α → Prop where
  | create (host : HostObjects) (p : Option Program) :
    HostAct k (Run.change (·.addBehaviour host p))
  | drop (id : BehaviourId) : HostAct k (Run.change (·.dropBehaviour id))
  | connect : HostAct k (Run.change fun w => { w with relay := true })
  | shutDown : HostAct k (Run.change World.shutDown)
  | register (signature : String) {f : HostFunction} (permitted : f.Permitted k) :
    HostAct k (Run.change fun w => { w with functions := w.functions.register signature f })
  | operate (fuel : Nat) (id : BehaviourId) {op : Operation} (permitted : op.Permitted k) :
    HostAct k (World.operate fuel id op)
  | run (fuel : Nat) (r : MachineRef) (direct : k.direct = true) :
    HostAct k (World.interpret fuel r)
  | load (r : MachineRef) (p : Program) (heap : Heap) (direct : k.direct = true) :
    HostAct k (Run.change fun w => (w.loadMachine r p heap).toOption.getD w)
  | write (r : MachineRef) (address : UInt32) (v : Value) (direct : k.direct = true) :
    HostAct k (Run.change fun w => match (w.machine r).write address v with
      | .ok m => w.mapMachine (fun _ => m) r
      | .error _ => w)
  | poke (r : MachineRef) {f : Machine → Machine} (direct : k.direct = true)
    (heap : ∀ m, (f m).heap = m.heap) (program : ∀ m, (f m).program = m.program) :
    HostAct k (Run.change (·.mapMachine f r))

/-- The worlds between the acts of a host that begins with a new world. -/
inductive History (k : Access) (o : Options) : World → Prop where
  | new : History k o (.new o)
  | act {α : Type} {c : Run α} {a : α} {w w' : World} (before : History k o w) (acts : HostAct k c)
    (ended : c w = .ok a w') : History k o w'

/-- The worlds to which a host can bring a new world: between its acts, or in the midst of one,
wherever that may be cut. -/
inductive Reachable (k : Access) (o : Options) : World → Prop where
  | between {w : World} (h : History k o w) : Reachable k o w
  | during {α : Type} {c : Run α} {w w' : World} (before : History k o w) (acts : HostAct k c)
    (reached : c.Reaches w w') : Reachable k o w'

section Hosts

variable {k : Access} {o : Options} {w : World}

/-- What a host does is chronicled. -/
theorem HostAct.chronicled {α : Type} {c : Run α} (h : HostAct k c) :
    c.RespectsIf (fun w => Consistent k ⟨w, []⟩) (Chronicled k []) (BegunChronicled k []) := by
  have hsteady := steady_chronicled k []
  intro w hw
  cases h with
  | create host p =>
    refine .of_step (.created host p ?_) (.inl ⟨rfl, nofun⟩)
    cases hb : w.behaviour? ⟨w.nextId⟩ with
    | none => rfl
    | some b => exact absurd (hw.known _ _ (World.state?_of_behaviour? hb)) (Nat.lt_irrefl _)
  | drop id => exact .of_step (.dropped id) (.inl ⟨rfl, nofun⟩)
  | connect => exact .of_step .connected (.inl ⟨rfl, nofun⟩)
  | shutDown => exact .of_step (.change .shutDown) (.inl ⟨rfl, nofun⟩)
  | register signature permitted =>
    exact .of_step (.change (.registered signature _ permitted)) (.inl ⟨rfl, nofun⟩)
  | operate fuel id permitted =>
    exact hsteady.perform (chronicled_reentry k fuel []) id permitted w hw
  | run fuel r direct =>
    cases fuel with
    | zero => exact hsteady.short w
    | succ fuel =>
      cases hm : w.machine? r with
      | some m => exact chronicled_interpret (chronicled_reentry k fuel) direct fuel hw hm
      | none =>
        have hempty : (w.machine r).program = none := by
          rw [World.machine_eq, hm]
          rfl
        exact World.interpretWith_ends (fun _ => .refl w) (fun _ => .refl w) fun p hp _ => by
          rw [hempty] at hp
          cases hp
  | load r p heap direct =>
    rw [Run.ends_change]
    cases hl : w.loadMachine r p heap with
    | ok w' => exact .of_step (.loaded direct hl) (.inl ⟨rfl, nofun⟩)
    | error e => exact .refl w
  | write r address v direct =>
    rw [Run.ends_change]
    split
    · next m hw => exact .of_step (.put direct hw) (.inl ⟨rfl, nofun⟩)
    · exact .refl w
  | poke r direct heap program =>
    exact .of_step (.change (.poked r direct heap program)) (.inr ⟨rfl, r, rfl⟩)

theorem History.chronicle (h : History k o w) : ∃ es, Chronicle k [] (start o) es ⟨w, []⟩ := by
  induction h with
  | new => exact ⟨[], .nil List.suffix_rfl⟩
  | act before acts ended ih =>
    obtain ⟨es, ih⟩ := ih
    have hconsistent := ih.trace.consistent (consistent_start k o)
    obtain ⟨es', h⟩ := (acts.chronicled _ hconsistent).of_ok ended
    exact ⟨_, ih.trans h⟩

/-- There is a chronicle of everything that happens. -/
theorem Reachable.chronicle (h : Reachable k o w) :
    ∃ es rs, Chronicle k [] (start o) es ⟨w, rs⟩ := by
  cases h with
  | between h =>
    obtain ⟨es, h⟩ := h.chronicle
    exact ⟨es, [], h⟩
  | during before acts reached =>
    obtain ⟨es, h⟩ := before.chronicle
    have hacts := acts.chronicled _ (h.trace.consistent (consistent_start k o))
    have hbegun := hacts.mono
      (fun _ _ ⟨es, h⟩ => (⟨es, [], h⟩ : BegunChronicled ..)) fun _ hc => hc
    obtain ⟨es', rs, h'⟩ := hbegun.of_reaches reached
    exact ⟨_, rs, h.trans h'⟩

theorem History.account (h : History k o w) : ∃ es, Trace k [] (start o) es ⟨w, []⟩ := by
  obtain ⟨es, h⟩ := h.chronicle
  exact ⟨es, h.trace⟩

/-- There is an account of everything that happens. -/
theorem Reachable.account (h : Reachable k o w) : ∃ es rs, Trace k [] (start o) es ⟨w, rs⟩ := by
  obtain ⟨es, rs, h⟩ := h.chronicle
  exact ⟨es, rs, h.trace⟩

end Hosts

end EventVm
