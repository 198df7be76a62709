import EventVm.Proofs.World.Isolation

/-!
# Programs that are loaded while they run

A function can load another program into the machine that calls it. Heap, stack, program counter and
flags are those of the new program from then on; the run, however, goes on with the code of the
program with which it began (`fetched_from_first`). It executes what is loaded as long as no other
program has been loaded, and afterwards wherever both have the same instruction
(`reload_half_visible` is a run where they do not).
-/

namespace EventVm

open Moment

/-! ### What has been loaded -/

/-- The program that a deed loads into the machine `r`. -/
def Deed.loads? (r : MachineRef) : Deed → Option Program
  | loaded r' p _ => if r' = r then some p else none
  | _ => none

/-- The program of the machine `r` after some deeds, the newest first: the one that was loaded last,
or the one from before. -/
def Moment.lastLoaded (r : MachineRef) (es : List (Deed × Moment)) (p : Program) : Program :=
  (es.findSome? fun e => e.1.loads? r).getD p

namespace Moment

variable {k : Access} {base : List OpenRun} {c c' : Moment} {es : List (Deed × Moment)} {d : Deed}
  {r : MachineRef} {m m' : Machine} {p : Program}

/-- The program of a machine that is there changes only when one is loaded past its behaviour. -/
theorem Step.program_eq (h : Step k c d c') (hc : c.Consistent k)
    (hm : c.world.machine? r = some m) (hm' : c'.world.machine? r = some m') :
    m'.program = (d.loads? r).or m.program := by
  have halters := h.alters r
  rw [hm, hm'] at halters
  cases halters with
  | kept other =>
    have hnone : d.loads? r = none := by
      unfold Deed.loads?
      split
      · exact if_neg fun he => other (congrArg some he)
      · rfl
    rw [hnone, Option.none_or]
  | loaded direct loaded => simp [Deed.loads?, (Machine.load_ok loaded).2.1]
  | poked direct heap program => exact program
  | begun own runs frame => rw [frame]; rfl
  | stopped => exact Machine.program_finish ..
  | left => exact Machine.program_leave ..
  | @activated id _ _ _ _ own =>
    -- Behaviours that have machines are not activated.
    subst own
    obtain ⟨t, ht⟩ := World.state?_of_machine? hm
    have hturns := h.turns id
    rw [ht] at hturns
    have hunloaded : t = .unloaded := by
      generalize c'.world.state? id = s? at hturns
      cases hturns with
      | kept other => exact absurd rfl other
      | activated => rfl
    exact absurd (hunloaded ▸ ht) (hc.activated _ m hm).1
  | _ => rfl

/-- In the midst of a run of a machine, its program is the one that was loaded last. -/
theorem Trace.program_eq {run : OpenRun} (h : Trace k base c es c') (hc : c.Consistent k)
    (hrun : run ∈ base) (hr : run.machine = some r) (hm : c.world.machine? r = some m)
    (hp : m.program = some p) :
    ∃ m', c'.world.machine? r = some m' ∧ m'.program = some (lastLoaded r es p) := by
  induction h with
  | nil => exact ⟨m, hm, hp⟩
  | @next es c₁ c₂ d before step within ih =>
    obtain ⟨m₁, hm₁, hp₁⟩ := ih
    have hc₁ := before.consistent hc
    obtain ⟨m₂, hm₂⟩ := (step.consistent hc₁).present run (within.subset hrun) r hr
    refine ⟨m₂, hm₂, ?_⟩
    rw [step.program_eq hc₁ hm₁ hm₂, hp₁]
    unfold lastLoaded
    rw [List.findSome?_cons]
    cases d.loads? r <;> rfl

end Moment

/-! ### The code of a run -/

namespace World

/-- The instruction of `code` that is due is the one of the loaded program. -/
def FetchesLoaded (code : Bytes) (r : MachineRef) (w : World) : Prop :=
  ∀ p ∈ (w.machine r).program,
    Machine.fetch code (w.machine r).pc = Machine.fetch p.code (w.machine r).pc

end World

/-- A run of a machine that has the program `p`: whenever an instruction is due, it is fetched from
`p`, whatever has been loaded since. So it is the instruction of the loaded program exactly if the
one that was loaded last has the same there as `p`, which holds as long as none has been loaded. -/
theorem fetched_from_first {k : Access} {rs : List OpenRun} {r : MachineRef} {w u : World}
    {m : Machine} {p : Program} {fuel n : Nat} (hw : Consistent k ⟨w, rs⟩)
    (hr : OpenRun.actor rs = some r) (hm : w.machine? r = some m) (hp : m.program = some p)
    (hu : u ∈ World.course (World.reentry fuel) r p.code n w) :
    ∃ es, Trace k rs ⟨w, rs⟩ es ⟨u, rs⟩ ∧
      (u.machine r).program = some (lastLoaded r es p) ∧
      (u.FetchesLoaded p.code r ↔ Machine.fetch p.code (u.machine r).pc =
        Machine.fetch (lastLoaded r es p).code (u.machine r).pc) ∧
      ((∀ e ∈ es, e.1.loads? r = none) → u.FetchesLoaded p.code r) := by
  have hsteady : Steady k (some r) (fun w => Consistent k ⟨w, rs⟩) (Accounted k rs)
      (BegunAccounted k rs) := hr ▸ steady_accounted k rs
  obtain ⟨es, hes⟩ := hsteady.course (accounted_reentry k fuel rs) hw u hu
  obtain ⟨run, hrun, hmachine⟩ := OpenRun.mem_of_actor hr
  obtain ⟨m', hm', hp'⟩ := hes.program_eq hw hrun hmachine hm hp
  have hprogram : (u.machine r).program = some (lastLoaded r es p) := by
    rw [World.machine_of_machine? hm', hp']
  have hiff : u.FetchesLoaded p.code r ↔ Machine.fetch p.code (u.machine r).pc =
      Machine.fetch (lastLoaded r es p).code (u.machine r).pc := by
    simp [World.FetchesLoaded, hprogram]
  refine ⟨es, hes, hprogram, hiff, fun hnone => hiff.2 ?_⟩
  have hlast : lastLoaded r es p = p := by
    unfold lastLoaded
    rw [List.findSome?_eq_none_iff.2 hnone]
    rfl
  rw [hlast]

/-! ### A program that is half visible -/

/-- A program that ends at once. Its slot 0 holds a number. -/
def Program.reloaded : Program :=
  { Program.empty "reloaded" with
    heap := ⟨[⟨.int32, .value (.int32 7)⟩]⟩
    code := Instruction.encodeWords .jump (some haltAddress) }

/-- A program that calls the function named in slot 0. -/
def Program.reloading : Program :=
  { Program.empty "reloading" with
    heap := ⟨[⟨.string, .value (.string "reload")⟩]⟩
    code := Instruction.encodeWords .call (some 0) ++
      Instruction.encodeWords .jump (some haltAddress) }

/-- A world with a behaviour of that program, and a function that loads the other one. -/
def newReloading : World :=
  let w := (World.new .default).addBehaviour (.of 100 101) (some .reloading)
  { w with functions := w.functions.register "reload" (.script 0 [.load .reloaded none]) }

/-- The world in which the behaviour has been activated. -/
def reloadingWorld : World :=
  ((World.operate 1 ⟨1⟩ .activate).after? newReloading).getD newReloading

theorem history_reloadingWorld : History .full .default reloadingWorld := by
  have hactivated : ((World.operate 1 ⟨1⟩ .activate).after? newReloading).isSome = true := by
    decide +kernel
  obtain ⟨w, hw⟩ := Option.isSome_iff_exists.1 hactivated
  obtain ⟨_, hok⟩ := Run.of_after? hw
  rw [reloadingWorld, hw]
  have hnew : History .full .default newReloading :=
    .act (.act .new (.create (.of 100 101) (some .reloading)) rfl)
      (.register "reload" (HostFunction.permitted_full (.script 0 [.load .reloaded none]))) rfl
  exact .act hnew (.operate 1 ⟨1⟩ (.inl rfl)) hok

/-- The world in which the first instruction of a run of the behaviour is due. -/
def reloadingRun : World :=
  (reloadingWorld.enter ⟨1⟩ 0).mapMachine (fun m => { m with halted := false }) (.behaviour ⟨1⟩)

/-- The worlds in which an instruction of that run is due. -/
def reloadingCourse : List World :=
  World.course (World.reentry 3) (.behaviour ⟨1⟩) Program.reloading.code 3 reloadingRun

instance (code : Bytes) (r : MachineRef) (w : World) : Decidable (w.FetchesLoaded code r) :=
  inferInstanceAs (Decidable (∀ p ∈ (w.machine r).program, _))

/-- A host can get to the run. -/
theorem consistent_reloadingRun :
    ∃ frame, Consistent .full ⟨reloadingRun, [.entry ⟨1⟩ 0 frame]⟩ := by
  have hready : (reloadingWorld.behaviour? ⟨1⟩).any
      (fun b => b.machine.isSome && b.state.isRunnable) = true := by
    decide +kernel
  obtain ⟨b, hb, hready⟩ := (Option.any_eq_true _ _).1 hready
  obtain ⟨hmachine, hrunnable⟩ := Bool.and_eq_true_iff.1 hready
  obtain ⟨m, hm⟩ := Option.isSome_iff_exists.1 hmachine
  obtain ⟨es, hes⟩ := history_reloadingWorld.account
  have hentered : Step .full ⟨reloadingWorld, []⟩ (.entered ⟨1⟩ 0)
      ⟨reloadingWorld.enter ⟨1⟩ 0, [.entry ⟨1⟩ 0 (reloadingWorld.frame b m)]⟩ :=
    .entered 0 hb hm hrunnable (by decide +kernel)
  have hstarted : Step .full
      ⟨reloadingWorld.enter ⟨1⟩ 0, [.entry ⟨1⟩ 0 (reloadingWorld.frame b m)]⟩
      (.started (.behaviour ⟨1⟩)) ⟨reloadingRun, [.entry ⟨1⟩ 0 (reloadingWorld.frame b m)]⟩ :=
    .change (.started rfl (by decide +kernel))
  have hconsistent := hes.consistent (consistent_start .full .default)
  exact ⟨_, hstarted.consistent (hentered.consistent hconsistent)⟩

/-- In that run the other program has been loaded by the time the second instruction is due. -/
theorem fetched_from_first_reloading : ∃ u ∈ reloadingCourse, ∃ rs es,
    Trace .full rs ⟨reloadingRun, rs⟩ es ⟨u, rs⟩ ∧
      lastLoaded (.behaviour ⟨1⟩) es .reloading = .reloaded := by
  obtain ⟨frame, hconsistent⟩ := consistent_reloadingRun
  have hloaded : (reloadingRun.machine? (.behaviour ⟨1⟩)).map Machine.program =
      some (some .reloading) := by
    decide +kernel
  obtain ⟨m, hm, hp⟩ := Option.map_eq_some_iff.1 hloaded
  have hreloaded : ∃ u ∈ reloadingCourse,
      (u.machine (.behaviour ⟨1⟩)).program = some .reloaded := by
    decide +kernel
  obtain ⟨u, hu, hlast⟩ := hreloaded
  obtain ⟨es, hes, hprogram, -⟩ := fetched_from_first hconsistent rfl hm hp hu
  exact ⟨u, hu, _, es, hes, Option.some.inj (hprogram.symm.trans hlast)⟩

/-- The function is called a second time, with the heap of the program that it has loaded, though
the code of that program ends the run there. -/
theorem reload_half_visible : History .full .default reloadingWorld ∧
    (∃ u ∈ reloadingCourse, (u.machine (.behaviour ⟨1⟩)).program = some .reloaded ∧
      Machine.fetch Program.reloaded.code (u.machine (.behaviour ⟨1⟩)).pc =
        .ok (.jump, haltAddress) ∧
      ¬ u.FetchesLoaded Program.reloading.code (.behaviour ⟨1⟩)) ∧
    (World.interpret 4 (.behaviour ⟨1⟩)).Ends (reloadingWorld.enter ⟨1⟩ 0) (fun x w =>
      x = .error (.typeMismatch 0 .string "7") ∧
      (w.machine (.behaviour ⟨1⟩)).program = some .reloaded) fun _ => False :=
  ⟨history_reloadingWorld, by decide +kernel, by decide +kernel⟩

end EventVm
