import EventVm.Proofs.World.Accounts

/-!
# The flag of halted machines

A machine has one flag that tells whether its last run ended at the halt address. A run that is not
refused lowers the flag before its first instruction and raises it when it ends at the halt address;
runs of the same machine that its functions begin do so in the middle of it.

* `Moment.Chronicle.halted_eq`: the flag is what the deeds made of it, the newest deed that sets it
  counting.
* `interpret_halted`: after a run the flag tells whether that run halted, exactly if it did or the
  flag has been down in the end. So it is if no run of the machine inside it has halted.
* `halted_stays_up`: if one has and the outer run then fails, the flag is up.
-/

namespace EventVm

/-! ### What sets the flag -/

/-- What a deed makes of the flag of the machine `r`, if it sets it. -/
def Deed.haltFlag? (r : MachineRef) : Deed → Option Bool
  | started r' | loaded r' _ _ => if r' = r then some false else none
  | activated id (.ok ()) => if .behaviour id = r then some false else none
  | left id _ _ (.ok .reachedHalt) => if .behaviour id = r then some true else none
  | stopped r' (.ok .reachedHalt) => if r' = r then some true else none
  | _ => none

/-- What some deeds, the newest first, make of the flag of the machine `r`. -/
def Moment.haltFlag (r : MachineRef) (es : List (Deed × Moment)) (flag : Bool) : Bool :=
  es.foldr (fun e flag => (e.1.haltFlag? r).getD flag) flag

namespace Deed

variable {r : MachineRef} {d : Deed}

/-- Only deeds that change a machine set its flag. -/
theorem haltFlag?_of_machine_ne (h : d.machine ≠ some r) : d.haltFlag? r = none := by
  have hother : ∀ {r' : MachineRef}, d.machine = some r' → r' ≠ r := by
    rintro r' hd rfl
    exact h hd
  unfold haltFlag?
  split
  · exact if_neg (hother rfl)
  · exact if_neg (hother rfl)
  · exact if_neg (hother rfl)
  · exact if_neg (hother rfl)
  · exact if_neg (hother rfl)
  · rfl

end Deed

namespace Machine

variable {m m' : Machine}

/-- The end of a run raises the flag if it was the halt address, and never lowers it. -/
theorem halted_finish (x : Except VmError Finish) (m : Machine) :
    (m.finish x).halted = (decide (x = .ok .reachedHalt) || m.halted) := by
  unfold finish
  split <;> simp

theorem halted_leave (frame : World.Frame) (x : Except VmError Finish) (m : Machine) :
    (m.leave frame x).halted = (decide (x = .ok .reachedHalt) || m.halted) := by
  rw [← halted_finish]
  unfold leave
  split <;> rfl

theorem halted_of_load {o : Options} {p : Program} {heap : Heap} (h : m.load o p heap = .ok m') :
    m'.halted = false := by
  obtain ⟨_, -, h⟩ := bind_eq_ok.1 h
  cases h
  rfl

end Machine

theorem World.halted_of_buildMachine {o : Options} {b : Behaviour} {p : Program} {heap : Heap}
    {m : Machine} (h : buildMachine o b p heap = .ok m) : m.halted = false := by
  obtain ⟨heap', -, hload⟩ := bind_eq_ok.1 h
  exact Machine.halted_of_load (mapError_eq_ok.1 hload)

/-- What a deed does to the flag of a machine. -/
theorem Alters.halted_eq {k : Access} {o : Options} {r : MachineRef} {d : Deed} {m m' : Machine}
    (h : Alters k o r d (some m) (some m')) (hpoked : d = .poked r → m'.halted = m.halted) :
    m'.halted = (d.haltFlag? r).getD m.halted := by
  cases h with
  | kept other => rw [Deed.haltFlag?_of_machine_ne other, Option.getD_none]
  | poked => exact hpoked rfl
  | loaded direct loaded => simp [Deed.haltFlag?, Machine.halted_of_load loaded]
  | started => simp [Deed.haltFlag?]
  | begun own runs frame => rw [frame]; rfl
  | @stopped x =>
    rw [Machine.halted_finish]
    by_cases hx : x = .ok .reachedHalt
    · subst hx
      simp [Deed.haltFlag?]
    · simp [Deed.haltFlag?, hx]
  | @left id address frame x m own =>
    subst own
    rw [Machine.halted_leave]
    by_cases hx : x = .ok .reachedHalt
    · subst hx
      simp [Deed.haltFlag?]
    · simp [Deed.haltFlag?, hx]
  | activated own program built =>
    simp [Deed.haltFlag?, own, World.halted_of_buildMachine built]
  | _ => rfl

namespace Moment

variable {k : Access} {base rs : List OpenRun} {c c' : Moment} {es es' : List (Deed × Moment)}
  {r : MachineRef} {flag : Bool}

theorem haltFlag_append : haltFlag r (es' ++ es) flag = haltFlag r es' (haltFlag r es flag) :=
  List.foldr_append

/-- A flag that is down stays down if no deed raises it. -/
theorem haltFlag_of_not_raised (h : ∀ e ∈ es, e.1.haltFlag? r ≠ some true) :
    haltFlag r es false = false := by
  induction es with
  | nil => rfl
  | cons e es ih =>
    obtain ⟨he, hes⟩ := List.forall_mem_cons.1 h
    change (e.1.haltFlag? r).getD (haltFlag r es false) = false
    rw [ih hes]
    cases hflag : e.1.haltFlag? r with
    | none => rfl
    | some flag =>
      cases flag with
      | false => rfl
      | true => exact absurd hflag he

/-- During a run of a machine, its flag is what the deeds make of it. -/
theorem Chronicle.halted_eq {run : OpenRun} {m m' : Machine} (h : Chronicle k base c es c')
    (hc : c.Consistent k) (hrun : run ∈ base) (hr : run.machine = some r)
    (hm : c.world.machine? r = some m) (hm' : c'.world.machine? r = some m') :
    m'.halted = haltFlag r es m.halted := by
  induction h generalizing m m' run with
  | nil =>
    rw [hm] at hm'
    cases hm'
    rfl
  | @next base es c c₁ c₂ d before step plain within ih =>
    have hc₁ := before.trace.consistent hc
    have hrun₁ := before.within.subset hrun
    obtain ⟨m₁, hm₁⟩ := hc₁.present run hrun₁ r hr
    have halters := step.alters r
    rw [hm₁, hm'] at halters
    rw [halters.halted_eq fun hd => ?_, ih hc hrun hr hm hm₁]
    · rfl
    obtain plain | ⟨hnone, -⟩ := plain
    · have hkept := plain.halted r hd r
      rwa [World.machine_of_machine? hm', World.machine_of_machine? hm₁] at hkept
    · rw [hnone] at hrun₁
      cases hrun₁
  | @call base es es' c u rs c' fuel id target event b p before permitted connected inside reached
      ih ih' =>
    have hu := before.trace.consistent hc
    have hrun' := before.within.subset hrun
    obtain ⟨m₁, hm₁⟩ := hu.present run hrun' r hr
    have hrelayed : Consistent k ⟨u.relayFrom b p target event, rs⟩ :=
      (Chronicle.trace_handing connected b p target event).consistent hu
    have hm₂ : (u.relayFrom b p target event).machine? r = some m₁ := by
      rw [World.relayFrom, if_pos connected, World.machine?_note, World.log, World.machine?_note,
        World.machine?_computeHash]
      exact hm₁
    rw [ih' hrelayed hrun' hr hm₂ hm', ih hc hrun hr hm hm₁, haltFlag_append]
    rfl

end Moment

open Moment

/-! ### Runs -/

/-- The first thing that a run does which is not refused is to lower the flag of its machine. -/
theorem World.interpretWith_lowered {self : Reentry} {fuel : Nat} {r : MachineRef} {w : World}
    (hp : (w.machine r).program ≠ none) (hf : (w.machine r).faulted = false) :
    interpretWith self fuel r w =
      interpretWith self fuel r (w.mapMachine (fun m => { m with halted := false }) r) := by
  have hprogram : ((w.mapMachine (fun m => { m with halted := false }) r).machine r).program =
      (w.machine r).program :=
    apply_machine_mapMachine_of_eq Machine.program rfl r
  have hfaulted : ((w.mapMachine (fun m => { m with halted := false }) r).machine r).faulted =
      (w.machine r).faulted :=
    apply_machine_mapMachine_of_eq Machine.faulted rfl r
  unfold interpretWith
  rw [hprogram, hfaulted, mapMachine_mapMachine]
  obtain ⟨p, hp⟩ := Option.ne_none_iff_exists'.1 hp
  rw [hp, hf]
  rfl

section Interpret

variable {k : Access} {rs : List OpenRun} {r : MachineRef} {w w' : World} {m : Machine}
  {fuel : Nat} {x : Except VmError Finish}

/-- What happens in a run of a machine before its end, and what flag it ends with. -/
theorem halted_of_interpret (hw : Consistent k ⟨w, rs⟩) (hr : OpenRun.actor rs = some r)
    (hm : w.machine? r = some m) (hrun : World.interpret fuel r w = .ok x w') :
    ∃ es v m', Chronicle k rs ⟨w, rs⟩ es ⟨v, rs⟩ ∧ w' = v.mapMachine (Machine.finish x) r ∧
      w'.machine? r = some m' ∧
      m'.halted = (decide (x = .ok .reachedHalt) || haltFlag r es m.halted) := by
  cases fuel with
  | zero => cases hrun
  | succ fuel =>
    have hsteady : Steady k (some r) (fun w => Consistent k ⟨w, rs⟩) (Chronicled k rs)
        (BegunChronicled k rs) := hr ▸ steady_chronicled k rs
    obtain ⟨v, ⟨es, hes⟩, -, rfl⟩ :=
      (hsteady.interpretWith (chronicled_reentry k fuel rs) fuel hw).of_ok hrun
    obtain ⟨run, hmem, hrun⟩ := OpenRun.mem_of_actor hr
    obtain ⟨m', hm'⟩ := (hes.trace.consistent hw).present run hmem r hrun
    refine ⟨es, v, m'.finish x, hes, rfl, ?_, ?_⟩
    · rw [World.machine?_mapMachine_self, hm', Option.map_some]
    · rw [Machine.halted_finish, hes.halted_eq hw hmem hrun hm hm']

/-- After a run the flag tells whether it halted, exactly if it did or what happened in it has left
the flag down in the end. The flag from before counts only if the run is refused, the machine having
faulted. So the flag tells the truth if no run of the machine inside the run has halted, and the
run is not refused with the flag still up. -/
theorem interpret_halted (hw : Consistent k ⟨w, rs⟩) (hr : OpenRun.actor rs = some r)
    (hm : w.machine? r = some m) (hp : m.program ≠ none)
    (hrun : World.interpret fuel r w = .ok x w') :
    ∃ es v m', Chronicle k rs ⟨w, rs⟩ es ⟨v, rs⟩ ∧ w' = v.mapMachine (Machine.finish x) r ∧
      w'.machine? r = some m' ∧
      ((m'.halted = true ↔ x = .ok .reachedHalt) ↔
        x = .ok .reachedHalt ∨ haltFlag r es (m.faulted && m.halted) = false) ∧
      ((m.faulted = true → m.halted = false) → (∀ e ∈ es, e.1.haltFlag? r ≠ some true) →
        (m'.halted = true ↔ x = .ok .reachedHalt)) := by
  suffices h : ∃ es v m', Chronicle k rs ⟨w, rs⟩ es ⟨v, rs⟩ ∧
      w' = v.mapMachine (Machine.finish x) r ∧ w'.machine? r = some m' ∧
      m'.halted = (decide (x = .ok .reachedHalt) || haltFlag r es (m.faulted && m.halted)) by
    obtain ⟨es, v, m', hes, hw', hm', hflag⟩ := h
    refine ⟨es, v, m', hes, hw', hm', ?_, fun hfaulted hraised => ?_⟩
    · rw [hflag]
      by_cases hx : x = .ok .reachedHalt <;> simp [hx]
    · have hdown : (m.faulted && m.halted) = false := by
        cases hf : m.faulted with
        | false => rfl
        | true => exact hfaulted hf
      rw [hflag, hdown, haltFlag_of_not_raised hraised]
      simp
  cases hf : m.faulted with
  | true => exact halted_of_interpret hw hr hm hrun
  | false =>
    have hm₀ : w.machine r = m := World.machine_of_machine? hm
    let w₁ := w.mapMachine (fun m => { m with halted := false }) r
    have hstarted : Step k ⟨w, rs⟩ (.started r) ⟨w₁, rs⟩ :=
      .change (.started hr (hm₀ ▸ hf))
    have hm₁ : w₁.machine? r = some { m with halted := false } := by
      rw [World.machine?_mapMachine_self, hm, Option.map_some]
    have hrun₁ : World.interpret fuel r w₁ = .ok x w' := by
      cases fuel with
      | zero => cases hrun
      | succ fuel =>
        rw [← hrun]
        exact (World.interpretWith_lowered (hm₀ ▸ hp) (hm₀ ▸ hf)).symm
    obtain ⟨es, v, m', hes, hw', hm', hflag⟩ :=
      halted_of_interpret (hstarted.consistent hw) hr hm₁ hrun₁
    have hbegins : Chronicle k rs ⟨w, rs⟩ [(.started r, ⟨w₁, rs⟩)] ⟨w₁, rs⟩ :=
      .single hstarted (.inl ⟨rfl, nofun⟩) List.suffix_rfl List.suffix_rfl
    refine ⟨_, v, m', hbegins.trans hes, hw', hm', ?_⟩
    rw [hflag, haltFlag_append]
    simp [haltFlag, Deed.haltFlag?]

end Interpret

/-! ### A nested run that halts -/

/-- A program that sends its behaviour the event `inner`, whose handler jumps to the halt address,
and then takes an address off the empty stack. -/
def Program.relapsing : Program :=
  { Program.empty "relapsing" with
    heap := ⟨[⟨.behaviour, .value (.object (BehaviourId.toRef ⟨1⟩))⟩,
      ⟨.string, .value (.string "inner")⟩,
      ⟨.string, .value (.string BuiltIn.sendCustomEvent.signature)⟩]⟩
    code := Instruction.encodeWords .push (some 0) ++ Instruction.encodeWords .push (some 1) ++
      Instruction.encodeWords .call (some 2) ++ Instruction.encodeWords .pop none ++
      Instruction.encodeWords .jump (some haltAddress)
    entryPoints := .ofList [⟨"inner", 28, .object, true⟩] (by simp) }

/-- The world in which a behaviour with that program has been activated. -/
def relapsingWorld : World :=
  ((World.operate 1 ⟨1⟩ .activate).after?
    ((World.new .default).addBehaviour (.of 100 101) (some .relapsing))).getD (.new .default)

theorem history_relapsingWorld : History .full .default relapsingWorld := by
  have hactivated : ((World.operate 1 ⟨1⟩ .activate).after?
      ((World.new .default).addBehaviour (.of 100 101) (some .relapsing))).isSome = true := by
    decide +kernel
  obtain ⟨w, hw⟩ := Option.isSome_iff_exists.1 hactivated
  obtain ⟨_, hok⟩ := Run.of_after? hw
  rw [relapsingWorld, hw]
  exact .act (.act .new (.create (.of 100 101) (some .relapsing)) rfl)
    (.operate 1 ⟨1⟩ (.inl rfl)) hok

/-- The run of the behaviour's machine fails after the run inside it has halted, and the flag is
up. -/
theorem ends_relapsing : (World.interpret 9 (.behaviour ⟨1⟩)).Ends relapsingWorld
    (fun x w' => x = .error .stackUnderflow ∧
      (w'.machine? (.behaviour ⟨1⟩)).map Machine.halted = some true) fun _ => False := by
  decide +kernel

theorem relapsing_ready : ∃ m, relapsingWorld.machine? (.behaviour ⟨1⟩) = some m ∧
    m.program ≠ none ∧ m.faulted = false := by
  have hready : (relapsingWorld.machine? (.behaviour ⟨1⟩)).any
      (fun m => m.program.isSome && !m.faulted) = true := by
    decide +kernel
  obtain ⟨m, hm, hready⟩ := (Option.any_eq_true _ _).1 hready
  obtain ⟨hprogram, hsound⟩ := Bool.and_eq_true_iff.1 hready
  exact ⟨m, hm, Option.isSome_iff_ne_none.1 hprogram, by simpa using hsound⟩

/-- What happened in such a run has raised the flag. -/
theorem interpret_halted_relapsing : ∃ w w' es v m', History .full .default w ∧
    World.interpret 9 (.behaviour ⟨1⟩) w = .ok (.error .stackUnderflow) w' ∧
    Chronicle .full [.direct (.behaviour ⟨1⟩)] ⟨w, [.direct (.behaviour ⟨1⟩)]⟩ es
      ⟨v, [.direct (.behaviour ⟨1⟩)]⟩ ∧
    w'.machine? (.behaviour ⟨1⟩) = some m' ∧ haltFlag (.behaviour ⟨1⟩) es false = true := by
  obtain ⟨m, hm, hprogram, hsound⟩ := relapsing_ready
  obtain ⟨es₀, hes₀⟩ := history_relapsingWorld.account
  have hopened : Step .full ⟨relapsingWorld, []⟩ (.opened (.behaviour ⟨1⟩))
      ⟨relapsingWorld, [.direct (.behaviour ⟨1⟩)]⟩ := .opened rfl hm
  have hconsistent := hopened.consistent (hes₀.consistent (consistent_start .full .default))
  obtain ⟨x, w', hrun, rfl, hflag⟩ := ends_relapsing.exists_ok
  obtain ⟨es, v, m', hes, -, hm', hmeets, -⟩ :=
    interpret_halted hconsistent rfl hm hprogram hrun
  refine ⟨_, w', es, v, m', history_relapsingWorld, hrun, hes, hm', ?_⟩
  rw [hm', Option.map_some] at hflag
  rw [hsound, Bool.false_and] at hmeets
  by_contra hdown
  have hends := hmeets.2 (.inr (by simpa using hdown))
  exact nomatch hends.1 (Option.some.inj hflag)

/-- A run that fails leaves the flag up if a run of the same machine has halted inside it. -/
theorem halted_stays_up : ∃ w m w' m', History .full .default w ∧
    w.machine? (.behaviour ⟨1⟩) = some m ∧ m.program ≠ none ∧
    World.interpret 9 (.behaviour ⟨1⟩) w = .ok (.error .stackUnderflow) w' ∧
    w'.machine? (.behaviour ⟨1⟩) = some m' ∧ m'.halted = true := by
  obtain ⟨m, hm, hprogram, -⟩ := relapsing_ready
  obtain ⟨x, w', hrun, rfl, hflag⟩ := ends_relapsing.exists_ok
  obtain ⟨m', hm', hflag⟩ := Option.map_eq_some_iff.1 hflag
  exact ⟨_, m, w', m', history_relapsingWorld, hm, hprogram, hrun, hm', hflag⟩

end EventVm
