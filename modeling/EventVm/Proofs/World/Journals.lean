import EventVm.Proofs.Text.Integer
import EventVm.Proofs.World.History
import EventVm.Proofs.World.Setting
import EventVm.Proofs.World.Moments

/-!
# What deeds write

Every deed adds entries to the journal: the instruction that it begins, if it begins one, a report
for every run whose failure it finds, and the request that it hands to the network
(`Moment.Step.wroteFor`).
-/

namespace EventVm

/-! ### Reports -/

/-- The message says that a run of the behaviour has failed: it is an error with one of the two
wordings for that, and its fields name the behaviour. -/
def LogEvent.reports (id : BehaviourId) (e : LogEvent) : Bool :=
  e.level = .error ∧ (e.message = "execution fault" ∨ e.message = "execution aborted") ∧
    behaviourField id ∈ e.fields

/-- The entry reports that a run of the behaviour has failed. -/
def Entry.reports (id : BehaviourId) : Entry → Bool
  | log e => e.reports id
  | _ => false

/-- How many reports of failed runs of the behaviour the journal holds. -/
def World.reports (w : World) (id : BehaviourId) : Nat :=
  w.journal.countP (Entry.reports id)

/-- Whether the end of a run is reported: a failure is, unless one that came before it has been. -/
def Finish.isReported : Except VmError Finish → Bool
  | .ok .reachedHalt | .error .halted => false
  | .ok .aborted | .error _ => true

/-- How many reports of failed runs of the behaviour a deed writes. -/
def Deed.reports (id : BehaviourId) : Deed → Nat
  | refused id' _ => if id' = id then 1 else 0
  | left id' _ _ x => if id' = id ∧ Finish.isReported x then 1 else 0
  | _ => 0

/-- A behaviour's number can be read off what is shown of it. -/
theorem BehaviourId.display_inj {id id' : BehaviourId} : id.display = id'.display ↔ id = id' := by
  refine ⟨fun h => ?_, fun h => h ▸ rfl⟩
  have hshown : toString id.number = toString id'.number := String.append_right_inj "#" |>.1 h
  have hread := congrArg (fun s => Text.signed? 10 s.toList) hshown
  have hnumber : ∀ n : Nat, Text.signed? 10 (toString n).toList = some (n : Int) := fun n =>
    Text.signed?_toString n
  simp only [hnumber, Option.some.injEq, Nat.cast_inj] at hread
  cases id
  cases id'
  cases hread
  rfl

namespace LogEvent

variable {id id' : BehaviourId} {address : UInt32}

/-- Only runs report failures. -/
theorem reports_of_not_reportsRun {e : LogEvent} (h : e.reportsRun = false) :
    e.reports id = false := by
  cases e with
  | executionAborted | executionFault => cases h
  | _ => simp [reports, level, message]

theorem reports_executionAborted : (executionAborted id address).reports id' = (id == id') := by
  rw [Bool.eq_iff_iff, beq_iff_eq, eq_comm (a := id)]
  simp [reports, level, message, fields, behaviourField, BehaviourId.display_inj]

theorem reports_executionFault {e : VmError} :
    (executionFault id address e).reports id' = (id == id') := by
  rw [Bool.eq_iff_iff, beq_iff_eq, eq_comm (a := id)]
  simp [reports, level, message, fields, behaviourField, BehaviourId.display_inj]

end LogEvent

namespace World

/-- What a deed may write: the instruction that it begins, as many reports as it owes and the
request that it makes. -/
def WroteFor (d : Deed) (w w' : World) : Prop :=
  ∃ new, w'.journal = new ++ w.journal ∧ (∀ i, .begun i ∈ new → d = .begun i) ∧
    (∀ id, new.countP (Entry.reports id) = d.reports id) ∧
    new.filterMap Entry.request? = d.request?.toList

variable {k : Access} {w w' : World} {d : Deed}

theorem reports_of_isRemark {e : Entry} (h : e.isRemark = true) (id : BehaviourId) :
    e.reports id = false := by
  cases e with
  | log e => exact LogEvent.reports_of_not_reportsRun (by simpa [Entry.isRemark] using h)
  | _ => rfl

/-- Nothing but messages has been written, none of which is a report. -/
def Logged (w w' : World) : Prop :=
  w.Wrote (fun e => ∃ l : LogEvent, e = .log l ∧ l.reportsRun = false) w'

theorem Logged.of_eq (h : w'.journal = w.journal) : w.Logged w' :=
  Wrote.of_eq h

theorem Logged.trans {u v w : World} (h : u.Logged v) (h' : v.Logged w) : u.Logged w :=
  Wrote.trans h h'

theorem Logged.log {l : LogEvent} (h : l.reportsRun = false) (w : World) : w.Logged (w.log l) :=
  Wrote.note ⟨l, rfl, h⟩ w

/-- Messages may be written at any time. -/
theorem WroteFor.of_logged (h : w.Logged w') (hd : ∀ id, d.reports id = 0)
    (hq : d.request? = none) : w.WroteFor d w' := by
  obtain ⟨new, hj, hnew⟩ := h
  refine ⟨new, hj, fun i hi => ?_, fun id => ?_, ?_⟩
  · obtain ⟨l, hl, -⟩ := hnew _ hi
    cases hl
  · rw [hd, List.countP_eq_zero]
    intro e he
    obtain ⟨l, rfl, hl⟩ := hnew e he
    simp [Entry.reports, LogEvent.reports_of_not_reportsRun hl]
  · rw [hq, Option.toList_none, List.filterMap_eq_nil_iff]
    intro e he
    obtain ⟨l, rfl, -⟩ := hnew e he
    rfl

theorem WroteFor.of_eq (h : w'.journal = w.journal) (hd : ∀ id, d.reports id = 0)
    (hq : d.request? = none) : w.WroteFor d w' :=
  .of_logged (.of_eq h) hd hq

/-- A remark that is no message may be a request. -/
theorem WroteFor.of_remark {e : Entry} (h : e.isRemark = true) (w : World) :
    w.WroteFor (.noted e) (w.note e) := by
  refine ⟨[e], rfl, fun i hi => ?_, fun id => ?_, ?_⟩
  · cases List.mem_singleton.1 hi
    cases h
  · simp [Deed.reports, reports_of_isRemark h]
  · cases hq : e.request? <;> simp [Deed.request?, hq]

/-- A report of a failed run. -/
theorem WroteFor.of_report {l : LogEvent} {id : BehaviourId}
    (h : w'.journal = .log l :: w.journal) (hl : ∀ id', l.reports id' = (id == id'))
    (hd : ∀ id', d.reports id' = if id = id' then 1 else 0) (hq : d.request? = none) :
    w.WroteFor d w' := by
  refine ⟨[.log l], h, fun i hi => ?_, fun id' => ?_, ?_⟩
  · cases List.mem_singleton.1 hi
  · rw [hd, List.countP_singleton]
    simp [Entry.reports, hl]
  · rw [hq]
    rfl

theorem journal_fault (w : World) (id : BehaviourId) : (w.fault id).journal = w.journal :=
  journal_mapMachine ..

/-- A run that ends, or is refused, reports its failure. -/
theorem wroteFor_conclude {id : BehaviourId} {address : UInt32} {x : Except VmError Finish}
    (hd : ∀ id', d.reports id' = if id = id' ∧ Finish.isReported x then 1 else 0)
    (hq : d.request? = none) (w : World) : w.WroteFor d (w.conclude id address x).2 := by
  unfold conclude
  split
  · exact .of_eq rfl (fun id' => by simp [hd, Finish.isReported]) hq
  · refine .of_report (journal_fault ..) (fun _ => LogEvent.reports_executionAborted)
      (fun id' => ?_) hq
    simp [hd, Finish.isReported]
  · exact .of_eq (journal_fault ..) (fun id' => by simp [hd, Finish.isReported]) hq
  · next e hne =>
    refine .of_report (journal_fault ..) (fun _ => LogEvent.reports_executionFault)
      (fun id' => ?_) hq
    have he : Finish.isReported (.error e) = true := by
      cases e <;> first | rfl | exact absurd rfl hne
    simp [hd, he]

theorem reportsRun_of_supplyAll (b : Behaviour) (p : Program) :
    ∀ e ∈ (supplyAll b p).2.2, e.reportsRun = false := by
  have hstep : ∀ s v, (∀ e ∈ s.2.2, e.reportsRun = false) →
      ∀ e ∈ (supplyOne b p s v).2.2, e.reportsRun = false := by
    rintro ⟨heap, kept, events⟩ v hs
    unfold supplyOne
    dsimp only
    split
    · exact hs
    · split
      · exact hs
      · split
        · exact List.forall_mem_cons.2 ⟨rfl, hs⟩
        · split
          · exact hs
          · exact List.forall_mem_cons.2 ⟨rfl, hs⟩
  unfold supplyAll
  refine List.foldlRecOn (motive := fun s => ∀ e ∈ s.2.2, e.reportsRun = false) _ _ ?_
    fun s hs v _ => hstep s v hs
  nofun

/-- Loading a program for a behaviour writes messages only. -/
theorem logged_loadBehaviour (w : World) (b : Behaviour) : w.Logged (w.loadBehaviour b).2 := by
  unfold loadBehaviour
  cases b.program with
  | none => exact .of_eq rfl
  | some p =>
    have hlogs : w.Logged ((supplyAll b p).2.2.reverse.foldl log w) := by
      refine ⟨((supplyAll b p).2.2.reverse.map Entry.log).reverse, by rw [foldl_log], ?_⟩
      intro e he
      obtain ⟨l, hl, rfl⟩ := List.mem_map.1 (List.mem_reverse.1 he)
      exact ⟨l, rfl, reportsRun_of_supplyAll b p l (List.mem_reverse.1 hl)⟩
    dsimp only
    split <;> exact hlogs.trans (.of_eq rfl)

theorem logged_beginActivation (w : World) (b : Behaviour) :
    w.Logged (w.beginActivation b).2 := by
  have hloaded : w.Logged ((w.setState b.id .loading).loadBehaviour b).2 :=
    (Logged.of_eq rfl).trans (logged_loadBehaviour _ b)
  unfold beginActivation
  cases hl : (w.setState b.id .loading).loadBehaviour b with
  | mk x v =>
    rw [hl] at hloaded
    cases x with
    | error e => exact hloaded.trans ((Logged.of_eq rfl).trans (Logged.log rfl _))
    | ok u => exact hloaded.trans (.of_eq rfl)

theorem journal_loadMachine {r : MachineRef} {p : Program} {heap : Heap}
    (h : w.loadMachine r p heap = .ok w') : w'.journal = w.journal := by
  obtain ⟨m, -, hm⟩ := bind_eq_ok.1 h
  cases hm
  exact journal_mapMachine ..

/-- What code writes by itself. -/
theorem Change.wroteFor {a : Option MachineRef} (h : w.Change k a d w') : w.WroteFor d w' := by
  cases h with
  | noted remark => exact .of_remark remark w
  | supplied | hooked | hashed | registered => exact .of_eq rfl (fun _ => rfl) rfl
  | shutDown =>
    exact .of_logged (Logged.log (l := .shutDown w.liveCount) rfl _) (fun _ => rfl) rfl
  | aborted | poked | assigned | put | started =>
    exact .of_eq (journal_mapMachine ..) (fun _ => rfl) rfl
  | loaded direct own loaded => exact .of_eq (journal_loadMachine loaded) (fun _ => rfl) rfl
  | @begun i _ own runs due carried =>
    refine ⟨[.begun i], ?_, fun i' hi => ?_, fun _ => rfl, rfl⟩
    · have hbegin : (w.begin i).journal = .begun i :: w.journal := journal_mapMachine ..
      rw [List.singleton_append, ← hbegin]
      cases carried with
      | alone | called => exact journal_mapMachine ..
      | lost => rfl
    · cases List.mem_singleton.1 hi
      rfl

end World

open World in
/-- What a deed writes. -/
theorem Moment.Step.wroteFor {k : Access} {c c' : Moment} {d : Deed} (h : Step k c d c') :
    c.world.WroteFor d c'.world := by
  cases h with
  | change change => exact change.wroteFor
  | created | dropped | connected | disabled | opened => exact .of_eq rfl (fun _ => rfl) rfl
  | put | stopped => exact .of_eq (journal_mapMachine ..) (fun _ => rfl) rfl
  | loaded direct loaded => exact .of_eq (journal_loadMachine loaded) (fun _ => rfl) rfl
  | @activated w rs id b => exact .of_logged (logged_beginActivation w b) (fun _ => rfl) rfl
  | @entered w rs id b m address =>
    refine ⟨[.entered id address (w.nesting + 1)], journal_enter .., fun i hi => ?_,
      fun _ => rfl, rfl⟩
    cases List.mem_singleton.1 hi
  | refused =>
    exact wroteFor_conclude (fun id' => by simp [Deed.reports, Finish.isReported]) rfl _
  | @left w rs id address frame x ended =>
    obtain ⟨new, hj, hnew⟩ := wroteFor_conclude (d := .left id address frame x) (x := x)
      (fun id' => rfl) rfl ((w.mapMachine (Machine.finish x) (.behaviour id)).leave id frame)
    exact ⟨new, by rw [hj, journal_leave, journal_mapMachine], hnew⟩

end EventVm
