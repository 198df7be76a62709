import EventVm.Proofs.World.Serving

/-!
# Two ways to an entry point

An event reaches a behaviour through the table of its handlers or by the name of an exported entry
point. The table is made of the exported entry points, whose names are distinct, so that it has one
handler or none for a name (`EventTable.addresses_ofEntryPoints`); and in every world that can be
reached, the table of a behaviour that can run is that of its program. Both ways therefore lead to
the same world, but for the message that there is no such entry point (`raise_agrees_with_send`).
Only by name can entry points be reached that begin with an underscore and are not in the
vocabulary.
-/

namespace EventVm

open Moment

/-! ### Handlers and entry points -/

section Tables

variable {name : String}

/-- A name is that of one symbol at most. -/
theorem SymbolTable.filter_name_eq (t : SymbolTable) (name : String) :
    t.symbols.filter (fun s => s.name == name) = (t.get? name).toList := by
  have hfirst : (t.symbols.filter fun s => s.name == name).head? = t.get? name :=
    List.head?_filter.trans (t.get?_eq_find? name).symm
  have hnodup : ((t.symbols.filter fun s => s.name == name).map Symbol.name).Nodup :=
    t.names_nodup.sublist (List.filter_sublist.map _)
  have hname : ∀ s ∈ t.symbols.filter fun s => s.name == name, s.name = name := fun s hs =>
    beq_iff_eq.1 (List.mem_filter.1 hs).2
  rw [← hfirst]
  cases hfound : t.symbols.filter fun s => s.name == name with
  | nil => rfl
  | cons s rest =>
    rw [hfound] at hnodup hname
    cases rest with
    | nil => rfl
    | cons s' rest =>
      have hsame : s.name = s'.name := (hname s (by simp)).trans (hname s' (by simp)).symm
      simp [hsame] at hnodup

namespace EventTable

/-- A name that the table has a way to: it is in the vocabulary or begins without an underscore. -/
def admits (name : String) : Bool :=
  (EventKind.ofEntryName? name).isSome || !isReserved name

/-- The entries of a part of the table that are selected are the symbols of a name. -/
theorem selected_eq {κ : Type} {handler? : Symbol → Option (κ × UInt32)} (select : κ → Bool)
    {ss : List Symbol}
    (entered : ∀ s ∈ ss, s.name = name → ∃ x, handler? s = some (x, s.address) ∧ select x = true)
    (named : ∀ s ∈ ss, ∀ e, handler? s = some e → select e.1 = true → s.name = name) :
    ((ss.filterMap handler?).filter fun e => select e.1).map Prod.snd =
      (ss.filter fun s => s.name == name).map Symbol.address := by
  induction ss with
  | nil => rfl
  | cons s ss ih =>
    obtain ⟨hentered, entered⟩ := List.forall_mem_cons.1 entered
    obtain ⟨hnamed, named⟩ := List.forall_mem_cons.1 named
    have ih := ih entered named
    by_cases hname : s.name = name
    · obtain ⟨x, hentry, hselect⟩ := hentered hname
      rw [List.filterMap_cons_some hentry]
      simp [hselect, hname, ih]
    · cases hentry : handler? s with
      | none =>
        rw [List.filterMap_cons_none hentry]
        simp [hname, ih]
      | some e =>
        have hselect : ¬ select e.1 = true := mt (hnamed e hentry) hname
        rw [List.filterMap_cons_some hentry]
        simp [hselect, hname, ih]

/-- The table of a program has for a name the exported entry points of that name, if it has a way to
the name. -/
theorem addresses_ofEntryPoints (t : SymbolTable) (name : String) :
    (ofEntryPoints t).addresses name = if admits name = true then
      (t.exported.filter fun s => s.name == name).map Symbol.address else [] := by
  unfold addresses admits
  cases hk : EventKind.ofEntryName? name with
  | some k =>
    refine selected_eq (· == k) (fun s _ hs => ⟨k, ?_, beq_self_eq_true k⟩) ?_
    · rw [builtInOf?, hs, hk, Option.map_some]
    · intro s _ e he hselect
      obtain ⟨k', hk', rfl⟩ := Option.map_eq_some_iff.1 he
      cases beq_iff_eq.1 hselect
      have hname := EventKind.entryName_of_ofEntryName? hk'
      exact hname.symm.trans (EventKind.entryName_of_ofEntryName? hk)
  | none =>
    have hcustom : ∀ s e, customOf? s = some e →
        isReserved s.name = false ∧ e = (s.name, s.address) := by
      intro s e he
      unfold customOf? at he
      split at he
      · cases he
      · next hs =>
        simp only [Bool.or_eq_true, not_or, Bool.not_eq_true] at hs
        exact ⟨hs.2, (Option.some.inj he).symm⟩
    cases hreserved : isReserved name with
    | false =>
      refine selected_eq (· == name) ?_ ?_
      · rintro s - rfl
        refine ⟨s.name, ?_, beq_self_eq_true _⟩
        simp [customOf?, hk, hreserved]
      · intro s _ e he hselect
        obtain ⟨-, rfl⟩ := hcustom s e he
        exact beq_iff_eq.1 hselect
    | true =>
      change (ofEntryPoints t).customAddresses name = []
      refine List.map_eq_nil_iff.2 (List.filter_eq_nil_iff.2 fun e he hselect => ?_)
      obtain ⟨s, -, he⟩ := List.mem_filterMap.1 he
      obtain ⟨hunreserved, rfl⟩ := hcustom s e he
      have hname : s.name = name := beq_iff_eq.1 hselect
      rw [hname, hreserved] at hunreserved
      cases hunreserved

end EventTable

/-- The exported entry point of a name is that of the behaviour's program. -/
theorem Behaviour.entryPoint?_eq {b : Behaviour} {p : Program} (hp : b.program = some p) :
    (b.entryPoint? name).toList =
      (p.entryPoints.exported.filter fun s => s.name == name).map Symbol.address := by
  have hexported : (p.entryPoints.exported.filter fun s => s.name == name) =
      (p.entryPoints.get? name).toList.filter Symbol.exported := by
    rw [← SymbolTable.filter_name_eq, SymbolTable.Raw.exported, List.filter_filter,
      List.filter_filter]
    exact List.filter_congr fun s _ => Bool.and_comm ..
  rw [hexported, entryPoint?, hp]
  cases hs : p.entryPoints.get? name with
  | none => simp [hs]
  | some s =>
    by_cases hexported : s.exported = true
    · simp [hs, hexported]
    · simp [hs, hexported]

end Tables

/-! ### Events of a behaviour that can run -/

namespace World

variable {self : Reentry} {w : World} {id : BehaviourId} {event : String} {b : Behaviour}
  {address? : Option UInt32}

theorem behaviour?_apply (w : World) (id : BehaviourId) :
    Run.behaviour? id w = .ok (w.behaviour? id) w :=
  rfl

/-- A behaviour that cannot run takes no event. -/
theorem raise_of_idle (h : ∀ b, w.behaviour? id = some b → ¬ b.state.isRunnable = true) :
    raise self id event w = .ok () w := by
  unfold raise dispatchBy
  rw [Run.bind_apply, behaviour?_apply]
  cases hb : w.behaviour? id with
  | none => rfl
  | some b =>
    simp only [if_neg (h b hb)]
    rfl

theorem sendEvent_of_idle (h : ∀ b, w.behaviour? id = some b → ¬ b.state.isRunnable = true) :
    sendEvent self id event w = .ok () w := by
  unfold sendEvent
  rw [Run.bind_apply, behaviour?_apply]
  cases hb : w.behaviour? id with
  | none => rfl
  | some b =>
    simp only [if_neg (h b hb)]
    rfl

/-- The first handler is run, and if there is none, nothing. -/
theorem raise_of_runnable (self : Reentry) (hb : w.behaviour? id = some b)
    (hr : b.state.isRunnable = true) (h : b.events.addresses event = address?.toList) :
    raise self id event w =
      address?.elim (.ok () w) fun address => (self.runAt id address >>= fun _ => return ()) w := by
  unfold raise dispatchBy
  rw [Run.bind_apply, behaviour?_apply, hb]
  simp only [if_pos hr, h]
  cases address? with
  | none => rfl
  | some address =>
    simp only [Option.toList_some, Option.elim_some, runAll, Run.bind_apply]
    cases self.runAt id address w with
    | error x w' => rfl
    | ok halted w' => cases halted <;> rfl

theorem sendEvent_of_runnable (self : Reentry) (event : String) (hb : w.behaviour? id = some b)
    (hr : b.state.isRunnable = true) : sendEvent self id event w = match b.entryPoint? event with
      | some address => (self.runAt id address >>= fun _ => return ()) w
      | none => .ok () (w.log (.eventNotFound id event)) := by
  unfold sendEvent
  rw [Run.bind_apply, behaviour?_apply, hb]
  simp only [if_pos hr]
  cases b.entryPoint? event <;> rfl

end World

/-! ### What is seen of an outcome -/

/-- Whether an entry is a message for debugging. -/
def Entry.isDebug : Entry → Bool
  | log e => e.level == .debug
  | _ => false

/-- The world without the messages for debugging. -/
def World.quiet (w : World) : World :=
  { w with journal := w.journal.filter fun e => !e.isDebug }

/-- The outcome of a computation, the messages for debugging set aside. -/
def Run.quiet {α : Type} : EStateM.Result Exhausted World α → EStateM.Result Exhausted World α
  | .ok a w => .ok a w.quiet
  | .error x w => .error x w.quiet

theorem World.quiet_log_eventNotFound (w : World) (id : BehaviourId) (event : String) :
    (w.log (.eventNotFound id event)).quiet = w.quiet :=
  rfl

section Agreement

variable {k : Access} {o : Options} {w : World} {id : BehaviourId} {event : String} {b : Behaviour}

/-- Wherever a host has got, a behaviour that can run has a machine. -/
theorem Reachable.machine_of_runnable (hw : Reachable k o w) (hb : w.behaviour? id = some b)
    (hr : b.state.isRunnable = true) : b.machine ≠ none := by
  obtain ⟨es, rs, h⟩ := hw.account
  obtain ⟨m, hm⟩ := h.machine_of_runnable ⟨b.state, World.state?_of_behaviour? hb, hr⟩
  intro hnone
  simp only [World.machine?, hb, Option.bind_some, hnone] at hm
  cases hm

/-- The table of a behaviour with a machine is that of its program, wherever a host has got. -/
theorem Reachable.events_of_machine (hw : Reachable k o w) (hb : w.behaviour? id = some b)
    (hm : b.machine ≠ none) :
    ∃ p, b.program = some p ∧ b.events = .ofEntryPoints p.entryPoints := by
  obtain ⟨es, rs, h⟩ := hw.account
  obtain ⟨m, hm⟩ := Option.ne_none_iff_exists'.1 hm
  obtain ⟨p, hp⟩ := h.plan_of_machine (World.machine?_of_behaviour? hb hm)
  have hplan := Option.some.inj ((World.plan?_of_behaviour? hb).symm.trans hp)
  exact ⟨p, congrArg Prod.fst hplan, congrArg Prod.snd hplan⟩

/-- The handlers of an event are its exported entry point, if the table has a way to it. -/
theorem Reachable.addresses_of_machine (hw : Reachable k o w) (hb : w.behaviour? id = some b)
    (hm : b.machine ≠ none) (event : String) : b.events.addresses event =
      (if EventTable.admits event = true then b.entryPoint? event else none).toList := by
  obtain ⟨p, hp, hevents⟩ := hw.events_of_machine hb hm
  rw [hevents, EventTable.addresses_ofEntryPoints, ← Behaviour.entryPoint?_eq hp]
  split <;> rfl

/-- What the table and the names of a behaviour with a machine lead to. -/
theorem Reachable.routes (hw : Reachable k o w) (hb : w.behaviour? id = some b)
    (hm : b.machine ≠ none) (event : String) : ∃ p, b.program = some p ∧
      (b.entryPoint? event).toList =
        (p.entryPoints.exported.filter fun s => s.name == event).map Symbol.address ∧
      b.events.addresses event =
        if EventTable.admits event = true then (b.entryPoint? event).toList else [] := by
  obtain ⟨p, hp, -⟩ := hw.events_of_machine hb hm
  refine ⟨p, hp, Behaviour.entryPoint?_eq hp, ?_⟩
  rw [hw.addresses_of_machine hb hm]
  split <;> rfl

/-- **The two ways agree.** Wherever a host has got, an event in the vocabulary and one without an
underscore do the same by way of the table as by name, but for a message for debugging if there is
no such entry point. Other events do nothing by way of the table, and by name they run their entry
point if it is exported and the behaviour can run. The table of a behaviour that has been activated
has for each name the exported entry points of that name that it has a way to, one or none. -/
theorem raise_agrees_with_send (hw : Reachable k o w) (self : Reentry) (id : BehaviourId)
    (event : String) :
    (EventTable.admits event = true →
      Run.quiet (World.raise self id event w) = Run.quiet (World.sendEvent self id event w) ∧
      ∀ b address, w.behaviour? id = some b → b.entryPoint? event = some address →
        World.raise self id event w = World.sendEvent self id event w) ∧
    (EventTable.admits event = false →
      World.raise self id event w = .ok () w ∧
      ∀ b, w.behaviour? id = some b → World.sendEvent self id event w =
        if b.state.isRunnable = true then match b.entryPoint? event with
          | some address => (self.runAt id address >>= fun _ => return ()) w
          | none => .ok () (w.log (.eventNotFound id event))
        else .ok () w) ∧
    ∀ b, w.behaviour? id = some b → b.machine ≠ none → ∃ p, b.program = some p ∧
      (b.entryPoint? event).toList =
        (p.entryPoints.exported.filter fun s => s.name == event).map Symbol.address ∧
      b.events.addresses event =
        if EventTable.admits event = true then (b.entryPoint? event).toList else [] := by
  -- behaviours that are absent or cannot run take no event either way
  by_cases hidle : ∀ b, w.behaviour? id = some b → ¬ b.state.isRunnable = true
  · have hraise : World.raise self id event w = .ok () w := World.raise_of_idle hidle
    have hsend : World.sendEvent self id event w = .ok () w := World.sendEvent_of_idle hidle
    refine ⟨fun _ => ?_, fun _ => ⟨hraise, fun b hb => ?_⟩, fun b hb hm => hw.routes hb hm event⟩
    · rw [hraise, hsend]
      exact ⟨rfl, fun _ _ _ _ => rfl⟩
    · rw [if_neg (hidle b hb), hsend]
  simp only [not_forall, not_not] at hidle
  obtain ⟨b, hb, hr⟩ := hidle
  have haddresses := hw.addresses_of_machine hb (hw.machine_of_runnable hb hr) event
  have hraise := World.raise_of_runnable self hb hr haddresses
  have hsend := World.sendEvent_of_runnable self event hb hr
  refine ⟨fun hevent => ?_, fun hevent => ⟨?_, fun b' hb' => ?_⟩,
    fun b' hb' hm' => hw.routes hb' hm' event⟩
  · rw [if_pos hevent] at hraise
    rw [hraise, hsend]
    constructor
    · cases b.entryPoint? event with
      | some address => rfl
      | none => exact congrArg (EStateM.Result.ok ()) (w.quiet_log_eventNotFound id event).symm
    · intro b' address hb' haddress
      cases hb.symm.trans hb'
      rw [haddress]
      rfl
  · rw [hevent] at hraise
    exact hraise
  · cases hb.symm.trans hb'
    rw [hsend, if_pos hr]

/-- A program with three names for its one instruction. -/
def Program.waving : Program :=
  { Program.empty "waving" with
    code := Instruction.encodeWords .jump (some haltAddress)
    entryPoints := .ofList [⟨"_start", 0, .object, true⟩, ⟨"wave", 0, .object, true⟩,
      ⟨"_wave", 0, .object, true⟩] (by simp) }

/-- Sent by name, all three reach it; only the last, which has an underscore and is not in the
vocabulary, is not in the table. -/
theorem raise_agrees_with_send_waving : ∃ w, Reachable .full .default w ∧
    (∀ event ∈ ["_start", "wave"], World.raise (World.reentry 9) ⟨1⟩ event w =
      World.sendEvent (World.reentry 9) ⟨1⟩ event w) ∧
    World.raise (World.reentry 9) ⟨1⟩ "_wave" w = .ok () w ∧
    World.sendEvent (World.reentry 9) ⟨1⟩ "_wave" w =
      ((World.reentry 9).runAt ⟨1⟩ 0 >>= fun _ => return ()) w := by
  let u := (World.new .default).addBehaviour (.of 100 101) (some .waving)
  let activate : Run Outcome := World.operate 1 ⟨1⟩ .activate
  have hactivated : (activate.after? u).any (fun w => (w.behaviour? ⟨1⟩).any fun b =>
      b.state.isRunnable = true ∧
        ∀ event ∈ ["_start", "wave", "_wave"], b.entryPoint? event = some 0) = true := by
    decide +kernel
  obtain ⟨w, hw, hb⟩ := (Option.any_eq_true _ _).1 hactivated
  obtain ⟨b, hb, hboth⟩ := (Option.any_eq_true _ _).1 hb
  obtain ⟨hr, hentry⟩ := of_decide_eq_true hboth
  obtain ⟨_, hw⟩ := Run.of_after? hw
  have hreached : Reachable .full .default w :=
    .between (.act (.act .new (.create (.of 100 101) (some .waving)) rfl)
      (.operate 1 ⟨1⟩ (.inl rfl)) hw)
  have hadmits : ∀ event ∈ ["_start", "wave"], EventTable.admits event = true := by decide
  refine ⟨w, hreached, fun event hevent => ?_, ?_⟩
  · obtain ⟨hsame, -⟩ := raise_agrees_with_send hreached (World.reentry 9) ⟨1⟩ event
    exact (hsame (hadmits event hevent)).2 b 0 hb (hentry event (List.mem_append_left _ hevent))
  · obtain ⟨-, hother, -⟩ := raise_agrees_with_send hreached (World.reentry 9) ⟨1⟩ "_wave"
    obtain ⟨hraise, hsend⟩ := hother (by decide)
    have hsend := hsend b hb
    rw [if_pos hr, hentry "_wave" (by decide)] at hsend
    exact ⟨hraise, hsend⟩

end Agreement

end EventVm
