import EventVm.Proofs.Machine.Loaded
import EventVm.Proofs.World.Isolation

/-!
# Variables that are not there

A program asks another behaviour for a variable that it does not have, or wants to write one.
Writing is ignored and the caller goes on. Reading gives null, and null is written like any other
result: the caller goes on if the slot for the result may hold null, and faults if its declared type
has no null (`unknown_variable`).
-/

namespace EventVm

/-- The program of a behaviour declares no variable with a name. -/
def World.Lacks (w : World) (id : BehaviourId) (name : String) : Prop :=
  ∀ p, w.program? id = some p → p.symbols.addressOf? name = none

/-- In the world `w` the machine `r` is due to call `f` with a behaviour that the world finds and a
name that is none of its variables. The world `u` is the one in which the function is entered. The
value stands at the address `out`; for reading, it is the result. -/
inductive AsksUnknown (code : Bytes) (r : MachineRef) (f : BuiltIn) (signature : String)
    (out : UInt32) (w : World) : World → Prop where
  | call {operand receiver name : UInt32} {stack : OperandStack} {target : BehaviourId}
    {text : String} (runs : (w.machine r).Runs) (due : (w.machine r).pc ≠ haltAddress)
    (fetched : Machine.fetch code (w.machine r).pc = .ok (.call, operand))
    (named : (w.machine r).readAs .string Value.string? operand = .ok signature)
    (found : w.functions.get? signature = some (.builtIn f))
    (popped : (w.machine r).stack.popMany f.arity = .ok ([receiver, name, out], stack))
    (live : Invocation.behaviour? ⟨r, signature, [receiver, name, out]⟩
      (w.calling r code operand stack) 0 = .ok target)
    (asked : Invocation.valueAs? ⟨r, signature, [receiver, name, out]⟩
      (w.calling r code operand stack) .string Invocation.text? 1 = .ok text)
    (unknown : w.Lacks target text) :
    AsksUnknown code r f signature out w (w.calling r code operand stack)

section UnknownVariables

variable {self : Reentry} {code : Bytes} {r : MachineRef} {f : BuiltIn} {signature : String}
  {out : UInt32} {w u : World} {p : Program} {call : Invocation} {target : BehaviourId}
  {text : String} {v : Value} {s : Slot}

/-! ### The world in which a function is entered -/

theorem lacks_calling (h : w.Lacks target text) (operand : UInt32) (stack : OperandStack) :
    (w.calling r code operand stack).Lacks target text := by
  intro p hp
  refine h p ?_
  rwa [World.calling, World.begun, World.begin, World.program?_mapMachine,
    World.program?_mapMachine] at hp

theorem heap_calling (w : World) (r : MachineRef) (code : Bytes) (operand : UInt32)
    (stack : OperandStack) :
    ((w.calling r code operand stack).machine r).heap = (w.machine r).heap := by
  have hcalling := World.apply_machine_mapMachine Machine.heap (fun m => { m with stack })
    (fun _ => rfl) (w.begun r code operand) r r
  exact hcalling.trans (World.apply_machine_begun r code operand Machine.heap fun _ _ => rfl)

theorem runs_calling (h : (w.machine r).Runs) (operand : UInt32) (stack : OperandStack) :
    ((w.calling r code operand stack).machine r).Runs := by
  refine World.runs_mapMachine (World.runs_begin ?_ _) rfl rfl
  rwa [World.machine_note]

/-! ### Null on a heap -/

/-- Null fits the types that have it. -/
theorem fits_null {t : TypeTag} : Value.null.fits t = true ↔ t.isNullable = true := by
  cases t <;> decide

/-- Null can be written where the declared type has it, and nowhere else. -/
theorem write_null_iff {m : Machine} (hs : m.heap.slot? out = some s) :
    (∃ m', m.write out .null = .ok m') ↔ s.declared.isNullable = true := by
  rw [← fits_null]
  constructor
  · rintro ⟨m', hm⟩
    obtain ⟨heap, hset, -⟩ := bind_eq_ok.1 hm
    obtain ⟨s', hs', hfits, -⟩ := Heap.set_ok hset
    rw [hs] at hs'
    cases hs'
    exact hfits
  · intro hfits
    obtain ⟨heap, hset⟩ := Heap.set_of_fits hs hfits
    exact ⟨{ m with heap }, bind_eq_ok.2 ⟨heap, hset, rfl⟩⟩

/-! ### What the functions do -/

theorem addressOf?_of_lacks {b : Behaviour} (h : w.Lacks target text)
    (hb : w.behaviour? target = some b) : b.addressOf? text = none := by
  have hprogram := World.program?_of_behaviour? hb
  unfold Behaviour.addressOf?
  cases hp : b.program with
  | none => rfl
  | some p => exact h p (hprogram.trans hp)

theorem getVariable_of_lacks (h : w.Lacks target text) : w.getVariable target text = none := by
  unfold World.getVariable
  cases hb : w.behaviour? target with
  | none => rfl
  | some b => simp [Behaviour.get?, addressOf?_of_lacks h hb]

theorem setVariable_of_lacks (h : w.Lacks target text) : w.setVariable target text v = w := by
  unfold World.setVariable
  cases hb : w.behaviour? target with
  | none => rfl
  | some b => simp [addressOf?_of_lacks h hb]

/-- What comes of a variable that is not there: to write it, the value is read; when it is read,
null is written as the result. -/
def onUnknown (f : BuiltIn) (r : MachineRef) (out : UInt32) (w : World) : Except HeapError World :=
  if f = .setProgramVariable then ((w.machine r).read out).map fun _ => w
  else ((w.machine r).write out .null).map fun m => w.mapMachine (fun _ => m) r

theorem runs_onUnknown {w' : World} (h : (w.machine r).Runs) (hu : onUnknown f r out w = .ok w') :
    (w'.machine r).Runs := by
  unfold onUnknown at hu
  split at hu
  · obtain ⟨_, -, rfl⟩ := map_eq_ok.1 hu
    exact h
  · obtain ⟨m, hm, rfl⟩ := map_eq_ok.1 hu
    obtain ⟨heap, -, hm⟩ := bind_eq_ok.1 hm
    cases hm
    exact World.runs_mapMachine h rfl rfl

/-- What the functions do when the variable is not there. -/
theorem run_unknown {cut : World → Prop}
    (hf : f = .getProgramVariable ∨ f = .setProgramVariable) (hout : call.address? 2 = .ok out)
    (live : call.behaviour? w 0 = .ok target)
    (asked : call.valueAs? w .string Invocation.text? 1 = .ok text)
    (unknown : w.Lacks target text) :
    (f.run self call).run.Ends w (fun x w' => match onUnknown f call.machine out w with
      | .ok v => x = .ok () ∧ w' = v
      | .error e => x = .error (.heap e) ∧ w' = w) cut := by
  obtain rfl | rfl := hf
  · simp only [BuiltIn.run, Invocation.getBehaviour, Invocation.getString, Invocation.set,
      HostCall.ends_bind, HostCall.ends_ask, live, asked, HostCall.ends_lift, Run.ends_world,
      getVariable_of_lacks unknown, Option.getD_none, Invocation.write?_of_address hout, onUnknown,
      reduceCtorEq, if_false]
    cases (w.machine call.machine).write out .null with
    | ok m => exact ⟨trivial, rfl⟩
    | error e => simp [Except.map, Except.mapError]
  · simp only [BuiltIn.run, Invocation.getBehaviour, Invocation.getString, Invocation.get,
      HostCall.ends_bind, HostCall.ends_ask, live, asked, Invocation.value?_of_address hout,
      onUnknown, if_true]
    cases (w.machine call.machine).read out with
    | ok v =>
      simp only [Except.mapError, HostCall.ends_lift, Run.ends_change]
      exact ⟨trivial, setVariable_of_lacks unknown⟩
    | error e => simp [Except.map, Except.mapError]

/-! ### The caller -/

/-- A loop ends where the instruction fails that was due. -/
theorem runLoop_of_fault {e : VmError} (hruns : (w.machine r).Runs)
    (hdue : (w.machine r).pc ≠ haltAddress)
    (hstep : World.step self r code (w.machine r).pc (w.note (.boundary (w.boundary r code))) =
      .ok (.error e) u) (n : Nat) :
    World.runLoop self r code (n + 1) w =
      .ok (.error e) (u.mapMachine (fun m => { m with faulted := true }) r) := by
  rw [World.runLoop_of_due ⟨hruns, hdue⟩, hstep]

/-- What an instruction is that calls a function which runs nothing else. -/
theorem step_of_called {operand : UInt32} {f : HostFunction} {args : List UInt32}
    {stack : OperandStack} {x : Except HostError Unit}
    (fetched : Machine.fetch code (w.machine r).pc = .ok (.call, operand))
    (named : (w.machine r).readAs .string Value.string? operand = .ok signature)
    (found : w.functions.get? signature = some f)
    (popped : (w.machine r).stack.popMany f.arity = .ok (args, stack))
    (h : (f.run self ⟨r, signature, args⟩).run.Ends (w.calling r code operand stack)
      (fun y w' => y = x ∧ w' = u) fun _ => False) :
    World.step self r code (w.machine r).pc (w.note (.boundary (w.boundary r code))) =
      .ok (x.mapError (.function signature)) u := by
  have hends : (World.step self r code (w.machine r).pc).Ends
      (w.note (.boundary (w.boundary r code)))
      (fun y w' => y = x.mapError (.function signature) ∧ w' = u) fun _ => False :=
    World.step_ends_of_called fetched named found popped
      (h.mono (fun y w' hy => ⟨by rw [hy.1], hy.2⟩) fun _ h => h)
  obtain ⟨y, w', hstep, rfl, rfl⟩ := hends.exists_ok
  exact hstep

/-- The caller goes on: the instruction that was due in `w` ends well in `w'`, where the machine
runs on. -/
structure GoesOn (inner : Reentry) (code : Bytes) (r : MachineRef) (w w' : World) : Prop where
  step : World.step inner r code (w.machine r).pc (w.note (.boundary (w.boundary r code))) =
    .ok (.ok ()) w'
  runs : (w'.machine r).Runs
  next : ∀ n, World.runLoop inner r code (n + 1) w = World.runLoop inner r code n w'

/-- The caller faults: the instruction that was due in `w` fails in `u`, and the run with it. -/
structure Faults (inner : Reentry) (code : Bytes) (r : MachineRef) (w : World) (e : VmError)
    (u : World) : Prop where
  step : World.step inner r code (w.machine r).pc (w.note (.boundary (w.boundary r code))) =
    .ok (.error e) u
  ends : ∀ n, World.runLoop inner r code (n + 1) w =
    .ok (.error e) (u.mapMachine (fun m => { m with faulted := true }) r)

/-- The third argument of a program that has been loaded is a slot that holds a value. -/
theorem AsksUnknown.slot? (h : AsksUnknown code r f signature out w u)
    (hloaded : (w.machine r).Loaded p) :
    ∃ s v, (w.machine r).heap.slot? out = some s ∧ (w.machine r).read out = .ok v := by
  cases h with
  | call runs due fetched named found popped =>
    obtain ⟨hargs, -⟩ := OperandStack.popMany_ok popped
    have hmem : out ∈ (w.machine r).stack.entries := by
      refine List.mem_of_mem_take (i := f.arity) (List.mem_reverse.1 ?_)
      rw [← hargs]
      simp
    have hcontains := hloaded.stack out hmem
    obtain ⟨v, hv⟩ := hloaded.read_of_contains hcontains
    rw [← hloaded.contains] at hcontains
    obtain ⟨s, hs⟩ := Heap.slot?_of_contains hcontains
    exact ⟨s, v, hs, hv⟩

theorem AsksUnknown.heap_eq (h : AsksUnknown code r f signature out w u) :
    (u.machine r).heap = (w.machine r).heap := by
  cases h with
  | call => exact heap_calling ..

/-- Whatever the functions do, the instruction ends with it. -/
theorem AsksUnknown.ends (h : AsksUnknown code r f signature out w u)
    (hf : f = .getProgramVariable ∨ f = .setProgramVariable) :
    match onUnknown f r out u with
    | .ok w' => GoesOn self code r w w'
    | .error e => Faults self code r w (.function signature (.heap e)) u := by
  cases h with
  | @call operand receiver name stack target text runs due fetched named found popped live asked
      unknown =>
    have hruns : ((w.calling r code operand stack).machine r).Runs :=
      runs_calling runs operand stack
    have hrun : (f.run self ⟨r, signature, [receiver, name, out]⟩).run.Ends
        (w.calling r code operand stack)
        (fun x w' => match onUnknown f r out (w.calling r code operand stack) with
          | .ok v => x = .ok () ∧ w' = v
          | .error e => x = .error (.heap e) ∧ w' = w.calling r code operand stack)
        fun _ => False :=
      run_unknown hf rfl live asked (lacks_calling unknown operand stack)
    cases hu : onUnknown f r out (w.calling r code operand stack) with
    | ok w' =>
      simp only [hu] at hrun
      have hstep := step_of_called fetched named found popped hrun
      exact ⟨hstep, runs_onUnknown hruns hu, runLoop_of_step runs due hstep⟩
    | error e =>
      simp only [hu] at hrun
      have hstep := step_of_called fetched named found popped hrun
      exact ⟨hstep, runLoop_of_fault runs due hstep⟩

theorem AsksUnknown.goesOn_iff (h : AsksUnknown code r f signature out w u)
    (hf : f = .getProgramVariable ∨ f = .setProgramVariable) :
    (∃ w', GoesOn self code r w w') ↔ ∃ w', onUnknown f r out u = .ok w' := by
  have hends : match onUnknown f r out u with
      | .ok w' => GoesOn self code r w w'
      | .error e => Faults self code r w (.function signature (.heap e)) u := h.ends hf
  cases hu : onUnknown f r out u with
  | ok w' =>
    rw [hu] at hends
    exact ⟨fun _ => ⟨w', rfl⟩, fun _ => ⟨w', hends⟩⟩
  | error e =>
    replace hends : Faults self code r w (.function signature (.heap e)) u := by rwa [hu] at hends
    constructor
    · rintro ⟨w', hw'⟩
      cases hends.step.symm.trans hw'.step
    · rintro ⟨w', ⟨⟩⟩

/-- A program asks for a variable that is not there, or wants to write one: the caller goes on if
the heap allows what comes of that. The heap of a program that has been loaded does, but for one
case: the variable is to be read into a slot whose type has no null. -/
theorem unknown_variable (hf : f = .getProgramVariable ∨ f = .setProgramVariable)
    (h : AsksUnknown code r f signature out w u) :
    (match onUnknown f r out u with
      | .ok w' => GoesOn self code r w w'
      | .error e => Faults self code r w (.function signature (.heap e)) u) ∧
    ∀ p, (w.machine r).Loaded p → ∃ s, (w.machine r).heap.slot? out = some s ∧
      ((∃ w', GoesOn self code r w w') ↔
        (f = .getProgramVariable → s.declared.isNullable = true)) := by
  refine ⟨h.ends hf, fun p hloaded => ?_⟩
  obtain ⟨s, v, hs, hv⟩ := h.slot? hloaded
  refine ⟨s, hs, ?_⟩
  rw [h.goesOn_iff hf]
  have hheap := h.heap_eq
  obtain rfl | rfl := hf
  · rw [← hheap] at hs
    simpa [onUnknown, map_eq_ok] using write_null_iff hs
  · have hread : (u.machine r).read out = .ok v := by
      rw [Machine.read, hheap]
      exact hv
    simp [onUnknown, map_eq_ok, hread]

end UnknownVariables

/-! ### A program that asks itself -/

/-- A program that asks itself for a variable that it does not have. The slot for the result has the
given type. -/
def askingProgram (t : TypeTag) : Program :=
  { Program.empty "asking" with
    heap := ⟨[⟨.behaviour, .value (.object (BehaviourId.toRef ⟨1⟩))⟩,
      ⟨.string, .value (.string "missing")⟩, ⟨t, .value t.default⟩,
      ⟨.string, .value (.string BuiltIn.getProgramVariable.signature)⟩]⟩
    code := Instruction.encodeWords .push (some 0) ++ Instruction.encodeWords .push (some 1) ++
      Instruction.encodeWords .push (some 2) ++ Instruction.encodeWords .call (some 3) ++
      Instruction.encodeWords .jump (some haltAddress) }

/-- The moment when the question is due. -/
def asking (t : TypeTag) : World :=
  .solo { World.soloMachine (askingProgram t) [2, 1, 0] with pc := 24 }

/-- The stack without the arguments. -/
def askingStack : OperandStack :=
  .ofList [] Options.default.maxStackDepth

/-- The world in which the function is entered. -/
def askingEntered (t : TypeTag) : World :=
  (asking t).calling (.behaviour ⟨1⟩) (askingProgram t).code 3 askingStack

theorem loaded_asking (t : TypeTag) :
    ((asking t).machine (.behaviour ⟨1⟩)).Loaded (askingProgram t) := by
  refine ⟨rfl, rfl, by cases t <;> rfl, fun a ha => ?_⟩
  have hstack : ((asking t).machine (.behaviour ⟨1⟩)).stack.entries = [2, 1, 0] := rfl
  rw [hstack] at ha
  simp only [List.mem_cons, List.not_mem_nil, or_false] at ha
  obtain rfl | rfl | rfl := ha <;> rfl

theorem asksUnknown_asking (t : TypeTag) :
    AsksUnknown (askingProgram t).code (.behaviour ⟨1⟩) .getProgramVariable
      BuiltIn.getProgramVariable.signature 2 (asking t) (askingEntered t) := by
  have hfound : (Registry.builtIns.get? BuiltIn.getProgramVariable.signature).bind
      HostFunction.builtIn? = some .getProgramVariable := by
    decide +kernel
  obtain ⟨f, hf, hbuiltIn⟩ := Option.bind_eq_some_iff.1 hfound
  cases f with
  | builtIn f =>
    cases hbuiltIn
    have hlive : Invocation.behaviour?
        ⟨.behaviour ⟨1⟩, BuiltIn.getProgramVariable.signature, [0, 1, 2]⟩ (askingEntered t) 0 =
          .ok ⟨1⟩ := rfl
    have hasked : Invocation.valueAs?
        ⟨.behaviour ⟨1⟩, BuiltIn.getProgramVariable.signature, [0, 1, 2]⟩ (askingEntered t)
          .string Invocation.text? 1 = .ok "missing" := rfl
    refine .call ⟨rfl, rfl⟩ ?_ ?_ ?_ hf rfl hlive hasked fun p hp => ?_
    · exact show (24 : UInt32) ≠ haltAddress by decide
    · exact show Machine.fetch (askingProgram .object).code 24 = .ok (.call, 3) by decide +kernel
    · rfl
    · cases hp
      rfl
  | script => cases hbuiltIn

/-- Where null can stand, the program goes on. -/
theorem unknown_variable_null : ∃ w', GoesOn .exhausted (askingProgram .object).code
    (.behaviour ⟨1⟩) (asking .object) w' := by
  have hasks := asksUnknown_asking .object
  obtain ⟨-, hloaded⟩ := @unknown_variable .exhausted _ _ _ _ _ _ _ (.inl rfl) hasks
  obtain ⟨s, hs, hgoes⟩ := hloaded _ (loaded_asking .object)
  cases hs
  exact hgoes.2 fun _ => rfl

/-- Where null cannot stand, the instruction fails, and with it the whole run. -/
theorem unknown_variable_integer :
    AsksUnknown (askingProgram .int32).code (.behaviour ⟨1⟩) .getProgramVariable
      BuiltIn.getProgramVariable.signature 2 (asking .int32) (askingEntered .int32) ∧
    ((asking .int32).machine (.behaviour ⟨1⟩)).Loaded (askingProgram .int32) ∧
    Faults .exhausted (askingProgram .int32).code (.behaviour ⟨1⟩) (asking .int32)
      (.function BuiltIn.getProgramVariable.signature (.heap (.typeMismatch 2 .int32 "null")))
      (askingEntered .int32) ∧
    (World.runAt 7 ⟨1⟩ 0).Ends (.solo (World.soloMachine (askingProgram .int32) []))
      (fun halted w => halted = false ∧ w.state? ⟨1⟩ = some .faulted) fun _ => False :=
  ⟨asksUnknown_asking .int32, loaded_asking .int32,
    (asksUnknown_asking .int32).ends (.inl rfl), by decide +kernel⟩

end EventVm
