import EventVm.Proofs.World.Lookup

/-!
# How computations on a world end

`c.Ends w done cut` says how the computation `c` ends that begins in the world `w`: either with an
answer and a world for which `done` holds, or out of fuel in a world for which `cut` holds. The
rules here follow the ways in which computations are put together, the rules for runs the definition
of a run: one rule for an instruction, a loop, a machine and an entry point each.

The last section has a run inside a run: a handler that sends its own behaviour an event
(`World.ends_reentrant`).
-/

namespace EventVm

namespace Run

variable {α β : Type} {w : World} {done : α → World → Prop} {cut : World → Prop}

/-- How a computation that begins in `w` ends. -/
def Ends (c : Run α) (w : World) (done : α → World → Prop) (cut : World → Prop) : Prop :=
  match c w with
  | .ok a w' => done a w'
  | .error _ w' => cut w'

theorem Ends.mono {c : Run α} {done' : α → World → Prop} {cut' : World → Prop}
    (h : c.Ends w done cut) (hd : ∀ a w', done a w' → done' a w') (hc : ∀ w', cut w' → cut' w') :
    c.Ends w done' cut' := by
  unfold Ends at h ⊢
  split at h
  · exact hd _ _ h
  · exact hc _ h

theorem Ends.of_ok {c : Run α} {a : α} {w' : World} (h : c.Ends w done cut) (hc : c w = .ok a w') :
    done a w' := by
  rwa [Ends, hc] at h

/-- A computation that cannot run out of fuel has an answer. -/
theorem Ends.exists_ok {c : Run α} (h : c.Ends w done fun _ => False) :
    ∃ a w', c w = .ok a w' ∧ done a w' := by
  unfold Ends at h
  split at h
  · next a w' hc => exact ⟨a, w', hc, h⟩
  · exact h.elim

instance (c : Run α) [∀ a w', Decidable (done a w')] [∀ w', Decidable (cut w')] :
    Decidable (c.Ends w done cut) :=
  match h : c w with
  | .ok a w' => decidable_of_iff (done a w') (by rw [Ends, h])
  | .error _ w' => decidable_of_iff (cut w') (by rw [Ends, h])

/-- The computation gets from one world to another: there it has ended or is out of fuel. -/
def Reaches (c : Run α) (w w' : World) : Prop :=
  (∃ a, c w = .ok a w') ∨ ∃ x, c w = .error x w'

theorem Ends.of_reaches {c : Run α} {w' : World} (h : c.Ends w (fun _ => cut) cut)
    (hc : c.Reaches w w') : cut w' := by
  obtain ⟨a, hc⟩ | ⟨x, hc⟩ := hc
  · exact h.of_ok hc
  · rwa [Ends, hc] at h

/-- Wherever a computation ends, it has got there. -/
theorem Ends.reached {c : Run α} (h : c.Ends w done cut) :
    c.Ends w (fun a w' => done a w' ∧ c.Reaches w w') fun w' => cut w' ∧ c.Reaches w w' := by
  unfold Ends at h ⊢
  split at h
  · next a w' hc => exact ⟨h, .inl ⟨a, hc⟩⟩
  · next x w' hc => exact ⟨h, .inr ⟨x, hc⟩⟩

/-- The world in which the computation ends, if it does. -/
def after? (c : Run α) (w : World) : Option World :=
  match c w with
  | .ok _ w' => some w'
  | .error .. => none

theorem of_after? {c : Run α} {w' : World} (h : c.after? w = some w') : ∃ a, c w = .ok a w' := by
  unfold after? at h
  split at h
  · next a v hc =>
    cases h
    exact ⟨a, hc⟩
  · cases h

/-- A run that ends with an answer ends in the world after it. -/
theorem Ends.eq_after {c : Run α} {a : α}
    (h : c.Ends w (fun b _ => b = a) fun _ => False) : c w = .ok a ((c.after? w).getD w) := by
  obtain ⟨b, w', hc, rfl⟩ := h.exists_ok
  rw [Run.after?, hc]
  rfl

/-- A sequence goes on in the world in which its first part ends. -/
theorem bind_apply (c : Run β) (f : β → Run α) (w : World) : (c >>= f) w =
    match c w with
    | .ok b w' => f b w'
    | .error x w' => .error x w' := by
  cases h : c w <;> simp [bind, EStateM.bind, h]

theorem world_apply (w : World) : world w = .ok w w :=
  rfl

@[simp]
theorem ends_pure {a : α} : (pure a : Run α).Ends w done cut ↔ done a w :=
  Iff.rfl

@[simp]
theorem ends_exhausted : (exhausted : Run α).Ends w done cut ↔ cut w :=
  Iff.rfl

@[simp]
theorem ends_bind {c : Run β} {f : β → Run α} :
    (c >>= f).Ends w done cut ↔ c.Ends w (fun b w' => (f b).Ends w' done cut) cut := by
  simp only [Ends, bind, EStateM.bind]
  cases c w <;> rfl

@[simp]
theorem ends_world {done : World → World → Prop} : world.Ends w done cut ↔ done w w :=
  Iff.rfl

@[simp]
theorem ends_put {done : Unit → World → Prop} {v : World} : (put v).Ends w done cut ↔ done () v :=
  Iff.rfl

@[simp]
theorem ends_change {done : Unit → World → Prop} {f : World → World} :
    (change f).Ends w done cut ↔ done () (f w) :=
  Iff.rfl

@[simp]
theorem ends_log {done : Unit → World → Prop} {e : LogEvent} :
    (log e).Ends w done cut ↔ done () (w.log e) :=
  Iff.rfl

@[simp]
theorem ends_behaviour? {done : Option Behaviour → World → Prop} {id : BehaviourId} :
    (behaviour? id).Ends w done cut ↔ done (w.behaviour? id) w :=
  Iff.rfl

end Run

/-! ### Host calls -/

namespace HostCall

variable {α β : Type} {w : World} {done : Except HostError α → World → Prop} {cut : World → Prop}

@[simp]
theorem ends_pure {a : α} : (pure a : HostCall α).run.Ends w done cut ↔ done (.ok a) w :=
  Iff.rfl

@[simp]
theorem ends_throw {e : HostError} :
    (throw e : HostCall α).run.Ends w done cut ↔ done (.error e) w :=
  Iff.rfl

@[simp]
theorem ends_lift {c : Run α} :
    (liftM c : HostCall α).run.Ends w done cut ↔ c.Ends w (fun a => done (.ok a)) cut := by
  show Run.Ends (do let a ← c; pure (Except.ok a)) w done cut ↔ _
  simp only [Run.ends_bind, Run.ends_pure]

/-- A call goes on with the answer of its first part, and ends with its failure. -/
@[simp]
theorem ends_bind {c : HostCall β} {f : β → HostCall α} :
    (c >>= f).run.Ends w done cut ↔
      c.run.Ends w (fun x w' => match x with
        | .ok b => (f b).run.Ends w' done cut
        | .error e => done (.error e) w') cut := by
  rw [ExceptT.run_bind, Run.ends_bind]
  constructor
  all_goals
    intro h
    refine h.mono (fun x w' hx => ?_) fun _ h => h
    cases x <;> exact hx

@[simp]
theorem ends_ask {question : World → Except HostError α} :
    (Invocation.ask question).run.Ends w done cut ↔ done (question w) w := by
  unfold Invocation.ask
  simp only [ends_bind, ends_lift, Run.ends_world]
  cases question w <;> simp only [ends_pure, ends_throw]

end HostCall

/-! ### A program that sends its own behaviour an event -/

/-- The run that an entry begins: its behaviour, where it begins, and how many are in progress. -/
def Entry.entered? : Entry → Option (BehaviourId × UInt32 × Nat)
  | entered id address nesting => some (id, address, nesting)
  | _ => none

/-- The handler `outer` leaves an address on the stack, sends its own behaviour the event `inner`
and sets the variable `count` by a function. The handler `inner` copies a number to the slot from
which `count` is set, and leaves another address on the stack. -/
def reentrantCode : List Instruction :=
  [⟨0, .push, some 5⟩, ⟨8, .push, some 0⟩, ⟨16, .push, some 1⟩, ⟨24, .call, some 2⟩,
    ⟨32, .push, some 0⟩, ⟨40, .push, some 3⟩, ⟨48, .push, some 6⟩, ⟨56, .call, some 4⟩,
    ⟨64, .jump, some haltAddress⟩,
    ⟨72, .push, some 5⟩, ⟨80, .push, some 6⟩, ⟨88, .copy, none⟩, ⟨92, .push, some 0⟩,
    ⟨100, .jump, some haltAddress⟩]

/-- The program of behaviour 1 with this code. -/
def Program.reentrant : Program :=
  { Program.empty "reentrant" with
    code := reentrantCode.flatMap Instruction.encode
    heap := ⟨[⟨.behaviour, .value (.object (BehaviourId.toRef ⟨1⟩))⟩,
      ⟨.string, .value (.string "inner")⟩,
      ⟨.string, .value (.string BuiltIn.sendCustomEvent.signature)⟩,
      ⟨.string, .value (.string "count")⟩,
      ⟨.string, .value (.string BuiltIn.setProgramVariable.signature)⟩,
      ⟨.int32, .value (.int32 5)⟩, ⟨.int32, .value (.int32 0)⟩, ⟨.int32, .value (.int32 0)⟩]⟩
    symbols := .ofList [⟨"count", 7, .int32, true⟩] (by simp)
    entryPoints := .ofList [⟨"outer", 0, .object, true⟩, ⟨"inner", 72, .object, true⟩] (by simp) }

namespace World

/-- Behaviour 1 before it runs that program, with an address on its stack. -/
def reentrantWorld : World :=
  solo (soloMachine .reentrant [0])

/-- Its run halts, and so does the one inside it. -/
theorem ends_reentrant : (runAt 17 ⟨1⟩ 0).Ends reentrantWorld
    (fun halted w => halted = true ∧
      w.journal.filterMap Entry.entered? = [(⟨1⟩, 72, 2), (⟨1⟩, 0, 1)]) fun _ => False := by
  decide +kernel

end World

end EventVm
