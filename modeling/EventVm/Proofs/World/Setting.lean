import EventVm.Proofs.World.Lifecycle

/-!
# What hosts have set up

Options, host functions, the numbers of behaviours and hooks are set up by hosts. Runs, activations
and deeds other than those that set something up leave them alone (`World.Continues`).
-/

namespace EventVm

namespace World

/-- Messages only make the journal longer. -/
theorem foldl_log (events : List LogEvent) (w : World) : events.foldl log w =
    { w with journal := (events.map Entry.log).reverse ++ w.journal } := by
  induction events generalizing w with
  | nil => rfl
  | cons e events ih =>
    rw [List.foldl_cons, ih]
    simp [log, World.note]

/-- What a host has set up is as it was: options, functions, numbers and hooks. -/
structure Continues (w w' : World) : Prop where
  options : w'.options = w.options
  functions : w'.functions = w.functions
  nextId : w'.nextId = w.nextId
  hooks : ∀ id b', w'.behaviour? id = some b' → ∃ b, w.behaviour? id = some b ∧ b'.hook = b.hook

namespace Continues

variable {u v w : World}

theorem of_eq (options : w.options = v.options) (functions : w.functions = v.functions)
    (nextId : w.nextId = v.nextId) (behaviours : w.behaviours = v.behaviours) : v.Continues w := by
  refine ⟨options, functions, nextId, fun id b hb => ⟨b, ?_, rfl⟩⟩
  unfold behaviour? at hb ⊢
  rwa [← behaviours]

theorem refl (w : World) : w.Continues w :=
  .of_eq rfl rfl rfl rfl

theorem trans (h : u.Continues v) (h' : v.Continues w) : u.Continues w where
  options := h'.options.trans h.options
  functions := h'.functions.trans h.functions
  nextId := h'.nextId.trans h.nextId
  hooks := by
    intro id b' hb'
    obtain ⟨b, hb, hh⟩ := h'.hooks id b' hb'
    obtain ⟨b₀, hb₀, hh₀⟩ := h.hooks id b hb
    exact ⟨b₀, hb₀, hh.trans hh₀⟩

theorem note (w : World) (e : Entry) : w.Continues (w.note e) :=
  .of_eq rfl rfl rfl rfl

theorem mapBehaviour (w : World) (id : BehaviourId) {f : Behaviour → Behaviour}
    (hid : ∀ b, (f b).id = b.id) (hh : ∀ b, (f b).hook = b.hook) :
    w.Continues (w.mapBehaviour id f) := by
  refine ⟨rfl, rfl, rfl, fun id' b' hb' => ?_⟩
  rw [behaviour?_mapBehaviour f hid] at hb'
  split at hb'
  · obtain ⟨b, hb, rfl⟩ := Option.map_eq_some_iff.1 hb'
    exact ⟨b, hb, hh b⟩
  · exact ⟨b', hb', rfl⟩

theorem setState (w : World) (id : BehaviourId) (s : BehaviourState) :
    w.Continues (w.setState id s) :=
  .mapBehaviour w id (fun _ => rfl) fun _ => rfl

theorem mapMachine (w : World) (f : Machine → Machine) (r : MachineRef) :
    w.Continues (w.mapMachine f r) := by
  cases r with
  | bench => exact .of_eq rfl rfl rfl rfl
  | behaviour id => exact .mapBehaviour w id (fun _ => rfl) fun _ => rfl

theorem loadMachine {r : MachineRef} {p : Program} {heap : Heap}
    (h : w.loadMachine r p heap = .ok v) : w.Continues v := by
  obtain ⟨m, -, hm⟩ := bind_eq_ok.1 h
  cases hm
  exact mapMachine ..

theorem supply (w : World) (id : BehaviourId) (events : List LogEvent) (t : PublicVariables) :
    w.Continues ((events.foldl log w).mapBehaviour id fun b => { b with supplied := t }) :=
  (show w.Continues (events.foldl log w) by rw [foldl_log]; exact .of_eq rfl rfl rfl rfl).trans
    (.mapBehaviour _ id (fun _ => rfl) fun _ => rfl)

theorem loadBehaviour (w : World) (b : Behaviour) : w.Continues (w.loadBehaviour b).2 := by
  unfold World.loadBehaviour
  cases b.program with
  | none => exact .refl w
  | some p =>
    dsimp only
    have hsupplied := supply w b.id (supplyAll b p).2.2.reverse (supplyAll b p).2.1
    cases buildMachine _ b p (supplyAll b p).1 with
    | error e => exact hsupplied
    | ok m => exact hsupplied.trans (.mapBehaviour _ b.id (fun _ => rfl) fun _ => rfl)

theorem beginActivation (w : World) (b : Behaviour) : w.Continues (w.beginActivation b).2 := by
  have hloaded := (setState w b.id .loading).trans (.loadBehaviour _ b)
  unfold World.beginActivation
  cases hl : (w.setState b.id .loading).loadBehaviour b with
  | mk x v =>
    rw [hl] at hloaded
    cases x with
    | error e => exact hloaded.trans ((setState v b.id .disabled).trans (.note ..))
    | ok u => exact hloaded.trans (.setState v b.id .ready)

theorem fault (w : World) (id : BehaviourId) : w.Continues (w.fault id) :=
  (mapMachine w _ (.behaviour id)).trans (.setState ..)

theorem conclude (w : World) (id : BehaviourId) (address : UInt32) (x : Except VmError Finish) :
    w.Continues (w.conclude id address x).2 := by
  unfold World.conclude
  split
  · exact .refl w
  · exact (note ..).trans (.fault ..)
  · exact .fault ..
  · exact (note ..).trans (.fault ..)

theorem enter (w : World) (id : BehaviourId) (address : UInt32) :
    w.Continues (w.enter id address) := by
  have h : w.Continues { w with nesting := w.nesting + 1, current := some id } :=
    .of_eq rfl rfl rfl rfl
  exact h.trans ((note ..).trans ((mapMachine _ _ (.behaviour id)).trans (.setState ..)))

theorem leave (w : World) (id : BehaviourId) (frame : Frame) : w.Continues (w.leave id frame) := by
  have h : (w.mapMachine frame.close (.behaviour id)).Continues
      { w.mapMachine frame.close (.behaviour id) with
        current := frame.current, nesting := w.nesting - 1 } :=
    .of_eq rfl rfl rfl rfl
  exact (mapMachine w frame.close (.behaviour id)).trans
    (h.trans (.mapBehaviour _ id (Frame.leave_id frame) fun b => by
      show (frame.leave b).hook = b.hook
      unfold Frame.leave
      split <;> rfl))

/-- A run that ends, whatever its last look has done to its machine. -/
theorem leaving (w : World) (f : Machine → Machine) (id : BehaviourId) (frame : Frame)
    (address : UInt32) (x : Except VmError Finish) :
    w.Continues (((w.mapMachine f (.behaviour id)).leave id frame).conclude id address x).2 :=
  (mapMachine ..).trans ((leave ..).trans (.conclude ..))

end Continues

end World

/-! ### What the access allows -/

section Permissions

variable {k : Access} {w w' : World}

theorem World.Permits.of_continues (h : w.Permits k) (hc : w.Continues w') : w'.Permits k where
  functions := by
    rw [hc.functions]
    exact h.functions
  hooks := by
    intro id b' hook hb' hh
    obtain ⟨b, hb, he⟩ := hc.hooks id b' hb'
    exact h.hooks id b hook hb (he ▸ hh)

/-- Registering a function that the access allows. -/
theorem World.Permits.register {signature : String} {f : HostFunction} (h : w.Permits k)
    (hf : f.Permitted k) :
    World.Permits k { w with functions := w.functions.register signature f } := by
  refine ⟨fun signature' f' hf' => ?_, h.hooks⟩
  rw [Registry.get?_register] at hf'
  split at hf'
  · cases hf'
    exact hf
  · exact h.functions signature' f' hf'

end Permissions

end EventVm
