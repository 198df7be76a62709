import EventVm.Proofs.Assembly.Compilation
import EventVm.Proofs.Program.Requests

/-!
# Signatures and their names

A signature is declared under a name that counts the signatures in front of it, and other variables
may have such names too. As long as the next name is free, a new signature gets a slot of its own
and keeps it (`InStep.slot?_of_known`). Once the next name is taken no new signature is granted any
more, whatever else is asked for (`Changes.stuck`).

So a text in quotes may stand where a signature does unless a variable has the name that the text
would get (`signatures_interned`).
-/

namespace EventVm

namespace Builder

/-- The name of the next signature is taken. -/
def Stuck (b : Builder) : Prop :=
  signatureName b.signatures.length ∈ b.program.symbols.names

variable {b b' : Builder} {text text' : String} {address : UInt32}

/-- A builder that is stuck stays stuck, and gets to know no signature. -/
theorem Change.stuck (h : b.Change b') (hb : b.Stuck) :
    b'.signatures = b.signatures ∧ b'.Stuck := by
  have hsame (hs : b'.signatures = b.signatures) : b'.Stuck := by
    unfold Stuck
    rw [hs]
    exact h.grows.mem_names hb
  cases h with
  | declared declared => exact ⟨declared.signatures_eq, hsame declared.signatures_eq⟩
  | interned new declared =>
    obtain ⟨-, symbols, hinsert, -⟩ := declared
    exact absurd hb (SymbolTable.insert_eq_ok.1 hinsert).1
  | numbered | exported | synced | entered | written => exact ⟨rfl, hsame rfl⟩

theorem Changes.stuck (h : b.Changes b') (hb : b.Stuck) :
    b'.signatures = b.signatures ∧ b'.Stuck := by
  induction h with
  | refl => exact ⟨rfl, hb⟩
  | tail _ change ih =>
    obtain ⟨hsignatures, hstuck⟩ := change.stuck ih.2
    exact ⟨hsignatures.trans ih.1, hstuck⟩

/-- What a known address stands for. -/
theorem InStep.slot?_of_known (h : b.InStep) (hsize : b.program.heap.size ≤ 2 ^ 32)
    (hknown : b.signatures.lookup text = some address) :
    b.program.heap.slot? address = some (Build.signatureSlot text) := by
  obtain ⟨before, after, hsignatures, -⟩ := List.lookup_eq_some_iff.1 hknown
  have hmem : (text, address) ∈ b.signatures := by simp [hsignatures]
  obtain ⟨n, hholds⟩ := h.interned _ hmem
  exact (hholds.bound hsize).2

/-- Two signatures have two addresses. -/
theorem InStep.text_unique (h : b.InStep) (hsize : b.program.heap.size ≤ 2 ^ 32)
    (hknown : b.signatures.lookup text = some address)
    (hknown' : b.signatures.lookup text' = some address) : text' = text := by
  have hslots := (h.slot?_of_known hsize hknown').symm.trans (h.slot?_of_known hsize hknown)
  simpa [Build.signatureSlot] using hslots

/-- What was answered once is answered again, and nothing is declared for it. -/
theorem signature_again {b'' : Builder} (h : (Build.signature text).run b = .ok address b')
    (hlater : b'.Changes b'') : (Build.signature text).run b'' = .ok address b'' :=
  Build.signature_of_known (hlater.grows.lookup_eq_some (Build.lookup_of_signature h))

end Builder

namespace Assembly

open Builder

variable {name source : String} {ss : List Placed} {is : List Instruction} {p : Program}

/-- In a program, no variable has the name of a text in quotes. -/
theorem Compiles.notMem_names (h : Compiles name ss is p) {n : Nat}
    (hn : n < (textsOf (instructionsOf ss)).length) :
    signatureName n ∉ (declarationsOf ss).map Declaration.name := by
  intro hdeclared
  have hnodup := p.symbols.names_nodup
  rw [h.symbols, List.map_append, names_symbolsOf] at hnodup
  refine (List.nodup_append.1 hnodup).2.2 _ hdeclared _ ?_ rfl
  refine List.mem_map.2 ⟨_, List.mem_mapIdx.2 ⟨n, hn, rfl⟩, rfl⟩

/-- A coherent source is assembled exactly if no variable has the name of a text in quotes. -/
theorem exists_assemble_iff (hss : statements source = .ok ss) (hc : Coherent ss) :
    (∃ p, assemble name source = .ok p) ↔ ∀ n < (textsOf (instructionsOf ss)).length,
      signatureName n ∉ (declarationsOf ss).map Declaration.name := by
  constructor
  · rintro ⟨p, hp⟩ n hn
    obtain ⟨ss', is, hss', hcompiles⟩ := exists_compiles hp
    cases hss.symm.trans hss'
    exact hcompiles.notMem_names hn
  · intro hfree
    obtain hok | ⟨e, -, line, n, hn, htaken, -⟩ := assemble_outcome name hss hc
    · exact hok
    · exact absurd htaken (hfree n hn)

/-- **Signatures are interned as long as their names are free.** A new signature is refused exactly
if the builder is stuck. One that was answered stands in a string slot of its own, and is answered
again without a change. A stuck builder refuses new signatures for good. And a source with texts in
quotes is assembled exactly if no variable has the name of one of them. -/
theorem signatures_interned (name : String) (rs : List Request) :
    let b := (new name).afterAll rs
    (∀ text, (∃ address b', (Build.signature text).run b = .ok address b') ↔
      (b.signatures.lookup text = none → ¬ b.Stuck)) ∧
    (∀ text address b', (Build.signature text).run b = .ok address b' →
      ∀ later, let b₁ := b'.afterAll later
      (Build.signature text).run b₁ = .ok address b₁ ∧
      (b₁.program.heap.size ≤ 2 ^ 32 →
        b₁.program.heap.slot? address = some (Build.signatureSlot text)) ∧
      ∀ text' b₂, (Build.signature text').run b₁ = .ok address b₂ →
        b₂.program.heap.size ≤ 2 ^ 32 → text' = text) ∧
    (b.Stuck → ∀ text, b.signatures.lookup text = none →
      ∀ later, let b₁ := b.afterAll later
      (Build.signature text).run b₁ =
        .error (.symbol (.duplicate (signatureName b.signatures.length))) b₁) ∧
    ∀ program source ss, statements source = .ok ss → Coherent ss →
      ((∃ p, assemble program source = .ok p) ↔ ∀ n < (textsOf (instructionsOf ss)).length,
        signatureName n ∉ (declarationsOf ss).map Declaration.name) ∧
      ∀ e, assemble program source = .error e → NameTaken ss e := by
  intro b
  have hb : b.InStep := inStep_afterAll name rs
  refine ⟨fun text => Build.exists_signature, ?_, ?_, ?_⟩
  · intro text address b' h later b₁
    have hlater : b'.Changes b₁ := changes_afterAll b' later
    have hb₁ : b₁.InStep := hlater.inStep ((changes_of_signature h).inStep hb)
    have hagain : (Build.signature text).run b₁ = .ok address b₁ := signature_again h hlater
    have hknown := Build.lookup_of_signature hagain
    refine ⟨hagain, fun hsize => hb₁.slot?_of_known hsize hknown, ?_⟩
    intro text' b₂ h' hsize
    have hmore : b₁.Changes b₂ := changes_of_signature h'
    exact (hmore.inStep hb₁).text_unique hsize (hmore.grows.lookup_eq_some hknown)
      (Build.lookup_of_signature h')
  · intro hstuck text hnew later b₁
    obtain ⟨hsignatures, hstuck'⟩ := (changes_afterAll b later).stuck hstuck
    rw [← hsignatures] at hnew ⊢
    exact Build.signature_of_taken hnew hstuck'
  · intro program source ss hss hc
    refine ⟨exists_assemble_iff hss hc, fun e he => ?_⟩
    obtain ⟨p, hp⟩ | ⟨e', he', htaken⟩ := assemble_outcome program hss hc
    · cases hp.symm.trans he
    · cases he'.symm.trans he
      exact htaken

/-- A source that calls a host function by a variable of its own, whose name is that of the first
signature, and another one by its signature. -/
def borrowingSource : String :=
  ".data_start\n__extern_0: %SystemString, \"f\"\n.data_end\n.code_start\n" ++
    "EXTERN, __extern_0\nEXTERN, \"g\"\nJUMP, 0xFFFFFFFC\n.code_end"

def borrowingStatements : List Placed :=
  [⟨.outside, .enter .data⟩, ⟨.data, .declare "__extern_0" .string (.value (.string "f"))⟩,
    ⟨.data, .enter .outside⟩, ⟨.outside, .enter .code⟩,
    ⟨.code, .instruction .call (some (.name "__extern_0"))⟩,
    ⟨.code, .instruction .call (some (.string "g"))⟩,
    ⟨.code, .instruction .jump (some (.number 0xFFFFFFFC))⟩, ⟨.code, .enter .outside⟩]

theorem coherent_borrowingStatements : Coherent borrowingStatements := by
  constructor
  case toOrderly => constructor <;> decide
  case operands =>
    simp [borrowingStatements, instructionsOf, Resolvable, Opcode.takesCodeOffset, declarationsOf]

/-- With the variable `__extern_1`, one signature is granted; with `__extern_0`, none is. -/
theorem signatures_interned_borrowing :
    let b := (new "p").afterAll [.declare "__extern_0" .string (.string "f")]
    (∃ b', (Build.signature "f").run
        ((new "p").afterAll [.declare "__extern_1" .string (.string "f")]) = .ok 1 b' ∧
      b'.program.heap.size ≤ 2 ^ 32 ∧
      b'.program.heap.slot? 1 = some (Build.signatureSlot "f")) ∧
    (b.Stuck ∧ b.signatures.lookup "g" = none ∧
      (Build.signature "g").run b = .error (.symbol (.duplicate (signatureName 0))) b) ∧
    statements borrowingSource = .ok borrowingStatements ∧ Coherent borrowingStatements ∧
    ¬ ∃ p, assemble "p" borrowingSource = .ok p := by
  intro b
  refine ⟨?_, ?_, ?_⟩
  · obtain ⟨-, hanswered, -⟩ :=
      signatures_interned "p" [.declare "__extern_1" .string (.string "f")]
    obtain ⟨b', hrun, hsize⟩ : ∃ b', (Build.signature "f").run
        ((new "p").afterAll [.declare "__extern_1" .string (.string "f")]) = .ok 1 b' ∧
      b'.program.heap.size ≤ 2 ^ 32 := ⟨_, rfl, by decide⟩
    obtain ⟨-, hslot, -⟩ := hanswered "f" 1 b' hrun []
    exact ⟨b', hrun, hsize, hslot hsize⟩
  · obtain ⟨-, -, hrefused, -⟩ :=
      signatures_interned "p" [.declare "__extern_0" .string (.string "f")]
    have hstuck : b.Stuck := by
      unfold Stuck
      decide
    have hnew : b.signatures.lookup "g" = none := by decide
    exact ⟨hstuck, hnew, hrefused hstuck "g" hnew []⟩
  · have hstatements : statements borrowingSource = .ok borrowingStatements := by decide +kernel
    obtain ⟨-, -, -, hassemble⟩ := signatures_interned "p" []
    refine ⟨hstatements, coherent_borrowingStatements, ?_⟩
    rw [(hassemble "p" borrowingSource _ hstatements coherent_borrowingStatements).1]
    intro hfree
    exact hfree 0 (by decide) (by decide)

/-- A variable with the name of the first signature leaves no signature to be granted, and the text
of another host function is refused. -/
theorem signature_of_borrowed_name :
    let b := (new "p").afterAll [.declare "__extern_0" .string (.string "f")]
    (Build.signature "g").run b = .error (.symbol (.duplicate "__extern_0")) b ∧
    assemble "p" borrowingSource = .error (.build 6 (.symbol (.duplicate "__extern_0"))) := by
  intro b
  constructor
  · have hnew : b.signatures.lookup "g" = none := by decide
    have hstuck : b.Stuck := by
      unfold Stuck
      decide
    have hname : signatureName b.signatures.length = "__extern_0" := by decide
    exact hname ▸ Build.signature_of_taken hnew hstuck
  · decide +kernel

end Assembly

end EventVm
