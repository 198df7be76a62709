import EventVm.Proofs.Assembly.Compilation
import EventVm.Proofs.Heap
import EventVm.Proofs.Program.Forms
import EventVm.Proofs.Program.Verified

/-!
# Assembled programs pass the checks

The assembler finds addresses and offsets while it reads a source, the verifier finds them again in
the finished program. They agree: an assembled program passes every check (`verify_assemble`),
unless the source leaves the names. A source does so with a number as operand, a host call whose
operand is no text in quotes, or a label behind the last instruction.
-/

namespace EventVm.Assembly

open Instruction (decodeAll)

variable {name source : String} {ss : List Placed} {is : List Instruction} {p : Program}
  {d d' : Draft} {s : Statement} {line : Nat}

/-! ### What the assembler has checked -/

/-- A variable is declared only if its slot holds what fits. -/
theorem wellTyped_add (h : ∀ s ∈ d.builder.program.heap.slots, s.isWellTyped = true)
    (ha : d.add line s = .ok d') : ∀ s ∈ d'.builder.program.heap.slots, s.isWellTyped = true := by
  cases s with
  | declare x type initial =>
    obtain ⟨⟨address, b⟩, hrun, ha⟩ := bind_eq_ok.1 ha
    cases ha
    obtain ⟨-, hslot, symbols, -, rfl⟩ := Draft.declare_eq_ok.1 (runBuild_eq_ok.1 hrun)
    intro s hs
    obtain hs | hs := List.mem_append.1 hs
    · exact h s hs
    · exact List.mem_singleton.1 hs ▸ hslot
  | exportName x =>
    rw [Draft.add] at ha
    split at ha
    · cases ha
      exact h
    · cases ha
      exact h
    · cases ha
  | label x =>
    rw [Draft.add] at ha
    split at ha
    · cases ha
    · cases ha
      exact h
  | enter _ | sync _ _ | instruction _ _ =>
    cases ha
    exact h

theorem wellTyped_read {source : List Char} (h : Draft.read name source = .ok d) :
    ∀ s ∈ d.builder.program.heap.slots, s.isWellTyped = true := by
  refine foldlM_induct (motive := fun _ d => ∀ s ∈ d.builder.program.heap.slots, s.isWellTyped)
    h (fun s hs => nomatch hs) ?_
  rintro _ ⟨raw, i⟩ d₀ d₁ _ hd₀ hline
  dsimp only at hline
  rw [addLine_eq] at hline
  split at hline
  · cases hline
  · cases hline
    exact hd₀
  · exact wellTyped_add hd₀ hline

/-- In a source that can be assembled, initial values fit and synced variables are declared. -/
theorem checked_of_assemble (h : assemble name source = .ok p)
    (hss : statements source = .ok ss) :
    (∀ v ∈ declarationsOf ss, v.slot.isWellTyped = true) ∧
      ∀ x ∈ syncsOf ss, x.1 ∈ (declarationsOf ss).map Declaration.name := by
  obtain ⟨d, hd, h⟩ := bind_eq_ok.1 h
  obtain ⟨ss', hss', hdrafted⟩ := (Drafted.new name).read hd
  cases hss.symm.trans hss'
  rw [List.nil_append] at hdrafted
  obtain ⟨symbols, hsymbols, hbuilder⟩ := hdrafted.builder
  constructor
  · intro v hv
    have hslots := wellTyped_read hd
    rw [hbuilder] at hslots
    exact hslots v.slot (List.mem_map_of_mem hv)
  · intro x hx
    obtain ⟨b₁, hexports, h⟩ := bind_eq_ok.1 h
    obtain ⟨b₂, hsyncs, -⟩ := bind_eq_ok.1 h
    rw [← hdrafted.syncs] at hx
    obtain ⟨y, hy, rfl⟩ := List.mem_map.1 hx
    have hdeclared := (settleSyncs_eq_ok.1 hsyncs).1 y hy
    obtain ⟨-, rfl⟩ := settleExports_eq_ok.1 hexports
    rw [hbuilder] at hdeclared
    have hnames := foldl_markExported (d.dataExports.map Located.item) hsymbols
    rw [List.foldl_map] at hnames
    rwa [SymbolTable.names, hnames, names_symbolsOf] at hdeclared

/-! ### The checks of the verifier -/

namespace Compiles

theorem length_slots (h : Compiles name ss is p) :
    p.heap.size = (declarationsOf ss).length + (textsOf (instructionsOf ss)).length := by
  rw [Heap.size, h.slots, List.length_append, List.length_map, List.length_map]

variable (h : Compiles name ss is p)
  (hheap : (declarationsOf ss).length + (textsOf (instructionsOf ss)).length ≤ 2 ^ 32)

include h in
theorem slots_wellTyped (hdeclared : ∀ v ∈ declarationsOf ss, v.slot.isWellTyped = true) :
    ∀ s ∈ p.heap.slots, s.isWellTyped = true := by
  rw [h.slots]
  intro s hs
  obtain hs | hs := List.mem_append.1 hs
  · obtain ⟨v, hv, rfl⟩ := List.mem_map.1 hs
    exact hdeclared v hv
  · obtain ⟨t, -, rfl⟩ := List.mem_map.1 hs
    rfl

include h hheap in
/-- Every symbol names the slot that was declared with it. -/
theorem slot_of_symbol {s : Symbol} (hs : s ∈ p.symbols.symbols) :
    ∃ slot, p.heap.slot? s.address = some slot ∧ slot.declared = s.type := by
  have hslot : ∀ n, n < p.heap.size → p.heap.slot? (UInt32.ofNat n) = p.heap.slots[n]? := by
    intro n hn
    rw [h.length_slots] at hn
    rw [Heap.slot?, UInt32.toNat_ofNat_of_lt' (hn.trans_le hheap)]
  rw [h.symbols] at hs
  rw [h.length_slots] at hslot
  obtain hs | hs := List.mem_append.1 hs
  · obtain ⟨n, hn, rfl⟩ := List.mem_mapIdx.1 hs
    refine ⟨_, ?_, Initial.slot_declared _ (declarationsOf ss)[n].initial⟩
    rw [hslot n (Nat.lt_add_right _ hn), h.slots, List.getElem?_append_left (by simpa using hn)]
    simp [hn, Declaration.slot]
  · obtain ⟨n, hn, rfl⟩ := List.mem_mapIdx.1 hs
    refine ⟨Build.signatureSlot (textsOf (instructionsOf ss))[n], ?_, rfl⟩
    rw [hslot _ (Nat.add_lt_add_left hn _), h.slots, List.getElem?_append_right (by simp)]
    simp [hn]

include h in
/-- A label in front of an instruction stands for the beginning of that instruction. -/
theorem offset_mem_starts {m : Mark} (hm : m.index < (instructionsOf ss).length) :
    (m.place p is).offset ∈ is.map Instruction.offset := by
  rw [h.instructions.length_eq] at hm
  have hoffset : (m.place p is).offset = is[m.index].offset := by
    rw [Mark.place, offsetAt, List.getElem?_eq_getElem hm]
  rw [hoffset]
  exact List.mem_map_of_mem (List.getElem_mem hm)

include h hheap in
/-- What stands for an operand passes the checks of its opcode. -/
theorem verifyInstruction_of_becomes
    (hlabels : ∀ m ∈ marksOf ss, m.index < (instructionsOf ss).length) {x : SourceInstruction}
    {i : Instruction} (hx : Becomes ((marksOf ss).map (Mark.place p is)) p.symbols.symbols
      (declarationsOf ss).length (textsOf (instructionsOf ss)) x i)
    (hnumber : ∀ n, x.operand = some (.number n) →
      n = haltAddress ∧ x.opcode.takesCodeOffset = true)
    (hcall : x.opcode = .call → ∃ t, x.operand = some (.string t)) :
    p.verifyInstruction (is.map Instruction.offset) i = .ok () := by
  obtain ⟨hop, hdenotes⟩ := hx
  -- a jump takes no heap address and is no host call
  have hjump : x.opcode.takesCodeOffset = true →
      x.opcode.takesHeapAddress = false ∧ (x.opcode == .call) = false := by
    cases x.opcode <;> decide
  unfold Program.verifyInstruction
  rw [hop]
  generalize x.operand = o at hdenotes hnumber hcall
  generalize i.operand = w at hdenotes
  cases hdenotes with
  | none => rfl
  | number n =>
    obtain ⟨rfl, hcode⟩ := hnumber n rfl
    obtain ⟨hnotHeap, hnotCall⟩ := hjump hcode
    simp [hnotHeap, hnotCall]
  | label l hcode hl =>
    obtain ⟨m, hm, rfl⟩ := List.mem_map.1 hl
    have hstart := h.offset_mem_starts (hlabels m hm)
    obtain ⟨hnotHeap, hnotCall⟩ := hjump hcode
    simp [hnotHeap, hnotCall, hstart]
  | symbol s hcode hs =>
    obtain ⟨slot, hslot, -⟩ := h.slot_of_symbol hheap hs
    have hcontains := Heap.contains_of_slot? hslot
    have hnotCall : (x.opcode == .call) = false := by
      refine beq_eq_false_iff_ne.2 fun hop => ?_
      obtain ⟨t, ht⟩ := hcall hop
      cases ht
    simp [hcode, hnotCall, hcontains]
  | text t hop ht =>
    have hslot := h.slot?_text (h.length_slots ▸ hheap) ht
    generalize UInt32.ofNat ((declarationsOf ss).length + _) = address at hslot ⊢
    have hcontains := Heap.contains_of_slot? hslot
    have hstring : Program.holdsString p.heap address = true := by
      unfold Program.holdsString
      rw [Heap.get_of_slot? hslot rfl]
    have hnotCode : x.opcode.takesCodeOffset = false := by
      rcases hop with hop | hop <;> rw [hop] <;> rfl
    simp [hnotCode, hcontains, hstring]

include h in
theorem sync_declared (hsyncs : ∀ x ∈ syncsOf ss, x.1 ∈ (declarationsOf ss).map Declaration.name) :
    ∀ e ∈ p.sync.entries, e.name ∈ p.symbols.names := by
  have hentries : ∀ xs : List (String × Interpolation),
      (xs.foldl (fun t x => SyncTable.add t x.1 x.2) .empty).entries =
        merged (xs.map fun x => ⟨x.1, x.2⟩) := by
    intro xs
    induction xs using List.reverseRecOn with
    | nil => rfl
    | append_singleton xs x ih =>
      rw [List.foldl_append, List.map_append]
      exact SyncEntry.entries_add ih ⟨x.1, x.2⟩
  intro e he
  rw [h.sync, hentries] at he
  obtain ⟨x, hx, rfl⟩ := List.mem_map.1 (SyncEntry.mem_of_mem_merged he)
  rw [SymbolTable.names, h.symbols, List.map_append, names_symbolsOf]
  exact List.mem_append_left _ (hsyncs x hx)

include h in
/-- The assembler names the instruction set that the verifier asks for. -/
theorem verify_of_verifyStructure (hstructure : p.verifyStructure = .ok ()) :
    p.verify = .ok () := by
  unfold Program.verify
  rw [if_pos ⟨h.instructionSet, congrArg Version.major h.version⟩, hstructure]

include h hheap in
/-- A program passes the checks if its statements leave addresses to the assembler. -/
theorem verify_eq_ok (hdeclared : ∀ v ∈ declarationsOf ss, v.slot.isWellTyped = true)
    (hsyncs : ∀ x ∈ syncsOf ss, x.1 ∈ (declarationsOf ss).map Declaration.name)
    (hnumbers : ∀ x ∈ instructionsOf ss, ∀ n, x.operand = some (.number n) →
      n = haltAddress ∧ x.opcode.takesCodeOffset = true)
    (hcalls : ∀ x ∈ instructionsOf ss, x.opcode = .call → ∃ t, x.operand = some (.string t))
    (hlabels : ∀ m ∈ marksOf ss, m.index < (instructionsOf ss).length) : p.verify = .ok () := by
  refine h.verify_of_verifyStructure (Program.verifyStructure_eq_ok.2 ⟨h.slots_wellTyped hdeclared,
    fun s hs => h.slot_of_symbol hheap hs, is, mapError_eq_ok.2 h.listed, ?operands, ?entries,
    h.sync_declared hsyncs⟩)
  case operands =>
    intro i hi
    obtain ⟨k, hk, rfl⟩ := List.mem_iff_getElem.1 hi
    have hk' : k < (instructionsOf ss).length := h.instructions.length_eq ▸ hk
    have hx := List.getElem_mem hk'
    exact h.verifyInstruction_of_becomes hheap hlabels
      (List.forall₂_iff_get.1 h.instructions |>.2 k hk' hk) (hnumbers _ hx) (hcalls _ hx)
  case entries =>
    rw [h.entryPoints]
    intro s hs
    obtain ⟨l, hl, rfl⟩ := List.mem_map.1 hs
    obtain ⟨m, hm, rfl⟩ := List.mem_map.1 hl
    exact h.offset_mem_starts (hlabels m hm)

end Compiles

/-- **An assembled program passes the checks** if its source leaves addresses to the assembler: the
only number that stands as an operand is the halt address, at a direct jump, every host call names
its function by a text in quotes, and an instruction follows the last label. Heap addresses are 32
bits wide: the variables and texts are no more than there are addresses (`hheap`). -/
theorem verify_assemble (h : assemble name source = .ok p) (hss : statements source = .ok ss)
    (hnumbers : ∀ x ∈ instructionsOf ss, ∀ n, x.operand = some (.number n) →
      n = haltAddress ∧ (x.opcode = .jump ∨ x.opcode = .jumpIfFalse))
    (hcalls : ∀ x ∈ instructionsOf ss, x.opcode = .call → ∃ t, x.operand = some (.string t))
    (hlabels : ∀ m ∈ marksOf ss, m.index < (instructionsOf ss).length)
    (hheap : (declarationsOf ss).length + (textsOf (instructionsOf ss)).length ≤ 2 ^ 32) :
    p.verify = .ok () := by
  obtain ⟨hdeclared, hsyncs⟩ := checked_of_assemble h hss
  obtain ⟨ss', is, hss', hc⟩ := exists_compiles h
  cases hss.symm.trans hss'
  refine hc.verify_eq_ok hheap hdeclared hsyncs (fun x hx n hn => ?_) hcalls hlabels
  obtain ⟨rfl, hop⟩ := hnumbers x hx n hn
  refine ⟨rfl, ?_⟩
  rcases hop with hop | hop
  · exact hop ▸ rfl
  · exact hop ▸ rfl

/-- A source whose code stands in front of the variable that it reads, with a forward label, a text
in quotes and the halt address. -/
def forwardSource : String :=
  ".code_start\nmain:\nPUSH, v\nJUMP_IF_FALSE, end\nEXTERN, \"f\"\nend:\nJUMP, 0xFFFFFFFC\n" ++
    ".code_end\n.data_start\n.sync v\nv: %SystemBoolean\n.data_end"

/-- What that source says. -/
def forwardStatements : List Placed :=
  [⟨.outside, .enter .code⟩, ⟨.code, .label "main"⟩,
    ⟨.code, .instruction .push (some (.name "v"))⟩,
    ⟨.code, .instruction .jumpIfFalse (some (.name "end"))⟩,
    ⟨.code, .instruction .call (some (.string "f"))⟩, ⟨.code, .label "end"⟩,
    ⟨.code, .instruction .jump (some (.number haltAddress))⟩, ⟨.code, .enter .outside⟩,
    ⟨.outside, .enter .data⟩, ⟨.data, .sync "v" .none⟩,
    ⟨.data, .declare "v" .boolean .default⟩, ⟨.data, .enter .outside⟩]

theorem verify_assemble_forward :
    ∃ p, assemble "forward" forwardSource = .ok p ∧ p.verify = .ok () := by
  have hok : (assemble "forward" forwardSource).toBool = true := by decide +kernel
  have hss : statements forwardSource = .ok forwardStatements := by decide +kernel
  cases h : assemble "forward" forwardSource with
  | error e =>
    rw [h] at hok
    cases hok
  | ok p =>
    have hinstructions : instructionsOf forwardStatements =
        [⟨.push, some (.name "v")⟩, ⟨.jumpIfFalse, some (.name "end")⟩,
          ⟨.call, some (.string "f")⟩, ⟨.jump, some (.number haltAddress)⟩] := rfl
    refine ⟨p, rfl, verify_assemble h hss ?numbers ?calls (by decide) (by decide)⟩
    case numbers => simp [hinstructions]
    case calls => simp [hinstructions]

end EventVm.Assembly
