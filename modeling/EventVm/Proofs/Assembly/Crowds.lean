import EventVm.Proofs.Assembly.InitialValues
import EventVm.Proofs.Assembly.Reassembly
import EventVm.Proofs.Assembly.Verification
import EventVm.Proofs.Text.Integer
import EventVm.Proofs.Text.Lines

/-!
# Variables behind the last address

Heap addresses are 32 bits wide and wrap around as offsets do. A source that declares `n` variables
with the number 0 and a last one with the number 1 (`crowdSource`) is assembled however many they
are (`exists_crowd`), and the program passes the checks (`Compiles.verify_crowd`). Behind 2 ^ 32
variables the last one has a slot of its own, but the address of an earlier one, whose number is
shown for both (`Compiles.declarationLine_crowd`). What the listing is assembled to has the number 1
in no slot (`Compiles.ne_of_crowd_reassembled`).
-/

namespace EventVm.Assembly

variable {name name' text : String} {n k : Nat} {p p' : Program} {is : List Instruction}
  {ss : List Placed} {s : Symbol}

/-- The name of a variable of the crowd: a letter and its number. -/
def crowdName (k : Nat) : String :=
  String.ofList ('v' :: Nat.toDigits 10 k)

/-- The variables of the crowd and what they hold. -/
def crowd (n : Nat) : List (String × Int32) :=
  (List.range n).map (fun k => (crowdName k, 0)) ++ [(crowdName n, 1)]

/-- The line of a variable with a number. -/
def numberLine (x : String) (i : Int32) : String :=
  s!"    {x}: %{TypeTag.int32.name}, {(Value.int32 i).display}"

/-- The declaration of a variable with a number. -/
def declareNumber (x : String) (i : Int32) : Statement :=
  .declare x .int32 (.value (.int32 i))

/-- The slot of a variable with a number. -/
def numberSlot (i : Int32) : Slot :=
  ⟨.int32, .value (.int32 i)⟩

/-- A variable with the number 1 behind `n` variables with the number 0. -/
def crowdSource (n : Nat) : String :=
  String.join ((".data_start" :: ((crowd n).map (fun v => numberLine v.1 v.2) ++
    [".data_end"])).map (· ++ "\n"))

/-- What that source says. -/
def crowdStatements (n : Nat) : List Placed :=
  ⟨.outside, .enter .data⟩ :: ((crowd n).map (fun v => ⟨.data, declareNumber v.1 v.2⟩) ++
    [⟨.data, .enter .outside⟩])

/-! ### The names -/

theorem isIdentifier_crowdName (k : Nat) : IsIdentifier (crowdName k).toList := by
  rw [crowdName, String.toList_ofList]
  refine ⟨List.forall_mem_cons.2 ⟨by decide, fun c hc => ?_⟩, 'v', rfl, by decide⟩
  have hdigit := Nat.isDigit_of_mem_toDigits (by decide) (by decide) hc
  simp [isWordChar, Char.isAlphanum, hdigit]

theorem crowdName_injective : Function.Injective crowdName := by
  intro j k h
  have hdigits : Nat.toDigits 10 j = Nat.toDigits 10 k := by
    have hlists := congrArg String.toList h
    rw [crowdName, crowdName, String.toList_ofList, String.toList_ofList] at hlists
    exact (List.cons.inj hlists).2
  have hread := Text.signed?_toDigits (n := j)
  rw [hdigits, Text.signed?_toDigits] at hread
  exact Int.ofNat_inj.1 (Option.some.inj hread).symm

theorem names_crowd (n : Nat) : (crowd n).map Prod.fst = (List.range (n + 1)).map crowdName := by
  simp [crowd, List.range_succ, Function.comp_def]

theorem nodup_names_crowd (n : Nat) : ((crowd n).map Prod.fst).Nodup := by
  rw [names_crowd]
  exact List.nodup_range.map crowdName_injective

theorem isIdentifier_of_mem_crowd : ∀ v ∈ crowd n, IsIdentifier v.1.toList := by
  intro v hv
  have hname := List.mem_map_of_mem (f := Prod.fst) hv
  rw [names_crowd] at hname
  obtain ⟨k, -, hk⟩ := List.mem_map.1 hname
  exact hk ▸ isIdentifier_crowdName k

/-! ### The lines -/

theorem toList_numberLine (x : String) (i : Int32) : (numberLine x i).toList =
    "    ".toList ++ (x.toList ++ ':' :: (" %".toList ++ TypeTag.int32.name.toList ++ ", ".toList ++
      (Value.int32 i).display.toList)) := by
  unfold numberLine
  simp [toString]

theorem reads_numberLine {x : String} (hx : IsIdentifier x.toList) (i : Int32) :
    Reads .data (numberLine x i).toList (declareNumber x i) := by
  have hread := readsInitial_display (.int32 i) (v := .int32 i) nofun
  have hstatement := statement?_declare hx hread.uncommented hread.trimmed hread.ne_nil hread.parsed
  rwa [String.ofList_toList, ← toList_numberLine] at hstatement

theorem isLine_numberLine {x : String} (hx : IsIdentifier x.toList) (i : Int32) :
    Text.IsLine (numberLine x i).toList := by
  have htype : Text.IsLine (':' :: (" %".toList ++ TypeTag.int32.name.toList ++ ", ".toList)) := by
    decide
  rw [toList_numberLine]
  exact .append (by decide) (hx.isName.isLine.append (htype.append (Value.isLine_display _)))

theorem statements_crowdSource (n : Nat) : statements (crowdSource n) = .ok (crowdStatements n) := by
  have hopen : statement? .outside ".data_start".toList = .ok (some (.enter .data)) := rfl
  have hclose : statement? .data ".data_end".toList = .ok (some (.enter .outside)) := rfl
  have hlines : Text.lines (crowdSource n).toList = ".data_start".toList ::
      ((crowd n).map (fun v => (numberLine v.1 v.2).toList) ++ [".data_end".toList]) := by
    rw [crowdSource, Text.lines_join]
    · simp
    · refine List.forall_mem_cons.2 ⟨by decide, List.forall_mem_append.2
        ⟨List.forall_mem_map.2 fun v hv => ?_, by decide⟩⟩
      exact isLine_numberLine (isIdentifier_of_mem_crowd v hv) v.2
  have hreads : List.Forall₂ (Reads .data) ((crowd n).map fun v => (numberLine v.1 v.2).toList)
      ((crowd n).map fun v => declareNumber v.1 v.2) := by
    rw [List.forall₂_map_left_iff, List.forall₂_map_right_iff, List.forall₂_same]
    exact fun v hv => reads_numberLine (isIdentifier_of_mem_crowd v hv) v.2
  have hstays := stays_of_forall₂ hreads (List.forall_mem_map.2 fun v _ => rfl)
  have hlast : statementsFrom .data [".data_end".toList] = .ok [⟨.data, .enter .outside⟩] := by
    rw [statementsFrom_statement hclose]
    rfl
  rw [statements, hlines, statementsFrom_statement hopen, map_eq_ok]
  refine ⟨_, (statementsFrom_append_eq_ok hstays).2 ⟨_, _, hreads, hlast, rfl⟩, ?_⟩
  simp [crowdStatements, Function.comp_def]

/-! ### The crowd taken together -/

@[simp]
theorem declarationsOf_crowd (n : Nat) : declarationsOf (crowdStatements n) =
    (crowd n).map fun v => ⟨v.1, .int32, .value (.int32 v.2)⟩ := by
  simp [crowdStatements, declarationsOf, declareNumber, List.filterMap_map]

@[simp]
theorem instructionsOf_crowd (n : Nat) : instructionsOf (crowdStatements n) = [] := by
  simp [crowdStatements, instructionsOf, declareNumber]

@[simp]
theorem exportsOf_crowd (r : Region) (n : Nat) : exportsOf r (crowdStatements n) = [] := by
  simp [crowdStatements, exportsOf, declareNumber]

@[simp]
theorem syncsOf_crowd (n : Nat) : syncsOf (crowdStatements n) = [] := by
  simp [crowdStatements, syncsOf, declareNumber]

@[simp]
theorem marksOf_crowd (n : Nat) : marksOf (crowdStatements n) = [] := by
  refine marksFrom_eq_nil (List.forall_mem_cons.2 ⟨nofun, List.forall_mem_append.2 ⟨?_, ?_⟩⟩)
  · exact List.forall_mem_map.2 fun v _ => nofun
  · exact List.forall_mem_singleton.2 nofun

theorem consistent_crowd (n : Nat) : Consistent (crowdStatements n) where
  variables_nodup := by
    simpa [Function.comp_def] using nodup_names_crowd n
  wellTyped := by
    rw [declarationsOf_crowd]
    exact List.forall_mem_map.2 fun v _ => rfl
  labels_nodup := by simp
  dataExports := by simp
  syncs := by simp
  codeExports := by simp
  operands := by simp

/-- A crowd of any size is assembled. -/
theorem exists_crowd (name : String) (n : Nat) :
    ∃ p is, assemble name (crowdSource n) = .ok p ∧ Compiles name (crowdStatements n) is p :=
  exists_assembled name (statements_crowdSource n) (consistent_crowd n)

/-! ### The assembled crowd -/

namespace Compiles

variable (h : Compiles name (crowdStatements n) is p)

include h

theorem instructions_crowd : is = [] := by
  have hlength := h.instructions.length_eq
  rw [instructionsOf_crowd, List.length_nil, eq_comm] at hlength
  exact List.eq_nil_of_length_eq_zero hlength

theorem code_crowd : p.code = [] := by
  cases h.instructions_crowd
  exact (Instruction.encode_of_decodeFrom h.listed).symm

theorem heap_crowd :
    p.heap.slots = List.replicate n (numberSlot 0) ++ [numberSlot 1] := by
  rw [h.slots]
  simp [textsOf, crowd, Declaration.slot, Initial.slot, numberSlot, Function.comp_def]

/-- A variable of the crowd has its place in it as its address, as far as addresses go. -/
theorem symbols_crowd (hs : s ∈ p.symbols.symbols) :
    ∃ v ∈ crowd n, ∃ k ≤ n, s = ⟨v.1, UInt32.ofNat k, .int32, false⟩ := by
  have hsymbols : p.symbols.symbols =
      symbolsOf [] ((crowd n).map fun v => ⟨v.1, .int32, .value (.int32 v.2)⟩) := by
    simp [h.symbols, textsOf, textSymbols]
  rw [hsymbols] at hs
  obtain ⟨k, hk, rfl⟩ := List.mem_mapIdx.1 hs
  rw [List.length_map] at hk
  refine ⟨(crowd n)[k], List.getElem_mem hk, k, ?_, by simp⟩
  have hlength : (crowd n).length = n + 1 := by simp [crowd]
  omega

theorem slot_crowd (hk : k ≤ n) : ∃ i, p.heap.slot? (UInt32.ofNat k) = some (numberSlot i) ∧
    (2 ^ 32 ≤ n → i = 0) := by
  have haddress : (UInt32.ofNat k).toNat = k % 2 ^ 32 := UInt32.toNat_ofNat'
  rw [Heap.slot?, haddress, h.heap_crowd]
  -- the slot behind all others is found only where no address has begun again
  by_cases hfirst : k % 2 ^ 32 < n
  · refine ⟨0, ?_, fun _ => rfl⟩
    rw [List.getElem?_append_left (by simpa using hfirst), List.getElem?_replicate, if_pos hfirst]
  · have hlast : k % 2 ^ 32 = n := by omega
    refine ⟨1, ?_, fun hn => by omega⟩
    rw [hlast, List.getElem?_append_right (by simp)]
    simp

theorem entryPoints_crowd : p.entryPoints.symbols = [] := by
  simp [h.entryPoints]

theorem sync_crowd : p.sync = .empty := by
  simp [h.sync]

/-- A crowd passes the checks. -/
theorem verify_crowd : p.verify = .ok () := by
  refine h.verify_of_verifyStructure (Program.verifyStructure_eq_ok.2 ⟨?slots, ?symbols, is,
    mapError_eq_ok.2 h.listed, ?operands, ?entries, ?sync⟩)
  case slots =>
    refine h.slots_wellTyped ?_
    rw [declarationsOf_crowd]
    exact List.forall_mem_map.2 fun v _ => rfl
  case symbols =>
    intro s hs
    obtain ⟨v, -, k, hk, rfl⟩ := h.symbols_crowd hs
    obtain ⟨i, hslot, -⟩ := h.slot_crowd hk
    exact ⟨_, hslot, rfl⟩
  case operands => simp [h.instructions_crowd]
  case entries => simp [h.entryPoints_crowd]
  case sync => simp [h.sync_crowd, SyncTable.empty]

/-- **Addresses wrap around.** Behind 2 ^ 32 variables the last one is shown with the number 0 too,
which is that of another one. -/
theorem declarationLine_crowd (hn : 2 ^ 32 ≤ n) (hs : s ∈ p.symbols.symbols) :
    declarationLine p.heap s = (numberLine s.name 0).toList := by
  obtain ⟨v, -, k, hk, rfl⟩ := h.symbols_crowd hs
  obtain ⟨i, hslot, hi⟩ := h.slot_crowd hk
  cases hi hn
  rw [toList_numberLine, declarationLine, literalText_eq hslot]
  rfl

/-- What is read in the listing: every variable has the number 0. -/
theorem listing_crowd (hn : 2 ^ 32 ≤ n) (hname : '\n' ∉ name.toList)
    (htext : disassemble p = .ok text) (hss : statements text = .ok ss) :
    ss = Assembly.listed (p.symbols.symbols.map fun s => declareNumber s.name 0) [] := by
  have hl := h.listable (statements_crowdSource n) (h.name_eq ▸ hname) h.verify_crowd
  obtain ⟨is₀, his, hlines⟩ := lines_of_disassemble hl htext
  cases h.listed.symm.trans (mapError_eq_ok.1 his)
  cases h.instructions_crowd
  obtain ⟨ds, cs, hds, hcs, rfl⟩ := (statements_listing hl (by simp) hlines).1 hss
  cases hcs
  have hexported : p.symbols.exported = [] := by
    refine List.filter_eq_nil_iff.2 fun s hs => ?_
    obtain ⟨v, -, k, -, rfl⟩ := h.symbols_crowd hs
    exact Bool.false_ne_true
  have hdata : List.Forall₂ (Reads .data) (dataBody p)
      (p.symbols.symbols.map fun s => declareNumber s.name 0) := by
    rw [dataBody, hexported, h.sync_crowd]
    refine List.forall₂_map_left_iff.2 (List.forall₂_map_right_iff.2 (List.forall₂_same.2 ?_))
    intro s hs
    rw [h.declarationLine_crowd hn hs]
    obtain ⟨v, hv, k, -, rfl⟩ := h.symbols_crowd hs
    exact reads_numberLine (isIdentifier_of_mem_crowd v hv) 0
  rw [reads_unique hds hdata]

/-- The listing is assembled to another program, if at all. -/
theorem ne_of_crowd_reassembled (hn : 2 ^ 32 ≤ n) (hname : '\n' ∉ name.toList)
    (htext : disassemble p = .ok text) (h' : assemble name' text = .ok p') : p' ≠ p := by
  rintro rfl
  obtain ⟨ss, is', hss, hc⟩ := exists_compiles h'
  cases h.listing_crowd hn hname htext hss
  have hzero : ∀ slot ∈ p'.heap.slots, slot = numberSlot 0 := by
    rw [hc.slots]
    simp [Assembly.listed, declarationsOf, instructionsOf, textsOf, declareNumber,
      List.filterMap_map, Declaration.slot, Initial.slot, numberSlot]
  have hone : numberSlot 1 ∈ p'.heap.slots := by simp [h.heap_crowd]
  exact absurd (hzero _ hone) (by decide)

end Compiles

end EventVm.Assembly
