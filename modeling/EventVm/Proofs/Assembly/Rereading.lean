import EventVm.Proofs.Assembly.Listing

/-!
# What a listing says

The statements of a listing are those of its lines (`statements_listing`). Its declarations have the
names of the variables of the program (`names_of_listed`). If no operand is a name that ends in a
colon, its instructions are those of the program, with the operands that are read in their texts
(`instructionsOf_code`), and its labels stand where the entry points do (`marksFrom_code`).
-/

namespace EventVm.Assembly

variable {p : Program} {is : List Instruction} {i : Instruction} {text : String}
  {ss : List Placed} {ds cs : List Statement} {s : Statement}

/-! ### The code region -/

/-- What the lines of instructions and of the entry points at them can be read as. -/
inductive Rereading (p : Program) : List Instruction → List Statement → Prop
  | nil : Rereading p [] []
  | cons {i : Instruction} {s : Statement} {is : List Instruction} {cs : List Statement}
      (hs : Rereads p i s) (h : Rereading p is cs) :
      Rereading p (i :: is) ((entriesAt p i).flatMap entryStatements ++ s :: cs)

theorem stays_of_forall₂ {r : Region} {raws : List (List Char)} {sts : List Statement}
    (h : List.Forall₂ (Reads r) raws sts) (hs : ∀ s ∈ sts, r.after s = r) :
    ∀ raw ∈ raws, Stays r raw := by
  induction h with
  | nil => exact fun raw hraw => nomatch hraw
  | cons hraw _ ih =>
    obtain ⟨hs, hss⟩ := List.forall_mem_cons.1 hs
    exact List.forall_mem_cons.2 ⟨stays_of_reads hraw hs, ih hss⟩

theorem mem_entryStatements {e : Symbol} (h : s ∈ entryStatements e) :
    s = .exportName e.name ∨ s = .label e.name := by
  unfold entryStatements at h
  split at h
  · simpa using h
  · exact .inr (by simpa using h)

theorem stays_blockLines (h : Listable p) (hi : i.operand.isSome = i.opcode.hasOperand) :
    ∀ raw ∈ blockLines p i, Stays .code raw := by
  refine List.forall_mem_append.2 ⟨?_, List.forall_mem_singleton.2 fun o ho => ?_⟩
  · refine stays_of_forall₂ (forall₂_entries h i) fun s hs => ?_
    obtain ⟨e, -, hs⟩ := List.mem_flatMap.1 hs
    obtain rfl | rfl := mem_entryStatements hs <;> rfl
  · obtain ⟨s, rfl, hs⟩ := rereads_of_statement? h hi ho
    exact ⟨s, rfl, by cases hs <;> rfl⟩

theorem reads_unique {r : Region} {raws : List (List Char)} {sts sts' : List Statement}
    (h : List.Forall₂ (Reads r) raws sts) (h' : List.Forall₂ (Reads r) raws sts') : sts = sts' :=
  List.right_unique_forall₂' (fun _ _ _ hs hs' => by cases hs.symm.trans hs'; rfl) h h'

theorem rereading_of_forall₂ (h : Listable p)
    (his : ∀ i ∈ is, i.operand.isSome = i.opcode.hasOperand)
    (hcs : List.Forall₂ (Reads .code) (is.flatMap (blockLines p)) cs) : Rereading p is cs := by
  induction is generalizing cs with
  | nil =>
    cases hcs
    exact .nil
  | cons i is ih =>
    obtain ⟨hi, his⟩ := List.forall_mem_cons.1 his
    obtain ⟨block, rest, hblock, hrest, rfl⟩ := exists_append_of_forall₂ hcs
    obtain ⟨entries, last, hentries, hlast, rfl⟩ := exists_append_of_forall₂ hblock
    cases reads_unique hentries (forall₂_entries h i)
    cases hlast with
    | cons hs hnil =>
      cases hnil
      obtain ⟨s, hs', hrereads⟩ := rereads_of_statement? h hi hs
      cases hs'
      rw [List.append_assoc]
      exact .cons hrereads (ih his hrest)

/-- Whether the operand of an instruction is a name that ends in a colon. -/
def EndsInColon (p : Program) (i : Instruction) : Prop :=
  ∃ w, i.operand = some w ∧ (operandText p i.opcode w).toList.getLast? = some ':'

/-- The operand that is read in the text of an operand, or the word itself where none is read. -/
def listedOperand (p : Program) (op : Opcode) (w : UInt32) : Operand :=
  match parseOperand (operandText p op w).toList with
  | .ok x => x
  | .error _ => .number w

/-- The instruction that is read in the line of an instruction. -/
def listedInstruction (p : Program) (i : Instruction) : SourceInstruction :=
  ⟨i.opcode, i.operand.map (listedOperand p i.opcode)⟩

/-- The statements of the code region, unless a line of an instruction makes a label. -/
def codeStatements (p : Program) (is : List Instruction) : List Statement :=
  is.flatMap fun i => (entriesAt p i).flatMap entryStatements ++
    [.instruction i.opcode (i.operand.map (listedOperand p i.opcode))]

theorem Rereads.eq_of_not_colon (h : Rereads p i s) (hi : ¬ EndsInColon p i) :
    s = .instruction i.opcode (i.operand.map (listedOperand p i.opcode)) ∧
      ∀ w, i.operand = some w →
        parseOperand (operandText p i.opcode w).toList = .ok (listedOperand p i.opcode w) := by
  cases h with
  | none ho => simp [ho]
  | operand w x ho hcolon hx => simp [ho, listedOperand, hx]
  | label w x ho hcolon => exact absurd ⟨w, ho, hcolon⟩ hi

theorem Rereading.eq_codeStatements (h : Rereading p is cs) (his : ∀ i ∈ is, ¬ EndsInColon p i) :
    cs = codeStatements p is ∧ ∀ i ∈ is, ∀ w, i.operand = some w →
      parseOperand (operandText p i.opcode w).toList = .ok (listedOperand p i.opcode w) := by
  induction h with
  | nil => exact ⟨rfl, fun i hi => nomatch hi⟩
  | cons hs _ ih =>
    obtain ⟨hi, his⟩ := List.forall_mem_cons.1 his
    obtain ⟨rfl, hoperand⟩ := hs.eq_of_not_colon hi
    obtain ⟨rfl, hoperands⟩ := ih his
    exact ⟨by simp [codeStatements], List.forall_mem_cons.2 ⟨hoperand, hoperands⟩⟩

/-! ### The whole listing -/

theorem statements_listing (h : Listable p)
    (his : ∀ i ∈ is, i.operand.isSome = i.opcode.hasOperand)
    (hlines : Text.lines text.toList = listingLines p is) :
    statements text = .ok ss ↔ ∃ ds cs, List.Forall₂ (Reads .data) (dataBody p) ds ∧
      List.Forall₂ (Reads .code) (is.flatMap (blockLines p)) cs ∧ ss = listed ds cs := by
  have hblocks : ∀ raw ∈ is.flatMap (blockLines p), Stays .code raw := by
    rw [List.forall_mem_flatMap]
    exact fun i hi => stays_blockLines h (his i hi)
  have htitle : statement? .outside (titleLine p) = .ok none := statement?_comment
  have hdata : statement? .outside ".data_start".toList = .ok (some (.enter .data)) := by rfl
  have hend : statement? .data ".data_end".toList = .ok (some (.enter .outside)) := rfl
  have hcode : statement? .outside ".code_start".toList = .ok (some (.enter .code)) := rfl
  have hstop : statement? .code ".code_end".toList = .ok (some (.enter .outside)) := rfl
  have hlast : statementsFrom .code [".code_end".toList] = .ok [⟨.code, .enter .outside⟩] := by
    rw [statementsFrom_statement hstop]
    rfl
  unfold statements
  rw [hlines, listingLines]
  simp only [List.append_assoc, List.cons_append, List.nil_append]
  rw [statementsFrom_blank htitle, statementsFrom_statement hdata, map_eq_ok]
  simp only [Region.after, statementsFrom_append_eq_ok (stays_dataBody h),
    statementsFrom_statement hend, statementsFrom_blank statement?_empty,
    statementsFrom_statement hcode, map_eq_ok, statementsFrom_append_eq_ok hblocks, hlast]
  constructor
  · rintro ⟨_, ⟨ds, _, hds, ⟨_, ⟨_, ⟨cs, _, hcs, hts, rfl⟩, rfl⟩, rfl⟩, rfl⟩, rfl⟩
    cases hts
    exact ⟨ds, cs, hds, hcs, by simp [listed]⟩
  · rintro ⟨ds, cs, hds, hcs, rfl⟩
    exact ⟨_, ⟨ds, _, hds, ⟨_, ⟨_, ⟨cs, _, hcs, rfl, rfl⟩, rfl⟩, rfl⟩, rfl⟩, by simp [listed]⟩

/-- What the statements of the data region are, as far as any name allows. -/
theorem data_of_forall₂ (h : Listable p) (hds : List.Forall₂ (Reads .data) (dataBody p) ds) :
    ∃ syncs declares,
      ds = p.symbols.exported.map (fun s => .exportName s.name) ++ syncs ++ declares ∧
      (∀ s ∈ syncs, ∃ x i, s = .sync x i) ∧
      List.Forall₂ (fun v s => ∃ type initial, s = .declare v.name type initial)
        p.symbols.symbols declares := by
  obtain ⟨front, declares, hfront, hdeclares, rfl⟩ := exists_append_of_forall₂ hds
  obtain ⟨exports, syncs, hexports, hsyncs, rfl⟩ := exists_append_of_forall₂ hfront
  have hexport : List.Forall₂ (Reads .data) (p.symbols.exported.map exportLine)
      (p.symbols.exported.map fun s => .exportName s.name) := by
    rw [List.forall₂_map_left_iff, List.forall₂_map_right_iff, List.forall₂_same]
    intro s hs
    obtain ⟨hs, hexported⟩ := List.mem_filter.1 hs
    exact reads_exportLine (by decide) (h.symbols s hs).1 (h.exportedSymbols s hs hexported)
  cases reads_unique hexports hexport
  rw [List.forall₂_map_left_iff] at hsyncs hdeclares
  refine ⟨syncs, declares, rfl, ?_, ?_⟩
  · refine forall_mem_of_forall₂ hsyncs fun e s hs => ?_
    obtain ⟨x, i, hsync⟩ := exists_sync_of_reads hs
    exact ⟨x, i, Option.some.inj hsync⟩
  · have hmem := (List.forall₂_and_left _ _).2 ⟨fun v (hv : v ∈ p.symbols.symbols) => hv, hdeclares⟩
    refine hmem.imp fun v s hv => ?_
    obtain ⟨type, initial, hdeclare⟩ := exists_declare_of_reads (h.symbols v hv.1) hv.2
    exact ⟨type, initial, Option.some.inj hdeclare⟩

/-! ### Taken together -/

theorem declarationsOf_listed (ds cs : List Statement) : declarationsOf (listed ds cs) =
    declarationsOf (ds.map (Placed.mk .data)) ++ declarationsOf (cs.map (Placed.mk .code)) := by
  simp [listed, declarationsOf]

/-- The code region has exports, labels and instructions only. -/
theorem code_cases (h : Rereading p is cs) : ∀ s ∈ cs, (∃ x, s = .exportName x) ∨
    (∃ x, s = .label x) ∨ ∃ op operand, s = .instruction op operand := by
  induction h with
  | nil => exact fun s hs => nomatch hs
  | cons hs _ ih =>
    refine List.forall_mem_append.2 ⟨fun s hs => ?_, List.forall_mem_cons.2 ⟨?_, ih⟩⟩
    · obtain ⟨e, -, hs⟩ := List.mem_flatMap.1 hs
      obtain rfl | rfl := mem_entryStatements hs
      · exact .inl ⟨_, rfl⟩
      · exact .inr (.inl ⟨_, rfl⟩)
    · cases hs with
      | none ho => exact .inr (.inr ⟨_, _, rfl⟩)
      | operand w x ho hcolon hx => exact .inr (.inr ⟨_, _, rfl⟩)
      | label w x ho hcolon => exact .inr (.inl ⟨x, rfl⟩)

theorem declarationsOf_code (h : Rereading p is cs) :
    declarationsOf (cs.map (Placed.mk .code)) = [] := by
  refine declarationsOf_eq_nil (List.forall_mem_map.2 fun s hs => ?_)
  obtain ⟨x, rfl⟩ | ⟨x, rfl⟩ | ⟨op, operand, rfl⟩ := code_cases h s hs <;> exact nofun

theorem names_of_declares {vs : List Symbol}
    (h : List.Forall₂ (fun v s => ∃ type initial, s = .declare v.name type initial) vs ds) :
    (declarationsOf (ds.map (Placed.mk .data))).map Declaration.name = vs.map Symbol.name := by
  induction h with
  | nil => rfl
  | cons hv _ ih =>
    obtain ⟨type, initial, rfl⟩ := hv
    exact congrArg (_ :: ·) ih

section Data

variable (h : Listable p) (hds : List.Forall₂ (Reads .data) (dataBody p) ds)

include h hds

/-- The data region has exports, synced variables and declarations only. -/
theorem data_cases : ∀ s ∈ ds, (∃ x, s = .exportName x) ∨ (∃ x i, s = .sync x i) ∨
    ∃ x type initial, s = .declare x type initial := by
  obtain ⟨syncs, declares, rfl, hsyncs, hdeclares⟩ := data_of_forall₂ h hds
  simp only [List.forall_mem_append, List.forall_mem_map]
  refine ⟨⟨fun s _ => .inl ⟨_, rfl⟩, fun s hs => .inr (.inl (hsyncs s hs))⟩, ?_⟩
  refine forall_mem_of_forall₂ hdeclares fun v s hs => .inr (.inr ?_)
  obtain ⟨type, initial, rfl⟩ := hs
  exact ⟨_, type, initial, rfl⟩

theorem instructionsOf_data : instructionsOf (ds.map (Placed.mk .data)) = [] := by
  refine instructionsOf_eq_nil (List.forall_mem_map.2 fun s hs => ?_)
  obtain ⟨x, rfl⟩ | ⟨x, i, rfl⟩ | ⟨x, type, initial, rfl⟩ := data_cases h hds s hs <;> exact nofun

theorem marksFrom_data (k : Nat) : marksFrom k (ds.map (Placed.mk .data)) = [] := by
  refine marksFrom_eq_nil (List.forall_mem_map.2 fun s hs => ?_)
  obtain ⟨x, rfl⟩ | ⟨x, i, rfl⟩ | ⟨x, type, initial, rfl⟩ := data_cases h hds s hs <;> exact nofun

/-- The variables of a listing have the names of the variables of the program. -/
theorem names_of_listed (hcs : Rereading p is cs) :
    (declarationsOf (listed ds cs)).map Declaration.name = p.symbols.names := by
  obtain ⟨syncs, declares, rfl, hsyncs, hdeclares⟩ := data_of_forall₂ h hds
  have hfront : declarationsOf ((p.symbols.exported.map (fun s => Statement.exportName s.name) ++
      syncs).map (Placed.mk .data)) = [] := by
    refine declarationsOf_eq_nil ?_
    simp only [List.forall_mem_map, List.forall_mem_append]
    refine ⟨fun s _ => nofun, fun s hs => ?_⟩
    obtain ⟨x, i, rfl⟩ := hsyncs s hs
    exact nofun
  rw [declarationsOf_listed, declarationsOf_code hcs, List.append_nil, List.map_append,
    declarationsOf_append, hfront, List.nil_append]
  exact names_of_declares hdeclares

theorem instructionsOf_listed : instructionsOf (listed ds cs) =
    instructionsOf (cs.map (Placed.mk .code)) := by
  have hcode : instructionsOf (listed ds cs) =
      instructionsOf (ds.map (Placed.mk .data)) ++ instructionsOf (cs.map (Placed.mk .code)) := by
    simp [listed, instructionsOf]
  rw [hcode, instructionsOf_data h hds, List.nil_append]

theorem marksOf_listed : marksOf (listed ds cs) = marksFrom 0 (cs.map (Placed.mk .code)) := by
  have hdata := marksFrom_data h hds 0
  have hnone := instructionsOf_data h hds
  simp [listed, marksOf, marksFrom_append, hdata, hnone, marksFrom]

end Data

theorem instructionsOf_entries (es : List Symbol) :
    instructionsOf ((es.flatMap entryStatements).map (Placed.mk .code)) = [] := by
  refine instructionsOf_eq_nil (List.forall_mem_map.2 fun s hs => ?_)
  obtain ⟨e, -, hs⟩ := List.mem_flatMap.1 hs
  obtain rfl | rfl := mem_entryStatements hs <;> exact nofun

theorem marksFrom_entries (k : Nat) (es : List Symbol) :
    marksFrom k ((es.flatMap entryStatements).map (Placed.mk .code)) =
      es.map fun e => ⟨e.name, k⟩ := by
  have hentry : ∀ e, marksFrom k ((entryStatements e).map (Placed.mk .code)) = [⟨e.name, k⟩] := by
    intro e
    unfold entryStatements
    split <;> rfl
  induction es with
  | nil => rfl
  | cons e es ih =>
    have hnone := instructionsOf_entries [e]
    rw [List.flatMap_singleton] at hnone
    rw [List.flatMap_cons, List.map_append, marksFrom_append, hentry, hnone, List.length_nil,
      Nat.add_zero, ih]
    rfl

/-- A line that is read as an instruction is one whose operand does not end in a colon; there are
as many instructions as such lines. -/
theorem Rereading.length_instructionsOf (h : Rereading p is cs) :
    (instructionsOf (cs.map (Placed.mk .code))).length ≤ is.length ∧
      ((instructionsOf (cs.map (Placed.mk .code))).length = is.length →
        ∀ i ∈ is, ¬ EndsInColon p i) := by
  induction h with
  | nil => exact ⟨le_rfl, fun _ i hi => nomatch hi⟩
  | @cons i s is cs hs _ ih =>
    obtain ⟨hle, heq⟩ := ih
    rw [List.map_append, instructionsOf_append, instructionsOf_entries, List.nil_append,
      List.map_cons, List.length_cons, List.forall_mem_cons]
    cases hs with
    | none ho =>
      refine ⟨Nat.succ_le_succ hle, fun hlength => ⟨?_, heq (Nat.succ.inj hlength)⟩⟩
      rintro ⟨w, hw, -⟩
      rw [ho] at hw
      cases hw
    | operand w x ho hcolon hx =>
      refine ⟨Nat.succ_le_succ hle, fun hlength => ⟨?_, heq (Nat.succ.inj hlength)⟩⟩
      rintro ⟨w', hw', hcolon'⟩
      cases ho.symm.trans hw'
      exact hcolon hcolon'
    | label w x ho hcolon =>
      have hlabel : instructionsOf (⟨.code, .label x⟩ :: cs.map (Placed.mk .code)) =
          instructionsOf (cs.map (Placed.mk .code)) := rfl
      rw [hlabel]
      exact ⟨Nat.le_succ_of_le hle, fun hlength => by omega⟩

theorem instructionsOf_code : instructionsOf ((codeStatements p is).map (Placed.mk .code)) =
    is.map (listedInstruction p) := by
  induction is with
  | nil => rfl
  | cons i is ih =>
    rw [codeStatements, List.flatMap_cons, List.map_append, List.map_append, instructionsOf_append,
      instructionsOf_append, instructionsOf_entries]
    exact congrArg (listedInstruction p i :: ·) ih

/-- The labels of a listing: an entry point stands in front of the instruction it leads to. -/
def listedMarks (p : Program) (k : Nat) (is : List Instruction) : List Mark :=
  (is.zipIdx k).flatMap fun (i, k) => (entriesAt p i).map fun e => ⟨e.name, k⟩

theorem marksFrom_code {k : Nat} : marksFrom k ((codeStatements p is).map (Placed.mk .code)) =
    listedMarks p k is := by
  induction is generalizing k with
  | nil => rfl
  | cons i is ih =>
    rw [codeStatements, List.flatMap_cons, List.append_assoc, List.map_append, marksFrom_append,
      marksFrom_entries, instructionsOf_entries, List.length_nil, Nat.add_zero, listedMarks,
      List.zipIdx_cons, List.flatMap_cons]
    exact congrArg (_ ++ ·) ih

end EventVm.Assembly
