import EventVm.Proofs.Assembly.Crowds
import EventVm.Proofs.Assembly.Sleds

/-!
# The round trip through a listing

A program whose names are identifiers, without floating-point variables and with strings of
characters that have a key, is what its listing is assembled to (`assemble_disassemble`). The lines
of such a listing can all be read (`forall₂_dataStatements`, `forall₂_codeStatements`), they are
consistent (`Relisting.consistent`), and the entry points are listed in the order in which the
program has them (`Compiles.flatMap_entriesAt`).

A listing names every entry point at each instruction that has its offset, and is refused if there
are two of them (`pairwise_offset_of_reassembled`); it shows for every variable what the slot of its
address holds. So code and heap have to fit their addresses: with more than 2 ^ 30 instructions, or
more than 2 ^ 32 variables, there are programs that are not what their listings are assembled to
(`exists_sled_refused`, `exists_crowd_differs`).
-/

namespace EventVm.Assembly

open Instruction (totalSize)

variable {name name' source text : String} {p p' : Program} {is is' : List Instruction}
  {ss : List Placed} {s : Symbol}

/-! ### The order of entry points -/

section Sorted

variable {α : Type} {key : α → Nat} {k : Nat} {keys : List Nat} {as : List α}

/-- In a list sorted by a key, what has the least key comes first. -/
theorem filter_append_filter_ne (hsorted : as.Pairwise (key · ≤ key ·)) (hk : ∀ a ∈ as, k ≤ key a) :
    as.filter (key · == k) ++ as.filter (key · != k) = as := by
  induction hsorted with
  | nil => rfl
  | @cons a as ha _ ih =>
    obtain ⟨hka, hks⟩ := List.forall_mem_cons.1 hk
    by_cases hkey : key a = k
    · have hhead : (a :: as).filter (key · == k) = a :: as.filter (key · == k) :=
        List.filter_cons_of_pos (by simpa using hkey)
      have hrest : (a :: as).filter (key · != k) = as.filter (key · != k) :=
        List.filter_cons_of_neg (by simp [hkey])
      rw [hhead, hrest, List.cons_append, ih hks]
    · have hnone : (a :: as).filter (key · == k) = [] := by
        refine List.filter_eq_nil_iff.2
          (List.forall_mem_cons.2 ⟨by simpa using hkey, fun b hb => ?_⟩)
        have hab := ha b hb
        simp only [beq_iff_eq]
        omega
      have hall : (a :: as).filter (key · != k) = a :: as := by
        refine List.filter_eq_self.2 (List.forall_mem_cons.2 ⟨by simpa using hkey, fun b hb => ?_⟩)
        have hab := ha b hb
        simp only [bne_iff_ne]
        omega
      rw [hnone, hall, List.nil_append]

/-- A sorted list is collected in order, key by key. -/
theorem flatMap_filter_eq (hkeys : keys.Pairwise (· < ·)) (hsorted : as.Pairwise (key · ≤ key ·))
    (hmem : ∀ a ∈ as, key a ∈ keys) : keys.flatMap (fun k => as.filter (key · == k)) = as := by
  induction hkeys generalizing as with
  | nil => exact (List.eq_nil_iff_forall_not_mem.2 fun a ha => nomatch hmem a ha).symm
  | @cons k keys hk _ ih =>
    have hleast : ∀ a ∈ as, k ≤ key a := by
      intro a ha
      obtain heq | ha := List.mem_cons.1 (hmem a ha)
      · exact heq.ge
      · exact (hk _ ha).le
    have hrest : keys.flatMap (fun j => as.filter (key · == j)) = as.filter (key · != k) := by
      have hmem' : ∀ a ∈ as.filter (key · != k), key a ∈ keys := by
        intro a ha
        obtain ⟨ha, hne⟩ := List.mem_filter.1 ha
        exact (List.mem_cons.1 (hmem a ha)).resolve_left (bne_iff_ne.1 hne)
      refine Eq.trans (List.flatMap_congr fun j hj => ?_) (ih (hsorted.filter _) hmem')
      rw [List.filter_filter]
      refine List.filter_congr fun a _ => ?_
      have hkj := hk j hj
      by_cases haj : key a = j
      · simp [haj, hkj.ne']
      · simp [haj]
    rw [List.flatMap_cons, hrest, filter_append_filter_ne hsorted hleast]

end Sorted

theorem pairwise_marksFrom (k : Nat) : (∀ m ∈ marksFrom k ss, k ≤ m.index) ∧
    (marksFrom k ss).Pairwise (Mark.index · ≤ Mark.index ·) := by
  induction ss generalizing k with
  | nil => exact ⟨fun m hm => (nomatch hm), .nil⟩
  | cons s ss ih =>
    obtain ⟨r, s⟩ := s
    cases s with
    | label name => exact ⟨List.forall_mem_cons.2 ⟨le_rfl, (ih k).1⟩, .cons (ih k).1 (ih k).2⟩
    | instruction op operand =>
      exact ⟨fun m hm => (Nat.le_succ k).trans ((ih (k + 1)).1 m hm), (ih (k + 1)).2⟩
    | enter _ | exportName _ | sync _ _ | declare _ _ _ => exact ih k

/-- Collected instruction by instruction, the entry points come in order. -/
theorem Compiles.flatMap_entriesAt (hc : Compiles name ss is p) (hv : p.Verified is)
    (hsize : p.code.length < 2 ^ 32) : is.flatMap (entriesAt p) = p.entryPoints.symbols := by
  have hsorted : p.entryPoints.symbols.Pairwise fun s t => s.address.toNat ≤ t.address.toNat := by
    rw [hc.entryPoints, List.pairwise_map, List.pairwise_map]
    refine (pairwise_marksFrom 0).2.imp fun {m n} hmn => ?_
    change (offsetAt p is m.index).toNat ≤ (offsetAt p is n.index).toNat
    rw [hc.toNat_offsetAt hsize, hc.toNat_offsetAt hsize]
    exact Instruction.totalSize_take_mono hmn
  have hkeys := (Instruction.pairwise_offset_of_decodeFrom hc.listed (by omega)).2
  have hmem : ∀ s ∈ p.entryPoints.symbols,
      s.address.toNat ∈ is.map fun i => i.offset.toNat := by
    intro s hs
    obtain ⟨i, hi, hoffset⟩ := List.mem_map.1 (hv.entryPoints s hs)
    exact List.mem_map.2 ⟨i, hi, by rw [hoffset]⟩
  have hcollect := flatMap_filter_eq (List.pairwise_map.2 hkeys) hsorted hmem
  rw [List.flatMap_map] at hcollect
  rw [← hcollect]
  refine List.flatMap_congr fun i _ => List.filter_congr fun s _ => ?_
  rw [Bool.eq_iff_iff, beq_iff_eq, beq_iff_eq, UInt32.toNat_inj]

/-! ### The lines of the data region -/

/-- Whether a listing says all that there is to say about a program: names are identifiers, no
variable is a floating-point number, and strings have only characters with a key. -/
structure Relistable (p : Program) : Prop where
  symbols : ∀ s ∈ p.symbols.symbols, IsIdentifier s.name.toList
  entryPoints : ∀ s ∈ p.entryPoints.symbols, IsIdentifier s.name.toList
  types : ∀ s ∈ p.symbols.symbols, s.type ≠ .single ∧ s.type ≠ .double
  strings : ∀ s ∈ p.heap.slots, ∀ t ∈ s.content.value?.bind Value.string?,
    ∀ c ∈ t.toList, Text.IsKeyboard c

instance : DecidablePred Relistable := fun p =>
  decidable_of_iff ((∀ s ∈ p.symbols.symbols, IsIdentifier s.name.toList) ∧
      (∀ s ∈ p.entryPoints.symbols, IsIdentifier s.name.toList) ∧
      (∀ s ∈ p.symbols.symbols, s.type ≠ .single ∧ s.type ≠ .double) ∧
      ∀ s ∈ p.heap.slots, ∀ t ∈ s.content.value?.bind Value.string?,
        t.toList.all (fun c => decide (Text.IsKeyboard c)) = true) (by
    simp only [List.all_eq_true, decide_eq_true_eq]
    exact ⟨fun h => ⟨h.1, h.2.1, h.2.2.1, h.2.2.2⟩,
      fun h => ⟨h.symbols, h.entryPoints, h.types, h.strings⟩⟩)

/-- The initial value that is read for the variable at an address. -/
def initialAt (h : Heap) (address : UInt32) : Initial :=
  match h.slot? address with
  | some s => initialOf s
  | none => .default

/-- The statements of the data region. -/
def dataStatements (p : Program) : List Statement :=
  p.symbols.exported.map (fun s => .exportName s.name) ++
    p.sync.entries.map (fun e => .sync e.name e.interpolation) ++
    p.symbols.symbols.map (fun s => .declare s.name s.type (initialAt p.heap s.address))

theorem types_symbolsOf (exports : List String) (vs : List Declaration) :
    (symbolsOf exports vs).map Symbol.type = vs.map Declaration.type := by
  apply List.ext_getElem
  · simp [symbolsOf]
  · intro i _ _
    simp [symbolsOf]

theorem types_textSymbols (first : Nat) (texts : List String) :
    (textSymbols first texts).map Symbol.type = texts.map fun _ => .string := by
  apply List.ext_getElem
  · simp [textSymbols]
  · intro i _ _
    simp [textSymbols]

/-- A variable has the slot of its address, which has its type. -/
theorem Compiles.exists_slot (hc : Compiles name ss is p) (hheap : p.heap.size ≤ 2 ^ 32) {n : Nat}
    (h : p.symbols.symbols[n]? = some s) :
    ∃ slot, p.heap.slots[n]? = some slot ∧ p.heap.slot? s.address = some slot ∧
      slot.declared = s.type := by
  have hlt : n < p.heap.size := by
    rw [hc.heap_size]
    exact (List.getElem?_eq_some_iff.1 h).1
  have haddress : s.address.toNat = n := by
    rw [hc.address_eq h]
    exact UInt32.toNat_ofNat_of_lt' (by rw [UInt32.size]; omega)
  obtain ⟨slot, hslot⟩ : ∃ slot, p.heap.slots[n]? = some slot :=
    ⟨_, List.getElem?_eq_getElem hlt⟩
  refine ⟨slot, hslot, by rw [Heap.slot?, haddress, hslot], ?_⟩
  have htypes : p.heap.slots.map Slot.declared = p.symbols.symbols.map Symbol.type := by
    rw [hc.slots, hc.symbols, List.map_append, List.map_append, types_symbolsOf, types_textSymbols]
    simp [Function.comp_def, Declaration.slot, Build.signatureSlot]
  have htype := congrArg (·[n]?) htypes
  simpa [List.getElem?_map, hslot, h] using htype

section Reading

variable (hc : Compiles name ss is p) (hss : statements source = .ok ss) (hl : Listable p)
  (hr : Relistable p) (hheap : p.heap.size ≤ 2 ^ 32)

include hc hss hr hheap

/-- The declaration of a variable is read. -/
theorem reads_declarationLine (hs : s ∈ p.symbols.symbols) :
    Reads .data (declarationLine p.heap s)
      (.declare s.name s.type (initialAt p.heap s.address)) := by
  obtain ⟨n, hn⟩ := List.mem_iff_getElem?.1 hs
  obtain ⟨slot, hslot, haddress, htype⟩ := hc.exists_slot hheap hn
  have hmem := List.mem_of_getElem? hslot
  obtain ⟨hsingle, hdouble⟩ := hr.types s hs
  rw [← htype] at hsingle hdouble
  have hread := readsInitial_shown (hc.isWrittenSlot hss slot hmem) hsingle hdouble fun t ht =>
    hr.strings slot hmem t (by rw [ht]; rfl)
  have hstatement := statement?_declare (hr.symbols s hs) hread.uncommented hread.trimmed
    hread.ne_nil hread.parsed
  rw [String.ofList_toList] at hstatement
  unfold Reads declarationLine initialAt
  rw [literalText_eq haddress, haddress, ← htype]
  exact hstatement

include hl

theorem forall₂_dataStatements :
    List.Forall₂ (Reads .data) (dataBody p) (dataStatements p) := by
  have hsync : ∀ e ∈ p.sync.entries, Reads .data (syncLine e) (.sync e.name e.interpolation) := by
    intro e he
    obtain ⟨s, hs, hname⟩ := List.mem_map.1 (hl.synced e he)
    have hread := statement?_sync (hname ▸ hr.symbols s hs) e.interpolation
    rwa [String.ofList_toList] at hread
  refine List.rel_append (List.rel_append ?_ ?_) ?_
  · rw [List.forall₂_map_left_iff, List.forall₂_map_right_iff, List.forall₂_same]
    intro s hs
    obtain ⟨hs, hexported⟩ := List.mem_filter.1 hs
    exact reads_exportLine (by decide) (hl.symbols s hs).1 (hl.exportedSymbols s hs hexported)
  · rwa [List.forall₂_map_left_iff, List.forall₂_map_right_iff, List.forall₂_same]
  · rw [List.forall₂_map_left_iff, List.forall₂_map_right_iff, List.forall₂_same]
    exact fun s hs => reads_declarationLine hc hss hr hheap hs

end Reading

/-! ### The lines of the code region -/

theorem parseOperand_identifier {cs : List Char} (h : IsIdentifier cs) :
    parseOperand cs = .ok (.name (String.ofList cs)) := by
  obtain ⟨c, hc, hdigit⟩ := h.first
  unfold parseOperand
  split
  · exact absurd (h.wordChars '"' List.mem_cons_self) (by decide)
  · next d ds _ =>
    cases hc
    have hrange : ¬ ('0' ≤ c ∧ c ≤ '9') := by
      intro hrange
      have htrue : c.isDigit = true := by
        rw [Char.isDigit, Bool.and_eq_true, decide_eq_true_eq, decide_eq_true_eq]
        exact hrange
      rw [htrue] at hdigit
      cases hdigit
    rw [if_neg hrange]
  · cases hc

theorem IsIdentifier.nameReadsAs {n : String} (h : IsIdentifier n.toList) (w : UInt32) :
    NameReadsAs n w where
  colon hlast := notMem_of_wordChars h.wordChars (by decide) (List.mem_of_getLast? hlast)
  operand := .inl (by rw [parseOperand_identifier h, String.ofList_toList])

theorem Relistable.namesRead (h : Relistable p) (is : List Instruction) : NamesRead p is := by
  intro i _ w _ s hs
  obtain ⟨-, ⟨-, hs⟩ | ⟨-, hs⟩⟩ := mem_of_operandSymbol? hs
  · exact (h.entryPoints s hs).nameReadsAs w
  · exact (h.symbols s hs).nameReadsAs w

theorem forall₂_codeStatements (hl : Listable p) (hn : NamesRead p is)
    (his : ∀ i ∈ is, i.operand.isSome = i.opcode.hasOperand) :
    List.Forall₂ (Reads .code) (is.flatMap (blockLines p)) (codeStatements p is) := by
  refine forall₂_flatMap fun i hi => List.rel_append (forall₂_entries hl i) (.cons ?_ .nil)
  cases hw : i.operand with
  | none =>
    have hop := his i hi
    rw [hw] at hop
    unfold Reads operandLine
    rw [hw]
    exact statement?_instruction_none hop.symm
  | some w =>
    have hcolon : (operandText p i.opcode w).toList.getLast? ≠ some ':' := fun hlast =>
      hn.not_endsInColon hi ⟨w, hw, hlast⟩
    exact reads_operandLine hl (his i hi) hw hcolon (hn.parseOperand hi hw)

/-! ### The statements of the listing -/

/-- The statements of the listing. -/
def listingStatements (p : Program) (is : List Instruction) : List Placed :=
  listed (dataStatements p) (codeStatements p is)

theorem declarationsOf_listing (hcs : Rereading p is (codeStatements p is)) :
    declarationsOf (listingStatements p is) =
      p.symbols.symbols.map fun s => ⟨s.name, s.type, initialAt p.heap s.address⟩ := by
  rw [listingStatements, declarationsOf_listed, declarationsOf_code hcs, List.append_nil]
  simp [declarationsOf, dataStatements, List.filterMap_map, Function.comp_def]

/-- The name that a statement exports. -/
def exportName? : Statement → Option String
  | .exportName name => some name
  | _ => none

theorem exportsOf_map (r r' : Region) (sts : List Statement) :
    exportsOf r (sts.map (Placed.mk r')) =
      if r' = r then sts.filterMap exportName? else [] := by
  unfold exportsOf
  split
  · next h =>
    rw [List.filterMap_map]
    refine List.filterMap_congr fun s _ => ?_
    cases s <;> simp [h, exportName?]
  · next h =>
    refine List.filterMap_eq_nil_iff.2 (List.forall_mem_map.2 fun s _ => ?_)
    cases s <;> simp [h]

theorem exportsOf_listed (r : Region) (ds cs : List Statement) : exportsOf r (listed ds cs) =
    exportsOf r (ds.map (Placed.mk .data)) ++ exportsOf r (cs.map (Placed.mk .code)) := by
  simp [listed, exportsOf]

theorem exportsOf_data_listing (p : Program) (is : List Instruction) :
    exportsOf .data (listingStatements p is) = p.symbols.exported.map Symbol.name := by
  rw [listingStatements, exportsOf_listed, exportsOf_map, exportsOf_map]
  simp [dataStatements, List.filterMap_map, Function.comp_def, exportName?]

theorem exportsOf_entries (es : List Symbol) :
    (es.flatMap entryStatements).filterMap exportName? =
      (es.filter Symbol.exported).map Symbol.name := by
  induction es with
  | nil => rfl
  | cons e es ih =>
    rw [List.flatMap_cons, List.filterMap_append, ih]
    unfold entryStatements
    by_cases he : e.exported = true
    · simp [he, exportName?]
    · simp [he, exportName?]

theorem exportsOf_code_listing (p : Program) (is : List Instruction) :
    exportsOf .code (listingStatements p is) =
      ((is.flatMap (entriesAt p)).filter Symbol.exported).map Symbol.name := by
  rw [listingStatements, exportsOf_listed, exportsOf_map, exportsOf_map, if_neg (by decide),
    if_pos rfl, List.nil_append, codeStatements, List.filterMap_flatMap, List.filter_flatMap,
    List.map_flatMap]
  refine List.flatMap_congr fun i _ => ?_
  rw [List.filterMap_append, exportsOf_entries]
  exact List.append_nil _

theorem syncsOf_listing (hcs : Rereading p is (codeStatements p is)) :
    syncsOf (listingStatements p is) =
      p.sync.entries.map fun e => (e.name, e.interpolation) := by
  have hcode : syncsOf ((codeStatements p is).map (Placed.mk .code)) = [] := by
    refine List.filterMap_eq_nil_iff.2 (List.forall_mem_map.2 fun s hs => ?_)
    obtain ⟨x, rfl⟩ | ⟨x, rfl⟩ | ⟨op, operand, rfl⟩ := code_cases hcs s hs <;> rfl
  have hsplit : syncsOf (listingStatements p is) =
      syncsOf ((dataStatements p).map (Placed.mk .data)) ++
        syncsOf ((codeStatements p is).map (Placed.mk .code)) := by
    simp [listingStatements, listed, syncsOf]
  rw [hsplit, hcode, List.append_nil]
  simp [dataStatements, syncsOf, List.filterMap_map, Function.comp_def]

/-- In the listed labels the entry points come instruction by instruction. -/
theorem map_listedMarks {β : Type} {f : Mark → β} {g : Symbol → β} {k : Nat}
    (h : ∀ n i, is[n]? = some i → ∀ e ∈ entriesAt p i, f ⟨e.name, k + n⟩ = g e) :
    (listedMarks p k is).map f = (is.flatMap (entriesAt p)).map g := by
  induction is generalizing k with
  | nil => rfl
  | cons i is ih =>
    have hi : ∀ e ∈ entriesAt p i, f ⟨e.name, k⟩ = g e := h 0 i rfl
    have his : (listedMarks p (k + 1) is).map f = (is.flatMap (entriesAt p)).map g := by
      refine ih fun n j hj e he => ?_
      rw [Nat.add_assoc, Nat.add_comm 1 n]
      exact h (n + 1) j hj e he
    rw [listedMarks, List.zipIdx_cons, List.flatMap_cons, List.map_append, List.map_map,
      List.flatMap_cons, List.map_append, ← his]
    exact congrArg (· ++ _) (List.map_congr_left hi)

theorem names_listedMarks (k : Nat) : (listedMarks p k is).map Mark.name =
    (is.flatMap (entriesAt p)).map Symbol.name :=
  map_listedMarks fun _ _ _ _ _ => rfl

/-! ### Consistency -/

/-- A verified program, assembled from a source, whose listing says all that there is to say, and
whose code and heap fit their addresses. -/
structure Relisting (name source : String) (ss : List Placed) (is : List Instruction)
    (p : Program) : Prop where
  statements : statements source = .ok ss
  compiles : Compiles name ss is p
  listable : Listable p
  relistable : Relistable p
  verified : p.Verified is
  wellTyped : ∀ s ∈ p.heap.slots, s.isWellTyped = true
  code : p.code.length < 2 ^ 32
  heap : p.heap.size ≤ 2 ^ 32

namespace Relisting

variable (h : Relisting name source ss is p)

include h

theorem operands : ∀ i ∈ is, i.operand.isSome = i.opcode.hasOperand := fun _ hi =>
  Instruction.operand_isSome_of_decodeFrom h.compiles.listed hi

theorem data : List.Forall₂ (Reads .data) (dataBody p) (dataStatements p) :=
  forall₂_dataStatements h.compiles h.statements h.listable h.relistable h.heap

theorem code_read : List.Forall₂ (Reads .code) (is.flatMap (blockLines p)) (codeStatements p is) :=
  forall₂_codeStatements h.listable (h.relistable.namesRead is) h.operands

theorem rereading : Rereading p is (codeStatements p is) :=
  rereading_of_forall₂ h.listable h.operands h.code_read

theorem instructions :
    instructionsOf (listingStatements p is) = is.map (listedInstruction p) := by
  rw [listingStatements, instructionsOf_listed h.listable h.data, instructionsOf_code]

theorem marks : marksOf (listingStatements p is) = listedMarks p 0 is := by
  rw [listingStatements, marksOf_listed h.listable h.data, marksFrom_code]

theorem names_marks :
    (marksOf (listingStatements p is)).map Mark.name = p.entryPoints.names := by
  rw [h.marks, names_listedMarks, h.compiles.flatMap_entriesAt h.verified h.code]
  rfl

theorem names_declarations :
    (declarationsOf (listingStatements p is)).map Declaration.name = p.symbols.names :=
  names_of_listed h.listable h.data h.rereading

/-- A listed variable gets the slot that it had. -/
theorem slot_eq {n : Nat} (hs : p.symbols.symbols[n]? = some s) :
    p.heap.slots[n]? =
      some (Declaration.slot ⟨s.name, s.type, initialAt p.heap s.address⟩) := by
  obtain ⟨slot, hslot, haddress, htype⟩ := h.compiles.exists_slot h.heap hs
  have hinitial := slot_initialOf
    (h.compiles.isWrittenSlot h.statements slot (List.mem_of_getElem? hslot))
  rw [hslot, Declaration.slot, initialAt, haddress, ← htype]
  exact congrArg some hinitial.symm

/-- Every name in the listing is declared in it. -/
theorem consistent : Consistent (listingStatements p is) where
  variables_nodup := by
    rw [h.names_declarations]
    exact p.symbols.names_nodup
  wellTyped := by
    rw [declarationsOf_listing h.rereading, List.forall_mem_map]
    intro s hs
    obtain ⟨n, hn⟩ := List.mem_iff_getElem?.1 hs
    exact h.wellTyped _ (List.mem_of_getElem? (h.slot_eq hn))
  labels_nodup := by
    rw [h.names_marks]
    exact p.entryPoints.names_nodup
  dataExports := by
    rw [exportsOf_data_listing, h.names_declarations, List.forall_mem_map]
    exact fun s hs => List.mem_map_of_mem (List.mem_of_mem_filter hs)
  syncs := by
    rw [syncsOf_listing h.rereading, h.names_declarations, List.forall_mem_map]
    exact h.listable.synced
  codeExports := by
    rw [exportsOf_code_listing, h.names_marks, h.compiles.flatMap_entriesAt h.verified h.code,
      List.forall_mem_map]
    exact fun s hs => List.mem_map_of_mem (List.mem_of_mem_filter hs)
  operands := by
    rw [h.instructions, List.forall_mem_map]
    intro i hi o ho
    obtain ⟨w, hw, rfl⟩ := Option.map_eq_some_iff.1 ho
    obtain hnumber | ⟨s, hs, hname⟩ := (h.relistable.namesRead is).listedOperand hi hw
    · rw [hnumber]
      trivial
    · rw [hname]
      change if i.opcode.takesCodeOffset = true then _ else _
      rw [h.names_marks, h.names_declarations]
      obtain ⟨-, ⟨hop, hs⟩ | ⟨hop, hs⟩⟩ := mem_of_operandSymbol? hs
      · rw [if_pos hop]
        exact List.mem_map_of_mem hs
      · rw [if_neg (by simp [hop])]
        exact List.mem_map_of_mem hs

theorem textsOf_listing : textsOf (instructionsOf (listingStatements p is)) = [] := by
  have hnone : (is.map (listedInstruction p)).filterMap (fun x => quoted? x.operand) = [] := by
    refine List.filterMap_eq_nil_iff.2 (List.forall_mem_map.2 fun i hi => ?_)
    change quoted? (i.operand.map (listedOperand p i.opcode)) = none
    cases hw : i.operand with
    | none => rfl
    | some w =>
      obtain hnumber | ⟨s, -, hname⟩ := (h.relistable.namesRead is).listedOperand hi hw
      · rw [Option.map_some, hnumber]
        rfl
      · rw [Option.map_some, hname]
        rfl
  rw [h.instructions, textsOf, hnone]
  rfl

end Relisting

/-! ### The program again -/

theorem contains_exported {t : SymbolTable} (hs : s ∈ t.symbols) :
    (t.exported.map Symbol.name).contains s.name = s.exported := by
  rw [Bool.eq_iff_iff, List.contains_iff_mem]
  constructor
  · intro hmem
    obtain ⟨s', hs', hname⟩ := List.mem_map.1 hmem
    obtain ⟨hs', hexported⟩ := List.mem_filter.1 hs'
    rwa [← List.inj_on_of_nodup_map t.names_nodup hs' hs hname]
  · exact fun hexported => List.mem_map_of_mem (List.mem_filter.2 ⟨hs, hexported⟩)

theorem Compiles.type_entryPoint (hc : Compiles name ss is p) (hs : s ∈ p.entryPoints.symbols) :
    s.type = .object := by
  rw [hc.entryPoints, List.map_map] at hs
  obtain ⟨m, -, rfl⟩ := List.mem_map.1 hs
  rfl

theorem foldl_add {t u : SyncTable} {before after : List SyncEntry}
    (ht : t.entries = before ++ after) (hu : u.entries = before) :
    after.foldl (fun u e => u.add e.name e.interpolation) u = t := by
  induction after generalizing u before with
  | nil => exact SyncTable.ext (by rw [List.foldl_nil, hu, ht, List.append_nil])
  | cons e after ih =>
    have hfresh : ¬ u.contains e.name = true := by
      rw [SyncTable.contains_iff, hu]
      exact fresh_of_nodup (ht ▸ t.names_nodup)
    rw [List.foldl_cons]
    refine ih (by rw [ht, List.append_cons]) ?_
    rw [SyncTable.entries_add_of_fresh _ hfresh, hu]

namespace Relisting

variable (h : Relisting name source ss is p)
  (hc' : Compiles name (listingStatements p is) is' p')

include h hc'

theorem heap_eq : p'.heap = p.heap := by
  have hslots : p'.heap.slots = p.heap.slots := by
    rw [hc'.slots, h.textsOf_listing, declarationsOf_listing h.rereading, List.map_nil,
      List.append_nil, List.map_map]
    refine List.ext_getElem? fun n => ?_
    rw [List.getElem?_map]
    cases hs : p.symbols.symbols[n]? with
    | some s => exact (h.slot_eq hs).symm
    | none =>
      have hle := List.getElem?_eq_none_iff.1 hs
      rw [← SymbolTable.size, ← h.compiles.heap_size] at hle
      exact (List.getElem?_eq_none_iff.2 hle).symm
  cases hp' : p'.heap
  cases hp : p.heap
  rw [hp', hp] at hslots
  exact congrArg Heap.mk hslots

theorem symbols_eq : p'.symbols = p.symbols := by
  refine SymbolTable.ext ?_
  rw [hc'.symbols, h.textsOf_listing, exportsOf_data_listing, declarationsOf_listing h.rereading]
  refine Eq.trans (List.append_nil _) (List.ext_getElem? fun n => ?_)
  rw [symbolsOf, List.getElem?_mapIdx, List.getElem?_map]
  cases hs : p.symbols.symbols[n]? with
  | none => rfl
  | some s =>
    simp only [Option.map_some, contains_exported (List.mem_of_getElem? hs),
      ← h.compiles.address_eq hs]

theorem code_eq : p'.code = p.code :=
  code_eq_of_namesRead h.compiles h.listable h.data h.rereading hc' (h.relistable.namesRead is)

theorem entryPoints_eq : p'.entryPoints = p.entryPoints := by
  have his : is' = is := by
    have hlisted := hc'.listed
    rw [h.code_eq hc', h.compiles.listed] at hlisted
    exact (Except.ok.inj hlisted).symm
  subst his
  have hentries := h.compiles.flatMap_entriesAt h.verified h.code
  refine SymbolTable.ext ?_
  rw [hc'.entryPoints, h.marks, exportsOf_code_listing, hentries, List.map_map]
  refine Eq.trans (map_listedMarks (g := id) fun n i hi e he => ?_) (by rw [hentries, List.map_id])
  obtain ⟨he, haddress⟩ := List.mem_filter.1 he
  have hoffset : offsetAt p' is' (0 + n) = e.address := by
    rw [Nat.zero_add, offsetAt, hi]
    exact (beq_iff_eq.1 haddress).symm
  have hexported :
      ((p.entryPoints.symbols.filter Symbol.exported).map Symbol.name).contains e.name =
        e.exported := contains_exported he
  simp only [Function.comp, entryOf, Mark.place, hoffset, hexported, id,
    ← h.compiles.type_entryPoint he]

theorem sync_eq : p'.sync = p.sync := by
  rw [hc'.sync, syncsOf_listing h.rereading, List.foldl_map]
  exact foldl_add rfl rfl

theorem program_eq : p' = p := by
  have hname : p'.name = p.name := hc'.name_eq.trans h.compiles.name_eq.symm
  have hset := hc'.instructionSet.trans h.compiles.instructionSet.symm
  have hversion := hc'.version.trans h.compiles.version.symm
  have hcode := h.code_eq hc'
  have hheap := h.heap_eq hc'
  have hsymbols := h.symbols_eq hc'
  have hentryPoints := h.entryPoints_eq hc'
  have hsync := h.sync_eq hc'
  cases p
  cases p'
  subst hname hset hversion hcode hheap hsymbols hentryPoints hsync
  rfl

end Relisting

/-! ### One instruction for each entry point -/

/-- A listing that can be assembled has no entry point at two instructions. -/
theorem pairwise_offset_of_reassembled (hl : Listable p) (hn : NamesRead p is)
    (his : p.instructions = .ok is) (htext : disassemble p = .ok text)
    (h : assemble name text = .ok p') :
    is.Pairwise fun i j => entriesAt p i = [] ∨ i.offset ≠ j.offset := by
  obtain ⟨is₀, his₀, hlines⟩ := lines_of_disassemble hl htext
  cases his.symm.trans his₀
  obtain ⟨ss', is', hss', hc'⟩ := exists_compiles h
  have hoperands : ∀ i ∈ is, i.operand.isSome = i.opcode.hasOperand := fun _ hi =>
    Instruction.operand_isSome_of_decodeFrom (mapError_eq_ok.1 his) hi
  obtain ⟨ds, cs, hds, hcs, rfl⟩ := (statements_listing hl hoperands hlines).1 hss'
  obtain ⟨rfl, -⟩ := (rereading_of_forall₂ hl hoperands hcs).eq_codeStatements
    fun _ hi => hn.not_endsInColon hi
  have hnodup : ((listedMarks p 0 is).map Mark.name).Nodup := by
    have hnames := p'.entryPoints.names_nodup
    rwa [hc'.entryPoints, List.map_map, List.map_map, marksOf_listed hl hds,
      marksFrom_code] at hnames
  rw [names_listedMarks, List.map_flatMap, List.nodup_flatMap] at hnodup
  refine hnodup.2.imp fun {i j} hdisjoint => ?_
  by_cases hoffset : i.offset = j.offset
  · have hsame : entriesAt p j = entriesAt p i := by
      unfold entriesAt
      rw [hoffset]
    rw [Function.onFun, hsame] at hdisjoint
    refine .inl (List.eq_nil_iff_forall_not_mem.2 fun e he => ?_)
    have hname := List.mem_map_of_mem (f := Symbol.name) he
    exact hdisjoint hname hname
  · exact .inr hoffset

/-! ### Beyond the addresses -/

/-- A sled that is longer than the offsets passes the checks, but its listing is refused. -/
theorem exists_sled_refused (hname : '\n' ∉ name.toList) {n : Nat} (hn : 2 ^ 30 < n) :
    ∃ p text, assemble name (sledSource n) = .ok p ∧ p.verify = .ok () ∧ Relistable p ∧
      p.heap.size = 0 ∧ disassemble p = .ok text ∧ ∀ p', assemble name text ≠ .ok p' := by
  obtain ⟨p, is, hp, hc⟩ := exists_sled name n
  have hverify := hc.verify_sled (by omega)
  have hl := hc.listable (statements_sledSource n) (hc.name_eq ▸ hname) hverify
  have his : p.instructions = .ok is := mapError_eq_ok.2 hc.listed
  obtain ⟨text, htext⟩ : ∃ text, disassemble p = .ok text := ⟨_, bind_eq_ok.2 ⟨is, his, rfl⟩⟩
  have hr : Relistable p := by
    constructor
    · simp [hc.symbols_sled]
    · rw [hc.entryPoints_sled, List.forall_mem_singleton]
      decide
    · simp [hc.symbols_sled]
    · simp [hc.heap_sled]
  have hheap : p.heap.size = 0 := by rw [Heap.size, hc.heap_sled, List.length_nil]
  refine ⟨p, text, hp, hverify, hr, hheap, htext, fun p' hp' => ?_⟩
  obtain ⟨i, j, hij, hj, hi_offset, hj_offset⟩ := hc.exists_overlap hn
  have hpairwise := pairwise_offset_of_reassembled hl (hr.namesRead is) his htext hp'
  obtain hnone | hne := List.pairwise_iff_getElem.1 hpairwise i j (hij.trans hj) hj hij
  · simp [entriesAt, hc.entryPoints_sled, hi_offset] at hnone
  · exact hne (hi_offset.trans hj_offset.symm)

/-- A crowd that is larger than the addresses passes the checks, but its listing is assembled to
another program, if at all. -/
theorem exists_crowd_differs (hname : '\n' ∉ name.toList) {n : Nat} (hn : 2 ^ 32 ≤ n) :
    ∃ p text, assemble name (crowdSource n) = .ok p ∧ p.verify = .ok () ∧ Relistable p ∧
      p.code = [] ∧ disassemble p = .ok text ∧ ∀ p', assemble name text = .ok p' → p' ≠ p := by
  obtain ⟨p, is, hp, hc⟩ := exists_crowd name n
  have his : p.instructions = .ok is := mapError_eq_ok.2 hc.listed
  obtain ⟨text, htext⟩ : ∃ text, disassemble p = .ok text := ⟨_, bind_eq_ok.2 ⟨is, his, rfl⟩⟩
  have hr : Relistable p := by
    constructor
    case symbols =>
      intro s hs
      obtain ⟨v, hv, k, -, rfl⟩ := hc.symbols_crowd hs
      exact isIdentifier_of_mem_crowd v hv
    case entryPoints => simp [hc.entryPoints_crowd]
    case types =>
      intro s hs
      obtain ⟨v, -, k, -, rfl⟩ := hc.symbols_crowd hs
      exact ⟨nofun, nofun⟩
    case strings =>
      intro slot hslot t ht
      rw [hc.heap_crowd] at hslot
      obtain hslot | hslot := List.mem_append.1 hslot
      · cases List.eq_of_mem_replicate hslot
        cases ht
      · cases List.mem_singleton.1 hslot
        cases ht
  exact ⟨p, text, hp, hc.verify_crowd, hr, hc.code_crowd, htext,
    fun p' hp' => hc.ne_of_crowd_reassembled hn hname htext hp'⟩

/-! ### The round trip -/

/-- **A program is what its listing is assembled to**, if its names are identifiers, it has no
floating-point variables and its strings have only characters with a key. Code and heap have to fit
their addresses: two instructions with one offset, or two variables with one address, could not be
told apart in a listing. -/
theorem assemble_disassemble (hname : '\n' ∉ name.toList) (h : assemble name source = .ok p)
    (hverify : p.verify = .ok ()) (hr : Relistable p) (hcode : p.code.length < 2 ^ 32)
    (hheap : p.heap.size ≤ 2 ^ 32) :
    ∃ text, disassemble p = .ok text ∧ assemble name text = .ok p := by
  obtain ⟨ss, is, hss, hc⟩ := exists_compiles h
  have hstructure := Program.verifyStructure_of_verify hverify
  have his : p.instructions = .ok is := mapError_eq_ok.2 hc.listed
  have hl := hc.listable hss (hc.name_eq ▸ hname) hverify
  have hrelisting : Relisting name source ss is p :=
    ⟨hss, hc, hl, hr, Program.verified_of_verifyStructure hstructure his,
      (Program.tables_of_verifyStructure hstructure).1, hcode, hheap⟩
  obtain ⟨text, htext⟩ : ∃ text, disassemble p = .ok text := ⟨_, bind_eq_ok.2 ⟨is, his, rfl⟩⟩
  obtain ⟨is₀, his₀, hlines⟩ := lines_of_disassemble hl htext
  cases his.symm.trans his₀
  have hstatements : statements text = .ok (listingStatements p is) :=
    (statements_listing hl hrelisting.operands hlines).2
      ⟨_, _, hrelisting.data, hrelisting.code_read, rfl⟩
  obtain ⟨p', is', hp', hc'⟩ := exists_assembled name hstatements hrelisting.consistent
  exact ⟨text, htext, by rw [hp', hrelisting.program_eq hc']⟩

/-- A source with a quoted comment sign, a signature and two labels at one instruction. -/
def greetingSource : String :=
  ".data_start\n n: %SystemInt32, -1\n s: %SystemString, \"a\\n# \\\"b\"\n.data_end\n" ++
    ".code_start\n.export go\n go:\n again:\n PUSH, n\n EXTERN, \"f\"\n JUMP, again\n.code_end"

theorem assemble_disassemble_greeting :
    ∃ p text, assemble "greeting" greetingSource = .ok p ∧ disassemble p = .ok text ∧
      assemble "greeting" text = .ok p := by
  have hrun : (assemble "greeting" greetingSource).toOption.any (fun p =>
      p.verify.toOption.isSome && decide (Relistable p) && decide (p.code.length < 2 ^ 32) &&
        decide (p.heap.size ≤ 2 ^ 32)) = true := by decide +kernel
  obtain ⟨p, hp, h⟩ := (Option.any_eq_true _ _).1 hrun
  simp only [Bool.and_eq_true, decide_eq_true_eq] at h
  obtain ⟨⟨⟨hverify, hr⟩, hcode⟩, hheap⟩ := h
  obtain ⟨_, hverify⟩ := Option.isSome_iff_exists.1 hverify
  have hp := toOption_eq_some.1 hp
  obtain ⟨text, htext, hagain⟩ := assemble_disassemble (by decide) hp (toOption_eq_some.1 hverify)
    hr hcode hheap
  exact ⟨p, text, hp, htext, hagain⟩

/-- Both bounds are needed. Behind 2 ^ 30 instructions of four bytes the offsets begin again, and
the label in front of the first instruction is listed at the next one as well; behind 2 ^ 32
variables the addresses begin again, and the next variable is listed with the number of the first
one. -/
theorem relisted_beyond_addresses : '\n' ∉ "wide".toList ∧
    (∃ p text, assemble "wide" (sledSource (2 ^ 30 + 1)) = .ok p ∧ p.verify = .ok () ∧
      Relistable p ∧ p.heap.size = 0 ∧ disassemble p = .ok text ∧
        ∀ p', assemble "wide" text ≠ .ok p') ∧
    ∃ p text, assemble "wide" (crowdSource (2 ^ 32)) = .ok p ∧ p.verify = .ok () ∧
      Relistable p ∧ p.code = [] ∧ disassemble p = .ok text ∧
        ∀ p', assemble "wide" text = .ok p' → p' ≠ p := by
  have hname : '\n' ∉ "wide".toList := by decide
  exact ⟨hname, exists_sled_refused hname (Nat.lt_succ_self _), exists_crowd_differs hname le_rfl⟩

end EventVm.Assembly
