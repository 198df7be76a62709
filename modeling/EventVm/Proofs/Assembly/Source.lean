import EventVm.Proofs.Program.Building

/-!
# What a source says

The statements of a source, read line by line, and what they amount to taken together: the declared
variables, the exported and the synced names, the instructions and, for each label, the number of
instructions in front of it.
-/

namespace EventVm.Assembly

/-- A statement and the region that it stands in. -/
structure Placed where
  region : Region
  statement : Statement
  deriving DecidableEq, Repr

/-- The region behind a statement. -/
def Region.after (r : Region) : Statement → Region
  | .enter r' => r'
  | _ => r

/-- The region behind statements one after the other. -/
def Region.behind (r : Region) (ss : List Placed) : Region :=
  ss.foldl (fun r s => r.after s.statement) r

/-- The statement of a line as it stands in the source; a line without text has none. -/
def statement? (r : Region) (raw : List Char) : Except LineFault (Option Statement) :=
  let text := Text.trim (stripComment false raw)
  if text.isEmpty then .ok none else (parseStatement r text).map some

/-- The statements of lines that begin in a region. -/
def statementsFrom (r : Region) : List (List Char) → Except LineFault (List Placed)
  | [] => .ok []
  | raw :: raws => do
    match ← statement? r raw with
    | none => statementsFrom r raws
    | some s => return ⟨r, s⟩ :: (← statementsFrom (r.after s) raws)

/-- The statements of a source. -/
def statements (source : String) : Except LineFault (List Placed) :=
  statementsFrom .outside (Text.lines source.toList)

/-! ### Taken together -/

/-- A variable as declared. -/
structure Declaration where
  name : String
  type : TypeTag
  initial : Initial
  deriving DecidableEq, Repr

/-- The slot of a declared variable. -/
def Declaration.slot (v : Declaration) : Slot :=
  v.initial.slot v.type

/-- The declared variables. -/
def declarationsOf (ss : List Placed) : List Declaration :=
  ss.filterMap fun s => match s.statement with
    | .declare name type initial => some ⟨name, type, initial⟩
    | _ => none

/-- The names exported in regions of one kind. -/
def exportsOf (r : Region) (ss : List Placed) : List String :=
  ss.filterMap fun s => match s.statement with
    | .exportName name => if s.region = r then some name else none
    | _ => none

/-- The synced names. -/
def syncsOf (ss : List Placed) : List (String × Interpolation) :=
  ss.filterMap fun s => match s.statement with
    | .sync name i => some (name, i)
    | _ => none

/-- The instructions. -/
def instructionsOf (ss : List Placed) : List SourceInstruction :=
  ss.filterMap fun s => match s.statement with
    | .instruction op operand => some ⟨op, operand⟩
    | _ => none

/-- A label and the number of instructions in front of it. -/
structure Mark where
  name : String
  index : Nat
  deriving DecidableEq, Repr

/-- The labels of statements with `k` instructions in front of them. -/
def marksFrom (k : Nat) : List Placed → List Mark
  | [] => []
  | s :: ss => match s.statement with
    | .label name => ⟨name, k⟩ :: marksFrom k ss
    | .instruction _ _ => marksFrom (k + 1) ss
    | _ => marksFrom k ss

/-- The labels. -/
def marksOf (ss : List Placed) : List Mark :=
  marksFrom 0 ss

/-- The text in quotes that an operand is. -/
def quoted? : Option Operand → Option String
  | some (.string t) => some t
  | _ => none

/-- The texts in quotes among the operands, each where it stands first. -/
def textsOf (xs : List SourceInstruction) : List String :=
  (xs.filterMap fun x => quoted? x.operand).eraseDups

/-! ### Sources in parts -/

variable {r : Region} {ss ts : List Placed} {s : Placed}

@[simp]
theorem declarationsOf_append :
    declarationsOf (ss ++ ts) = declarationsOf ss ++ declarationsOf ts :=
  List.filterMap_append

@[simp]
theorem exportsOf_append : exportsOf r (ss ++ ts) = exportsOf r ss ++ exportsOf r ts :=
  List.filterMap_append

@[simp]
theorem syncsOf_append : syncsOf (ss ++ ts) = syncsOf ss ++ syncsOf ts :=
  List.filterMap_append

@[simp]
theorem instructionsOf_append :
    instructionsOf (ss ++ ts) = instructionsOf ss ++ instructionsOf ts :=
  List.filterMap_append

theorem declarationsOf_eq_nil
    (h : ∀ s ∈ ss, ∀ name type initial, s.statement ≠ .declare name type initial) :
    declarationsOf ss = [] := by
  refine List.filterMap_eq_nil_iff.2 fun s hs => ?_
  split
  · next heq => exact absurd heq (h s hs _ _ _)
  · rfl

theorem instructionsOf_eq_nil (h : ∀ s ∈ ss, ∀ op operand, s.statement ≠ .instruction op operand) :
    instructionsOf ss = [] := by
  refine List.filterMap_eq_nil_iff.2 fun s hs => ?_
  split
  · next heq => exact absurd heq (h s hs _ _)
  · rfl

theorem marksFrom_eq_nil {k : Nat} (h : ∀ s ∈ ss, ∀ name, s.statement ≠ .label name) :
    marksFrom k ss = [] := by
  induction ss generalizing k with
  | nil => rfl
  | cons s ss ih =>
    obtain ⟨hs, hss⟩ := List.forall_mem_cons.1 h
    unfold marksFrom
    split
    · next heq => exact absurd heq (hs _)
    · exact ih hss
    · exact ih hss

theorem marksFrom_append (k : Nat) : marksFrom k (ss ++ ts) =
    marksFrom k ss ++ marksFrom (k + (instructionsOf ss).length) ts := by
  induction ss generalizing k with
  | nil => rfl
  | cons s ss ih =>
    obtain ⟨r, s⟩ := s
    cases s with
    | label name => simp [marksFrom, ih, instructionsOf]
    | instruction op operand =>
      simp only [List.cons_append, marksFrom, ih, instructionsOf, List.filterMap_cons,
        List.length_cons]
      congr 2
      omega
    | enter _ | exportName _ | sync _ _ | declare _ _ _ =>
      simp [marksFrom, ih, instructionsOf]

@[simp]
theorem marksOf_append : marksOf (ss ++ ts) =
    marksOf ss ++ marksFrom (instructionsOf ss).length ts := by
  rw [marksOf, marksFrom_append, Nat.zero_add]
  rfl

section Lines

variable {raw : List Char} {raws : List (List Char)}

theorem statementsFrom_blank (h : statement? r raw = .ok none) :
    statementsFrom r (raw :: raws) = statementsFrom r raws := by
  rw [statementsFrom, h]
  rfl

theorem statementsFrom_statement {s : Statement} (h : statement? r raw = .ok (some s)) :
    statementsFrom r (raw :: raws) = (statementsFrom (r.after s) raws).map (⟨r, s⟩ :: ·) := by
  rw [statementsFrom, h]
  change statementsFrom (r.after s) raws >>= _ = _
  cases statementsFrom (r.after s) raws with
  | error e => rfl
  | ok ts => rfl

/-- The statements of lines are those of the first lines and, in the region behind these, those of
the others. -/
theorem exists_statementsFrom_append {raws' : List (List Char)}
    (h : statementsFrom r (raws ++ raws') = .ok ss) :
    ∃ ss₁ ss₂, statementsFrom r raws = .ok ss₁ ∧ statementsFrom (r.behind ss₁) raws' = .ok ss₂ ∧
      ss = ss₁ ++ ss₂ := by
  induction raws generalizing r ss with
  | nil => exact ⟨[], ss, rfl, h, rfl⟩
  | cons raw raws ih =>
    rw [List.cons_append] at h
    rcases hraw : statement? r raw with fault | _ | s
    · rw [statementsFrom, hraw] at h
      cases h
    · rw [statementsFrom_blank hraw] at h ⊢
      exact ih h
    · rw [statementsFrom_statement hraw] at h ⊢
      obtain ⟨ts, hts, rfl⟩ := map_eq_ok.1 h
      obtain ⟨ss₁, ss₂, hss₁, hss₂, rfl⟩ := ih hts
      exact ⟨⟨r, s⟩ :: ss₁, ss₂, map_eq_ok.2 ⟨ss₁, hss₁, rfl⟩, hss₂, rfl⟩

end Lines

/-! ### Single statements -/

/-- The initial value that the text behind a type writes. -/
def parseInitial (type : TypeTag) : Option (List Char) → Except LineFault Initial
  | none => .ok .default
  | some literal =>
    if literal = "this".toList then .ok .this
    else match initialValue? type literal with
      | some v => .ok (.value v)
      | none => .error (.invalidLiteral type (String.ofList literal))

/-- What a line of text can say in a region. -/
inductive Says (r : Region) (text : List Char) : Statement → Prop
  | enter (r' : Region) (hregion : region? text = some r') : Says r text (.enter r')
  | exportName (rest : List Char) (hrest : afterKeyword? ".export".toList text = some rest)
      (hr : r ≠ .outside) (hname : Text.trim rest ≠ []) :
      Says r text (.exportName (String.ofList (Text.trim rest)))
  | sync (rest : List Char) (name : String) (i : Interpolation)
      (hrest : afterKeyword? ".sync".toList text = some rest) (hr : r = .data) :
      Says r text (.sync name i)
  | declare (head tail : List Char) (type : TypeTag) (literal : Option (List Char))
      (initial : Initial) (hr : r = .data) (htext : text = head ++ ':' :: tail) (hhead : ':' ∉ head)
      (hinitial : parseInitial type literal = .ok initial)
      (hexport : afterKeyword? ".export".toList text = none)
      (hsync : afterKeyword? ".sync".toList text = none) :
      Says r text (.declare (String.ofList (Text.trim head)) type initial)
  | label (head : List Char) (hr : r = .code) (htext : text = head ++ [':'])
      (hexport : afterKeyword? ".export".toList text = none)
      (hsync : afterKeyword? ".sync".toList text = none) :
      Says r text (.label (String.ofList (Text.trim head)))
  | instruction (op : Opcode) (operand : Option Operand) (hr : r = .code)
      (hoperand : operand.isSome = op.hasOperand) : Says r text (.instruction op operand)

variable {text : List Char} {s : Statement}

theorem says_of_parseSync {rest : List Char} (hrest : afterKeyword? ".sync".toList text = some rest)
    (h : parseSync r rest = .ok s) : Says r text s := by
  unfold parseSync at h
  split at h
  · cases h
  · next hr =>
    have hr : r = .data := not_not.1 hr
    dsimp only at h
    split at h
    · cases h
      exact .sync rest _ _ hrest hr
    · split at h
      · cases h
        exact .sync rest _ _ hrest hr
      · cases h

theorem parseDeclaration_of_parts {head tail typeName : List Char} {literal : Option (List Char)}
    {type : TypeTag} (hsplit : Text.splitAt? ':' text = some (head, tail))
    (hcomma : splitComma (Text.trim tail) = ('%' :: typeName, literal))
    (htype : TypeTag.ofName? (String.ofList typeName) = some type) :
    parseDeclaration text =
      (parseInitial type literal).map (.declare (String.ofList (Text.trim head)) type) := by
  unfold parseDeclaration
  rw [hsplit]
  simp only [hcomma, htype]
  unfold parseInitial
  cases literal with
  | none => rfl
  | some literal =>
    by_cases hthis : literal = "this".toList
    · simp only [if_pos hthis]
      rfl
    · simp only [if_neg hthis]
      cases initialValue? type literal with
      | none => rfl
      | some v => rfl

theorem parseDeclaration_ok (h : parseDeclaration text = .ok s) :
    ∃ head tail type literal initial, Text.splitAt? ':' text = some (head, tail) ∧
      parseInitial type literal = .ok initial ∧
      s = .declare (String.ofList (Text.trim head)) type initial := by
  have hparts := h
  unfold parseDeclaration at h
  split at h
  · next head tail hsplit =>
    dsimp only at h
    split at h
    · next typeName htypeText =>
      split at h
      · next type htype =>
        have hcomma : splitComma (Text.trim tail) = ('%' :: typeName, _) :=
          Prod.ext htypeText rfl
        rw [parseDeclaration_of_parts hsplit hcomma htype] at hparts
        obtain ⟨initial, hinitial, rfl⟩ := map_eq_ok.1 hparts
        exact ⟨head, tail, type, _, initial, hsplit, hinitial, rfl⟩
      · cases h
    · cases h
  · cases h

theorem says_of_parseDeclaration (hexport : afterKeyword? ".export".toList text = none)
    (hsync : afterKeyword? ".sync".toList text = none) (h : parseDeclaration text = .ok s) :
    Says .data text s := by
  obtain ⟨head, tail, type, literal, initial, hsplit, hinitial, rfl⟩ := parseDeclaration_ok h
  obtain ⟨htext, hhead⟩ := Text.splitAt?_eq_some hsplit
  exact .declare head tail type literal initial rfl htext hhead hinitial hexport hsync

theorem says_of_parseInstruction (h : parseInstruction text = .ok s) : Says .code text s := by
  unfold parseInstruction at h
  dsimp only at h
  split at h
  · next op _ =>
    split at h
    · by_cases hop : op.hasOperand = true
      · simp [hop] at h
      · simp [hop] at h
        cases h
        exact .instruction op none rfl (by simpa using hop)
    · obtain ⟨operand, -, h⟩ := bind_eq_ok.1 h
      by_cases hop : op.hasOperand = true
      · simp [hop] at h
        cases h
        exact .instruction op (some operand) rfl hop.symm
      · simp [hop] at h
  · cases h

theorem says_of_parseStatement (h : parseStatement r text = .ok s) : Says r text s := by
  unfold parseStatement at h
  split at h
  · next r' hregion =>
    cases h
    exact .enter r' hregion
  · split at h
    · next rest hrest =>
      unfold parseExport at h
      dsimp only at h
      split at h
      · cases h
      · next hname =>
        split at h
        · cases h
        · next hr =>
          cases h
          exact .exportName rest hrest hr (by simpa using hname)
    · next hrest => exact says_of_parseSync hrest h
    · next hexport hsync =>
      cases r with
      | outside => cases h
      | data => exact says_of_parseDeclaration hexport hsync h
      | code =>
        change parseCodeLine text = .ok s at h
        unfold parseCodeLine Text.dropLast? at h
        by_cases hlast : text.getLast? = some ':'
        · rw [if_pos hlast] at h
          cases h
          obtain ⟨head, htext⟩ := List.getLast?_eq_some_iff.1 hlast
          rw [show text.dropLast = head by rw [htext, List.dropLast_concat]]
          exact .label head rfl htext hexport hsync
        · rw [if_neg hlast] at h
          exact says_of_parseInstruction h

theorem says_of_statement? {raw : List Char} (h : statement? r raw = .ok (some s)) :
    Says r (Text.trim (stripComment false raw)) s := by
  unfold statement? at h
  dsimp only at h
  split at h
  · cases h
  · obtain ⟨s', hs', h⟩ := map_eq_ok.1 h
    cases h
    exact says_of_parseStatement hs'

theorem says_of_statementsFrom {raws : List (List Char)} (h : statementsFrom r raws = .ok ss) :
    ∀ s ∈ ss, ∃ raw ∈ raws, Says s.region (Text.trim (stripComment false raw)) s.statement := by
  induction raws generalizing r ss with
  | nil =>
    cases h
    exact fun s hs => nomatch hs
  | cons raw raws ih =>
    cases hraw : statement? r raw with
    | error e =>
      rw [statementsFrom, hraw] at h
      cases h
    | ok text =>
      cases text with
      | none =>
        rw [statementsFrom_blank hraw] at h
        intro s hs
        obtain ⟨raw', hraw', hsays⟩ := ih h s hs
        exact ⟨raw', List.mem_cons_of_mem raw hraw', hsays⟩
      | some s₀ =>
        rw [statementsFrom_statement hraw] at h
        obtain ⟨ts, hts, rfl⟩ := map_eq_ok.1 h
        intro s hs
        obtain rfl | hs := List.mem_cons.1 hs
        · exact ⟨raw, List.mem_cons_self, says_of_statement? hraw⟩
        · obtain ⟨raw', hraw', hsays⟩ := ih hts s hs
          exact ⟨raw', List.mem_cons_of_mem raw hraw', hsays⟩

end EventVm.Assembly
