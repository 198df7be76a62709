import EventVm.CommandLine.Commands
import EventVm.Proofs.Assembly.InitialValues
import EventVm.Proofs.Program.Tables
import EventVm.Proofs.World.Activation

/-!
# Shown values set again

A run shows its exported variables with their values. Such a value can be given back on the command
line, where it is read by a rule of its own: integers and Booleans are read as in assembly text, a
string needs no quotes, and what stands between quotes is taken as it stands. So null, which is
shown without quotes, comes back as a string of four letters.

* `assignment?_eq_some`: the names that a setting can have;
* `argumentValue?_display`: what the text of a value sets a variable to;
* `supplied?_insert`: the value that is left at the place of a variable that is set last;
* `set_shown`: from the argument to the variable of the activated behaviour.
-/

namespace EventVm

/-! ### Tables with one more entry -/

namespace PublicVariables

variable {t : PublicVariables} {name : String} {type : TypeTag} {value : Value}
  {v x : PublicVariable} {ws : List PublicVariable}

theorem mem_insertEntry_self (v : PublicVariable) (ws : List PublicVariable) :
    v ∈ insertEntry v ws := by
  induction ws with
  | nil => exact List.mem_singleton_self v
  | cons w ws ih =>
    unfold insertEntry
    split
    · exact List.mem_cons_self
    split
    · exact List.mem_cons_self
    · exact List.mem_cons_of_mem w ih

/-- Only an entry of the same name makes room for another one. -/
theorem mem_insertEntry_of_ne (hx : x ∈ ws) (hname : x.name ≠ v.name) :
    x ∈ insertEntry v ws := by
  induction ws with
  | nil => cases hx
  | cons w ws ih =>
    unfold insertEntry
    split
    · exact List.mem_cons_of_mem v hx
    rcases List.mem_cons.1 hx with rfl | hx
    · rw [if_neg hname.symm]
      exact List.mem_cons_self
    split
    · exact List.mem_cons_of_mem v hx
    · exact List.mem_cons_of_mem w (ih hx)

/-- The entries of a table in which a variable has been supplied: its own one, and those of other
names. -/
theorem mem_insert : x ∈ (t.insert name type value).entries ↔
    x = ⟨name, type, value⟩ ∨ (x ∈ t.entries ∧ x.name ≠ name) := by
  have hself : ⟨name, type, value⟩ ∈ (t.insert name type value).entries :=
    mem_insertEntry_self _ t.entries
  constructor
  · intro hx
    by_cases hname : x.name = name
    · exact .inl (List.inj_on_of_nodup_map (t.insert name type value).names_nodup hx hself hname)
    · rcases mem_insertEntry hx with rfl | hx
      · exact absurd rfl hname
      · exact .inr ⟨hx, hname⟩
  · rintro (rfl | ⟨hx, hname⟩)
    · exact hself
    · exact mem_insertEntry_of_ne hx hname

end PublicVariables

/-! ### The place of a variable -/

namespace Program

variable {p : Program} {s : Symbol} {t : PublicVariables} {u v : PublicVariable} {i : Nat}
  {value : Value} {vs : List PublicVariable}

/-- The place of a variable that a checked program takes is that of its symbol. -/
theorem place?_of_fits (hv : p.verifyStructure = .ok ()) (hs : s ∈ p.symbols.symbols)
    (he : s.exported = true) (hfits : value.fits s.type = true) :
    p.place? ⟨s.name, s.type, value⟩ = some s.address.toNat := by
  have hfound := SymbolTable.get?_of_mem hs
  have haccepts := accepts_of_verifyStructure hv hfound value
  unfold place?
  rw [hfound]
  exact if_pos ⟨he, rfl, haccepts.trans hfits⟩

/-- Variables of one name have no two places. -/
theorem place?_of_name (hs : s ∈ p.symbols.symbols) (hname : v.name = s.name)
    (hi : p.place? v = some i) : i = s.address.toNat := by
  unfold place? at hi
  rw [hname, SymbolTable.get?_of_mem hs] at hi
  dsimp only at hi
  split at hi
  · exact (Option.some.inj hi).symm
  · cases hi

/-- The value left at a place is that of the variables that belong there, if they agree. -/
theorem supplied?_of_forall (hu : u ∈ vs) (hplace : p.place? u = some i)
    (hall : ∀ v ∈ vs, p.place? v = some i → v.value = value) :
    p.supplied? vs i = some value := by
  unfold supplied?
  rcases hlast : (vs.filter fun v => p.place? v = some i).getLast? with _ | v
  · rw [List.getLast?_eq_none_iff] at hlast
    have hmem : u ∈ vs.filter fun v => p.place? v = some i :=
      List.mem_filter.2 ⟨hu, decide_eq_true hplace⟩
    rw [hlast] at hmem
    cases hmem
  · obtain ⟨hv, hi⟩ := List.mem_filter.1 (List.mem_of_getLast? hlast)
    exact congrArg some (hall v hv (of_decide_eq_true hi))

/-- The value left at the place of a variable that is supplied, if none of another name belongs
there. -/
theorem supplied?_insert (hv : p.verifyStructure = .ok ()) (hs : s ∈ p.symbols.symbols)
    (he : s.exported = true) (hfits : value.fits s.type = true)
    (hall : ∀ u ∈ t.entries, u.name ≠ s.name → p.place? u ≠ some s.address.toNat) :
    p.supplied? (t.insert s.name s.type value).entries s.address.toNat = some value := by
  refine supplied?_of_forall (PublicVariables.mem_insert.2 (.inl rfl))
    (place?_of_fits hv hs he hfits) fun u hu hplace => ?_
  rcases PublicVariables.mem_insert.1 hu with rfl | ⟨hu, hname⟩
  · rfl
  · exact absurd hplace (hall u hu hname)

/-- A place where a variable belonged is not left without one when another is supplied. -/
theorem unplaced_of_insert (hv : p.verifyStructure = .ok ()) (hs : s ∈ p.symbols.symbols)
    (he : s.exported = true) (hfits : value.fits s.type = true)
    (hnone : ∀ u ∈ (t.insert s.name s.type value).entries, p.place? u ≠ some i) :
    ∀ u ∈ t.entries, p.place? u ≠ some i := by
  intro u hu hi
  by_cases hname : u.name = s.name
  · rw [place?_of_name hs hname hi] at hnone
    exact hnone _ (PublicVariables.mem_insert.2 (.inl rfl)) (place?_of_fits hv hs he hfits)
  · exact hnone u (PublicVariables.mem_insert.2 (.inr ⟨hu, hname⟩)) hi

end Program

namespace CommandLine

open Text Value World

/-! ### Names -/

/-- The names that a setting can have. -/
structure IsSettable (name : String) : Prop where
  ne_nil : name.toList ≠ []
  trimmed : IsTrimmed name.toList
  uncut : '=' ∉ name.toList

instance : DecidablePred IsSettable := fun name =>
  decidable_of_iff (name.toList ≠ [] ∧ IsTrimmed name.toList ∧ '=' ∉ name.toList)
    ⟨fun ⟨hne, htrimmed, huncut⟩ => ⟨hne, htrimmed, huncut⟩,
      fun ⟨hne, htrimmed, huncut⟩ => ⟨hne, htrimmed, huncut⟩⟩

section Names

variable {name value text : String}

/-- Whatever is read as a setting has such a name. -/
theorem isSettable_of_assignment? (h : assignment? text = some (name, value)) :
    IsSettable name := by
  obtain ⟨⟨front, back⟩, hsplit, h⟩ := Option.bind_eq_some_iff.1 h
  obtain ⟨-, hfront⟩ := splitAt?_eq_some hsplit
  dsimp only at h
  split at h
  · cases h
  · next hempty =>
    obtain ⟨bs, bs', -, -, htrim⟩ := exists_trim front
    obtain ⟨rfl, -⟩ := Prod.mk.inj (Option.some.inj h)
    have huncut : '=' ∉ trim front := by
      intro hequal
      apply hfront
      rw [htrim]
      simp [hequal]
    constructor <;> rw [String.toList_ofList]
    · exact fun hnil => hempty (List.isEmpty_iff.2 hnil)
    · exact isTrimmed_trim front
    · exact huncut

/-- A name can be set exactly if the text behind the first equals sign is the value. -/
theorem assignment?_eq_some :
    assignment? (name ++ "=" ++ value) = some (name, value) ↔ IsSettable name := by
  refine ⟨isSettable_of_assignment?, fun h => ?_⟩
  have htext : (name ++ "=" ++ value).toList = name.toList ++ '=' :: value.toList := by
    rw [String.toList_append, String.toList_append, List.append_assoc]
    rfl
  have hempty : ¬ name.toList.isEmpty = true := fun hnil => h.ne_nil (List.isEmpty_iff.1 hnil)
  unfold assignment?
  rw [htext, splitAt?_append h.uncut, Option.bind_eq_bind, Option.bind_some]
  dsimp only
  rw [show trim name.toList = name.toList from h.trimmed, if_neg hempty, String.ofList_toList,
    String.ofList_toList]

example : IsSettable "step" ∧ ¬ IsSettable "a=b" := by decide

end Names

/-! ### Arguments -/

section Arguments

variable {name value text : String}

theorem ofText_set (text : String) :
    Argument.ofText ("--set=" ++ text) = .long "set" (some text) := by
  have htext : ("--set=" ++ text).toList = '-' :: '-' :: 's' :: 'e' :: 't' :: '=' :: text.toList :=
    String.toList_append
  unfold Argument.ofText
  rw [htext]
  simp [splitAt?]

/-- An assignment may stand in one argument with its option. -/
theorem readArguments_attached (h : IsSettable name) (a : Collected) (rest : List String) :
    readArguments .run a (("--set=" ++ (name ++ "=" ++ value)) :: rest) =
      readArguments .run { a with assignments := a.assignments ++ [(name, value)] } rest := by
  rw [readArguments, ofText_set]
  simp [longOption?, takeOption, Collected.setOption, assignment?_eq_some.2 h]

/-- A text that does not begin with a hyphen can be the value of an option. -/
theorem isValue_of_head? (h : text.toList.head? ≠ some '-') : isValue text = true := by
  have hform : Argument.ofText text = .file text := by
    unfold Argument.ofText
    split
    · next hc => exact absurd (by rw [hc]; rfl) h
    · next hc => exact absurd (by rw [hc]; rfl) h
    · next hc => exact absurd (by rw [hc]; rfl) h
    · rfl
  rw [isValue, hform]

/-- It may be the next argument if it does not look like an option. -/
theorem readArguments_detached (h : IsSettable name) (hhyphen : name.toList.head? ≠ some '-')
    (a : Collected) (rest : List String) :
    readArguments .run a ("--set" :: (name ++ "=" ++ value) :: rest) =
      readArguments .run { a with assignments := a.assignments ++ [(name, value)] } rest := by
  have hform : Argument.ofText "--set" = .long "set" none := by decide
  have hvalue : isValue (name ++ "=" ++ value) = true := by
    apply isValue_of_head?
    obtain ⟨c, cs, hname⟩ := List.exists_cons_of_ne_nil h.ne_nil
    rw [String.toList_append, String.toList_append, hname]
    rwa [hname] at hhyphen
  rw [readArguments, hform]
  simp [longOption?, takeOption, Collected.setOption, assignment?_eq_some.2 h, hvalue]

end Arguments

/-! ### Values -/

/-- The types whose values can be set from what is shown of them. -/
def settableTypes : List TypeTag :=
  [.boolean, .int32, .int64, .uint32, .string]

/-- Whether a value is shown by its own characters: in a string, none has an escape. -/
def IsPlain (v : Value) : Prop :=
  ∀ text, v = .string text → ∀ c ∈ text.toList, escape c = [c]

/-- What the text that shows a value sets a variable to. Null is shown without quotes, and is taken
for a string. -/
def setTo : Value → Value
  | .null => .string "null"
  | v => v

section Values

variable {t : TypeTag} {text : String} {v : Value}

/-- A string needs no quotes: any text that does not begin with one is taken as it stands. -/
theorem argumentValue?_unquoted (h : (trimStart text.toList).head? ≠ some '"') :
    argumentValue? .string text = some (.string text) :=
  if_pos ⟨rfl, h⟩

theorem argumentValue?_of_ne_string (h : t ≠ .string) (text : String) :
    argumentValue? t text = ofLiteral? t text.toList :=
  if_neg fun hand => h hand.1

theorem argumentValue?_quote (h : ∀ c ∈ text.toList, escape c = [c]) :
    argumentValue? .string (quote text) = some (.string text) := by
  have hshown : (quote text).toList = '"' :: (text.toList ++ ['"']) := by
    have hplain : text.toList.flatMap escape = text.toList := by
      rw [List.flatMap_congr h, List.flatMap_singleton']
    rw [quote, String.toList_ofList, quoted, hplain]
    rfl
  have htrimmed : IsTrimmed (quote text).toList := by
    rw [quote, String.toList_ofList]
    exact Assembly.isTrimmed_quoted _
  have hquote : (trimStart (quote text).toList).head? = some '"' := by
    rw [hshown, trimStart_cons (by decide)]
    rfl
  have hnull : (quote text).toList ≠ "null".toList := by
    rw [hshown]
    exact fun h => absurd (List.cons.inj h).1 (by decide)
  have hinner : unquoted? (quote text).toList = some text.toList := by
    rw [hshown]
    simp [unquoted?, dropLast?]
  rw [argumentValue?, if_neg fun h => h.2 hquote]
  unfold ofLiteral?
  rw [show trim (quote text).toList = _ from htrimmed]
  dsimp only
  rw [if_neg hnull, hinner, Option.map_some, String.ofList_toList]

/-- A value of such a type has this type, except for the null of a string. -/
theorem type?_of_fits (ht : t ∈ settableTypes) (hfits : v.fits t = true) :
    v.type? = some t ∨ (v = .null ∧ t = .string) := by
  simp only [settableTypes, List.mem_cons, List.not_mem_nil, or_false] at ht
  rcases ht with rfl | rfl | rfl | rfl | rfl <;> cases v <;>
    simp_all [fits, type?, TypeTag.isNullable, TypeTag.objectKind?]

/-- The text that shows a value sets a variable to it, unless it is null. -/
theorem argumentValue?_display (ht : t ∈ settableTypes) (hfits : v.fits t = true)
    (hplain : IsPlain v) : argumentValue? t v.display = some (setTo v) := by
  rcases type?_of_fits ht hfits with htype | ⟨rfl, rfl⟩
  · cases v with
    | null => cases htype
    | boolean b =>
      cases htype
      exact (argumentValue?_of_ne_string (by decide) _).trans (ofLiteral?_boolean b)
    | int32 i =>
      cases htype
      exact (argumentValue?_of_ne_string (by decide) _).trans (ofLiteral?_int32 i)
    | int64 i =>
      cases htype
      exact (argumentValue?_of_ne_string (by decide) _).trans (ofLiteral?_int64 i)
    | uint32 n =>
      cases htype
      exact (argumentValue?_of_ne_string (by decide) _).trans (ofLiteral?_uint32 n)
    | string text =>
      cases htype
      exact argumentValue?_quote (hplain text rfl)
    | single | double =>
      cases htype
      exact absurd ht (by decide)
    | object o =>
      obtain ⟨kind, id⟩ := o
      cases kind <;> cases htype <;> exact absurd ht (by decide)
  · exact argumentValue?_unquoted (by decide)

/-- What a variable is set to fits where the value fitted. -/
theorem fits_setTo (ht : t ∈ settableTypes) (hfits : v.fits t = true) :
    (setTo v).fits t = true := by
  cases v with
  | null =>
    rcases type?_of_fits ht hfits with htype | ⟨-, rfl⟩
    · cases htype
    · rfl
  | _ => exact hfits

end Values

/-! ### The variable of the activated behaviour -/

/-- The behaviour that a run activates. -/
def soleBehaviour (p : Program) (t : PublicVariables) : Behaviour :=
  { Behaviour.new ⟨1⟩ (.of 1 1) (some p) with supplied := t }

/-- The machine that a run builds for its behaviour. -/
def soleMachine (o : Options) (p : Program) (t : PublicVariables) : Except LoadError Machine :=
  buildMachine o (soleBehaviour p t) p (supplyAll (soleBehaviour p t) p).1

section Activating

variable {o : Options} {p : Program} {s : Symbol} {t : PublicVariables} {v : Value} {m : Machine}

/-- The behaviour of a run is activated if its machine can be built, and gets this machine. -/
theorem activate_worldOf (o : Options) (p : Program) (t : PublicVariables) (fuel : Nat) :
    ∃ w, activate (fuel + 1) ⟨1⟩ (worldOf o p t) = .ok ((soleMachine o p t).map fun _ => ()) w ∧
      ∀ m, soleMachine o p t = .ok m →
        ∃ b, w.behaviour? ⟨1⟩ = some b ∧ b.program = some p ∧ b.machine = some m := by
  have hfound : (worldOf o p t).behaviour? (soleBehaviour p t).id = some (soleBehaviour p t) := rfl
  have hp : (soleBehaviour p t).program = some p := rfl
  obtain ⟨hanswer, hbegun⟩ := beginActivation_eq hfound hp
  obtain ⟨w, hactivated, hkept⟩ := activate_of_unhooked hfound rfl rfl hp fuel
  rw [hanswer] at hactivated
  refine ⟨w, hactivated, fun m hm => ?_⟩
  change buildMachine _ _ _ _ = _ at hm
  refine ⟨_, hkept.trans hbegun, ?_⟩
  rw [show (worldOf o p t).options = o from rfl, hm]
  exact ⟨rfl, rfl⟩

/-- Setting a variable to what fits does no harm: a machine that could be built without still can
be. -/
theorem soleMachine_insert (hm : soleMachine o p t = .ok m) (hs : s ∈ p.symbols.symbols)
    (he : s.exported = true) (hfits : v.fits s.type = true) :
    ∃ m', soleMachine o p (t.insert s.name s.type v) = .ok m' := by
  obtain ⟨⟨hsupports, hv, hall⟩, -⟩ := (buildMachine_eq_ok (length_supplyAll _ p)).1 hm
  refine ⟨_, (buildMachine_eq_ok (length_supplyAll _ p)).2 ⟨⟨hsupports, hv, ?_⟩, rfl⟩⟩
  intro i slot u hslot hu
  obtain ⟨hslot, hnone⟩ := (waits_supplyAll hu).1 hslot
  exact hall i slot u
    ((waits_supplyAll hu).2 ⟨hslot, Program.unplaced_of_insert hv hs he hfits hnone⟩) hu

/-- The machine reads what was supplied for a place. -/
theorem read_of_supplied (hm : soleMachine o p t = .ok m) (hs : s ∈ p.symbols.symbols)
    (hsupplied : p.supplied? t.entries s.address.toNat = some v) : m.read s.address = .ok v := by
  obtain ⟨⟨-, hv, -⟩, rfl⟩ := (buildMachine_eq_ok (length_supplyAll _ p)).1 hm
  obtain ⟨-, hsymbols, -⟩ := Program.verifyStructure_eq_ok.1 hv
  obtain ⟨slot, hslot, -⟩ := hsymbols s hs
  rw [Heap.slot?] at hslot
  have hplaced : p.supplied? (soleBehaviour p t).supplied.entries s.address.toNat = some v :=
    hsupplied
  refine Heap.get_of_slot? (s := slot.filled v) ?_ rfl
  rw [Heap.slot?, Behaviour.map_resolved_supplyAll, List.getElem?_mapIdx, hslot, Option.map_some,
    hplaced]

/-- Setting a variable puts it into the table of supplied variables. -/
theorem assign_of_argumentValue? {text : String} (hs : s ∈ p.symbols.symbols)
    (he : s.exported = true) (htext : argumentValue? s.type text = some v)
    (t : PublicVariables) : assign p t (s.name, text) = .ok (t.insert s.name s.type v) := by
  simp [assign, SymbolTable.get?_of_mem hs, he, htext]

/-- What a run shows of a variable can be set again. Of every exported variable of one of these
types and every value that it may hold and that is shown by its own characters, the shown text is
taken for the variable with this name exactly if the name is not empty, has no equals sign and
neither begins nor ends with a blank; it may be an argument of its own if it does not begin with a
hyphen. The variable is set to the value, or to a string if that is null: if the behaviour can be
activated without, it can be with it, and then the variable holds this. Variables of other slots
may be set, too. -/
theorem set_shown (o : Options) (hs : s ∈ p.symbols.symbols) (he : s.exported = true)
    (ht : s.type ∈ settableTypes) (hfits : v.fits s.type = true) (hplain : IsPlain v)
    (alone : ∀ u ∈ t.entries, u.name ≠ s.name → p.place? u ≠ some s.address.toNat)
    (fuel : Nat) :
    (assignment? (s.name ++ "=" ++ v.display) = some (s.name, v.display) ↔ IsSettable s.name) ∧
    (IsSettable s.name → ∀ a rest,
      readArguments .run a (("--set=" ++ (s.name ++ "=" ++ v.display)) :: rest) =
        readArguments .run { a with assignments := a.assignments ++ [(s.name, v.display)] } rest ∧
      (s.name.toList.head? ≠ some '-' →
        readArguments .run a ("--set" :: (s.name ++ "=" ++ v.display) :: rest) =
          readArguments .run { a with assignments := a.assignments ++ [(s.name, v.display)] }
            rest)) ∧
    ∃ u x w x' w', assign p t (s.name, v.display) = .ok u ∧
      activate (fuel + 1) ⟨1⟩ (worldOf o p t) = .ok x w ∧
      activate (fuel + 1) ⟨1⟩ (worldOf o p u) = .ok x' w' ∧
      (x = .ok () → x' = .ok ()) ∧
      (x' = .ok () → w'.getVariable ⟨1⟩ s.name = some (setTo v)) := by
  have hset := fits_setTo ht hfits
  have hassigned := assign_of_argumentValue? hs he (argumentValue?_display ht hfits hplain) t
  obtain ⟨w, hw, -⟩ := activate_worldOf o p t fuel
  obtain ⟨w', hw', hmachine⟩ :=
    activate_worldOf o p (t.insert s.name s.type (setTo v)) fuel
  refine ⟨assignment?_eq_some, fun h a rest => ⟨readArguments_attached h a rest, fun hhyphen =>
    readArguments_detached h hhyphen a rest⟩, _, _, w, _, w', hassigned, hw, hw', ?_, ?_⟩
  · intro hx
    obtain ⟨m, hm, -⟩ := map_eq_ok.1 hx
    obtain ⟨m', hm'⟩ := soleMachine_insert (v := setTo v) hm hs he hset
    exact map_eq_ok.2 ⟨m', hm', rfl⟩
  · intro hx
    obtain ⟨m, hm, -⟩ := map_eq_ok.1 hx
    obtain ⟨b, hb, hp, hbm⟩ := hmachine m hm
    have hv := ((buildMachine_eq_ok (length_supplyAll _ p)).1 hm).1.2.1
    have hread := read_of_supplied hm hs (Program.supplied?_insert hv hs he hset alone)
    have haddress : b.addressOf? s.name = some s.address := by
      rw [Behaviour.addressOf?, hp, Option.bind_eq_bind, Option.bind_some,
        SymbolTable.Raw.addressOf?, SymbolTable.get?_of_mem hs, Option.map_some]
    rw [getVariable, hb, Option.bind_some, Behaviour.get?, haddress, hbm]
    exact toOption_eq_some.2 hread

end Activating

end CommandLine

/-- A program with a string, which is null at first, and a variable with an equals sign in its
name. -/
def Program.labelled : Program where
  name := "labelled"
  instructionSet := instructionSetName
  version := instructionSetVersion
  code := []
  heap := ⟨[⟨.string, .value .null⟩, ⟨.int32, .value (.int32 0)⟩]⟩
  entryPoints := .empty
  symbols := .ofList [⟨"label", 0, .string, true⟩, ⟨"a=b", 1, .int32, true⟩] (by decide)
  sync := .empty

namespace CommandLine

/-- A string with an equals sign in it, set with another variable. -/
theorem set_shown_labelled : ∃ u w, assign .labelled (.insert .empty "a=b" .int32 (.int32 5))
      ("label", (Value.string "a = b").display) = .ok u ∧
    World.activate 1 ⟨1⟩ (worldOf .default .labelled u) = .ok (.ok ()) w ∧
    w.getVariable ⟨1⟩ "label" = some (.string "a = b") := by
  have hactivated : ∃ w, World.activate 1 ⟨1⟩ (worldOf .default .labelled
      (.insert .empty "a=b" .int32 (.int32 5))) = .ok (.ok ()) w := ⟨_, rfl⟩
  obtain ⟨w₀, hactivated⟩ := hactivated
  have hplain : IsPlain (.string "a = b") := by
    have hall : "a = b".toList.all (fun c => Text.escape c == [c]) = true := rfl
    intro text htext
    cases htext
    simpa using hall
  have alone : ∀ u ∈ (PublicVariables.insert .empty "a=b" .int32 (.int32 5)).entries,
      u.name ≠ "label" → Program.labelled.place? u ≠ some (0 : UInt32).toNat := by decide +kernel
  obtain ⟨-, -, u, x, w, x', w', hu, hx, hx', hkept, hvalue⟩ :=
    set_shown .default (s := ⟨"label", 0, .string, true⟩) (by decide) rfl (by decide) rfl hplain
      alone 0
  cases hactivated.symm.trans hx
  rw [hkept rfl] at hx' hvalue
  exact ⟨u, w', hu, hx', hvalue rfl⟩

/-- Null comes back as a string, and the name with an equals sign is cut at it. -/
theorem shown_null_not_set :
    (∃ w, (runBehaviour 1 .labelled []).run (worldOf .default .labelled .empty) =
      .ok (.ok [("label", .null), ("a=b", .int32 0)]) w) ∧
    (assignment? ("label" ++ "=" ++ Value.null.display) = some ("label", "null") ∧
      ∃ u w, assign .labelled .empty ("label", "null") = .ok u ∧
        (runBehaviour 1 .labelled []).run (worldOf .default .labelled u) =
          .ok (.ok [("label", .string "null"), ("a=b", .int32 0)]) w) ∧
    assignment? ("a=b" ++ "=" ++ (Value.int32 0).display) = some ("a", "b=0") ∧
      assign .labelled .empty ("a", "b=0") = .error ["labelled has no variable a"] :=
  ⟨⟨_, rfl⟩, ⟨by decide +kernel, _, _, rfl, rfl⟩, by decide +kernel, rfl⟩

end CommandLine

end EventVm
