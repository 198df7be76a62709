import EventVm.Proofs.Failure
import EventVm.Proofs.Value.Codec
import EventVm.PublicVariables

/-!
# Stored public variables

The blob of a stored table refers to handles by their positions in the list beside it. So the list
can be replaced by one with other handles, and the same blob then stores the table with those
handles in the places of the old ones.

* `loadEntries_encodeEntries`: entries are read back one after the other, the handles in front of
  each being those that stand before its own in the list;
* `load_store`: a stored table is read back, with its handles or with others.
-/

namespace EventVm

open Reader

/-! ### Replacing handles -/

/-- The value, a handle being replaced by what the function makes of it. -/
def Value.mapObject (f : ObjectRef → ObjectRef) : Value → Value
  | .object o => .object (f o)
  | v => v

theorem Value.object?_mapObject (f : ObjectRef → ObjectRef) (v : Value) :
    (v.mapObject f).object? = v.object?.map f := by
  cases v <;> rfl

theorem Value.mapObject_id (v : Value) : v.mapObject id = v := by
  cases v <;> rfl

namespace PublicVariable

/-- The entry, a handle being replaced by what the function makes of it. -/
def mapObject (f : ObjectRef → ObjectRef) (v : PublicVariable) : PublicVariable :=
  { v with value := v.value.mapObject f }

theorem mapObject_id : mapObject id = id :=
  funext fun v => congrArg (PublicVariable.mk v.name v.type) v.value.mapObject_id

/-- Whether the lengths of the name and of the value fit their words. -/
structure IsEncodable (v : PublicVariable) : Prop where
  name : IsCount (Utf8.encode v.name).length
  value : v.value.IsEncodable

end PublicVariable

namespace PublicVariables

/-- The table, every handle being replaced by what the function makes of it. -/
def mapObjects (f : ObjectRef → ObjectRef) (t : PublicVariables) : PublicVariables where
  entries := t.entries.map (.mapObject f)
  sorted := List.pairwise_map.2 t.sorted

/-- Whether the number of entries and the lengths in them fit their words. -/
structure IsEncodable (t : PublicVariables) : Prop where
  size : IsCount t.size
  entries : ∀ v ∈ t.entries, v.IsEncodable

variable {f : ObjectRef → ObjectRef} {objects done : List ObjectRef} {o : ObjectRef} {v : Value}
  {vs ws : List PublicVariable} {t : PublicVariables}

theorem mapObjects_id (t : PublicVariables) : t.mapObjects id = t := by
  refine PublicVariables.ext ?_
  change t.entries.map (.mapObject id) = t.entries
  rw [PublicVariable.mapObject_id, List.map_id]

/-! ### Storing other handles -/

theorem objectsOf_cons (v : PublicVariable) (vs : List PublicVariable) :
    objectsOf (v :: vs) = v.value.object?.toList ++ objectsOf vs := by
  unfold objectsOf
  rw [List.filterMap_cons]
  cases v.value.object? <;> rfl

theorem objectsOf_mapObject (f : ObjectRef → ObjectRef) (vs : List PublicVariable) :
    objectsOf (vs.map (.mapObject f)) = (objectsOf vs).map f := by
  unfold objectsOf
  rw [List.filterMap_map, List.map_filterMap]
  exact List.filterMap_congr fun v _ => v.value.object?_mapObject f

theorem encodeEntry_mapObject (before : Nat) (v : PublicVariable) :
    encodeEntry before (v.mapObject f) = encodeEntry before v := by
  obtain ⟨name, type, value⟩ := v
  cases value <;> rfl

/-- The blob does not tell which handles a table holds, only where. -/
theorem encodeEntries_mapObject (before : Nat) (vs : List PublicVariable) :
    encodeEntries before (vs.map (.mapObject f)) = encodeEntries before vs := by
  induction vs generalizing before with
  | nil => rfl
  | cons v vs ih =>
    have hlength : (v.mapObject f).value.object?.toList.length =
        v.value.object?.toList.length := by
      rw [PublicVariable.mapObject, Value.object?_mapObject]
      cases v.value.object? <;> rfl
    rw [List.map_cons, encodeEntries, encodeEntries, encodeEntry_mapObject, hlength, ih]

theorem store_mapObjects (f : ObjectRef → ObjectRef) (t : PublicVariables) :
    (t.mapObjects f).store = ⟨t.store.blob, t.store.objects.map f⟩ := by
  have hsize : (t.mapObjects f).size = t.size := List.length_map _
  unfold store
  rw [hsize, mapObjects, encodeEntries_mapObject, objectsOf_mapObject]

/-! ### Reading entries -/

/-- A reader that takes `bytes` is run on a stream that starts with them. -/
theorem readPart_of_takes {r : Reader α} {bytes : Bytes} {a : α} (h : Takes r bytes a)
    (position : Nat) (rest : Bytes) :
    readPart r ⟨position, bytes ++ rest⟩ = .ok (a, ⟨position + bytes.length, rest⟩) := by
  rw [readPart, h position rest]

theorem readPart_bind {r : Reader α} {bytes : Bytes} {a : α} (h : Takes r bytes a)
    (position : Nat) (rest : Bytes) (next : α × Cursor → Except PublicVariableError β) :
    (readPart r ⟨position, bytes ++ rest⟩ >>= next) =
      next (a, ⟨position + bytes.length, rest⟩) := by
  rw [readPart_of_takes h]
  rfl

/-- The part of an entry behind its type, with `before` handles in front of it. -/
def encodeValue (before : Nat) : Value → Bytes
  | .object _ => Write.u8 1 ++ Write.count before
  | v => Write.u8 0 ++ v.encode

theorem encodeEntry_eq (before : Nat) (v : PublicVariable) :
    encodeEntry before v =
      Write.string v.name ++ (v.type.encode ++ encodeValue before v.value) := by
  obtain ⟨name, type, value⟩ := v
  cases value <;> exact List.append_assoc ..

/-- A handle is looked up in the list, where as many stand before it as stand in front of it in the
table; any other value is read from the blob. -/
theorem loadValue_encodeValue (f : ObjectRef → ObjectRef) (objects : List ObjectRef)
    (hv : v.IsEncodable) (hn : IsCount done.length) (position : Nat) (rest : Bytes) : ∃ next,
      loadValue ((done ++ v.object?.toList ++ objects).map f)
        ⟨position, encodeValue done.length v ++ rest⟩ = .ok (v.mapObject f, ⟨next, rest⟩) := by
  have hinline : ∀ objects, loadValue objects ⟨position, Write.u8 0 ++ v.encode ++ rest⟩ =
      .ok (v, ⟨position + (Write.u8 0).length + v.encode.length, rest⟩) := by
    intro objects
    unfold loadValue
    rw [List.append_assoc, readPart_bind (takes_u8 0)]
    exact readPart_of_takes (Value.takes_decode hv) _ rest
  cases v with
  | object o =>
    have hfound : ((done ++ [o] ++ objects).map f)[(UInt32.ofNat done.length).toNat]? =
        some (f o) := by
      simp [hn.toNat_ofNat]
    refine ⟨position + (Write.u8 1).length + (Write.count done.length).length, ?_⟩
    unfold loadValue encodeValue
    rw [List.append_assoc, readPart_bind (takes_u8 1)]
    dsimp only [Value.object?, Option.toList_some]
    rw [Write.count, readPart_bind (takes_u32 _)]
    dsimp only
    rw [hfound]
    rfl
  | _ => exact ⟨_, hinline _⟩

/-- An entry that comes last in order of name goes to the end. -/
theorem insertEntry_of_lt {w : PublicVariable} (h : ∀ v ∈ vs, v.name < w.name) :
    insertEntry w vs = vs ++ [w] := by
  induction vs with
  | nil => rfl
  | cons v vs ih =>
    obtain ⟨hv, hvs⟩ := List.forall_mem_cons.1 h
    rw [insertEntry, if_neg (String.lt_asymm hv), if_neg (String.ne_of_lt hv).symm, ih hvs]
    rfl

/-- Entries in order of name are read one after the other, and each goes to the end of the table.
The first handle among them is looked up behind those of the entries that have been read. -/
theorem loadEntries_encodeEntries (f : ObjectRef → ObjectRef) (done : List ObjectRef)
    (t : PublicVariables) (hvs : ∀ v ∈ vs, v.IsEncodable)
    (hn : IsCount (done.length + vs.length)) (sorted : vs.Pairwise fun a b => a.name < b.name)
    (ht : ∀ w ∈ t.entries, ∀ v ∈ vs, w.name < v.name) (position : Nat) :
    ∃ u, loadEntries ((done ++ objectsOf vs).map f) vs.length t
        ⟨position, encodeEntries done.length vs⟩ = .ok u ∧
      u.entries = t.entries ++ vs.map (.mapObject f) := by
  induction vs generalizing done t position with
  | nil => exact ⟨t, rfl, (List.append_nil _).symm⟩
  | cons v vs ih =>
    obtain ⟨hv, hvs⟩ := List.forall_mem_cons.1 hvs
    obtain ⟨hfirst, hsorted⟩ := List.pairwise_cons.1 sorted
    have hcount : IsCount done.length := by
      unfold IsCount at hn ⊢
      omega
    -- the table with the entry behind its others
    have hlast : (t.insert v.name v.type (v.value.mapObject f)).entries =
        t.entries ++ [v.mapObject f] :=
      insertEntry_of_lt fun w hw => ht w hw v List.mem_cons_self
    have hnext : ∀ w ∈ (t.insert v.name v.type (v.value.mapObject f)).entries, ∀ v' ∈ vs,
        w.name < v'.name := by
      intro w hw v' hv'
      rw [hlast] at hw
      obtain hw | hw := List.mem_append.1 hw
      · exact ht w hw v' (List.mem_cons_of_mem v hv')
      · rw [List.mem_singleton.1 hw]
        exact hfirst v' hv'
    have hlength : (done ++ v.value.object?.toList).length + vs.length ≤
        done.length + (v :: vs).length := by
      have hone : v.value.object?.toList.length ≤ 1 := by
        cases v.value.object? <;> simp
      rw [List.length_append, List.length_cons]
      omega
    obtain ⟨position', hvalue⟩ := loadValue_encodeValue f (objectsOf vs) hv.value hcount
      (position + (Write.string v.name).length + v.type.encode.length)
      (encodeEntries (done ++ v.value.object?.toList).length vs)
    obtain ⟨u, hu, hentries⟩ := ih _ _ hvs (Nat.lt_of_le_of_lt hlength hn) hsorted hnext position'
    refine ⟨u, ?_, by rw [hentries, hlast]; simp⟩
    rw [encodeEntries, encodeEntry_eq, ← List.length_append, objectsOf_cons, ← List.append_assoc]
    simp only [List.append_assoc (Write.string v.name), List.append_assoc v.type.encode]
    rw [List.length_cons, loadEntries, readPart_bind (takes_string hv.name)]
    dsimp only
    rw [readPart_bind (TypeTag.takes_decode v.type)]
    dsimp only
    rw [hvalue]
    exact hu

/-! ### Reading a stored table -/

theorem load_mapObjects (ht : t.IsEncodable) (f : ObjectRef → ObjectRef) :
    load ⟨t.store.blob, t.store.objects.map f⟩ = .ok (t.mapObjects f) := by
  obtain ⟨u, hu, hentries⟩ := loadEntries_encodeEntries f [] empty ht.entries
    (by rw [List.length_nil, Nat.zero_add]; exact ht.size) t.sorted
    (fun _ hw => nomatch hw) (0 + (Write.u8 blobVersion).length + (Write.count t.size).length)
  have hread : load ⟨t.store.blob, t.store.objects.map f⟩ = .ok u := by
    unfold load store
    rw [Cursor.start, List.append_assoc, readPart_bind (takes_u8 blobVersion)]
    dsimp only
    rw [if_neg (not_not_intro rfl), Write.count, readPart_bind (takes_u32 _)]
    dsimp only
    rw [ht.size.toNat_ofNat]
    exact hu
  rw [hread]
  exact congrArg Except.ok (PublicVariables.ext hentries)

theorem load_stored (ht : t.IsEncodable) : load t.store = .ok t := by
  have h := load_mapObjects ht id
  rwa [List.map_id, mapObjects_id] at h

/-- A stored table is read back. If other handles take the places of those in the list, it is read
back with these, the blob being as it was; and that is how the table with these handles is
stored. -/
theorem load_store (ht : t.IsEncodable) :
    (∀ f : ObjectRef → ObjectRef,
      load ⟨t.store.blob, t.store.objects.map f⟩ = .ok (t.mapObjects f) ∧
      (t.mapObjects f).store = ⟨t.store.blob, t.store.objects.map f⟩) ∧
    load t.store = .ok t :=
  ⟨fun f => ⟨load_mapObjects ht f, store_mapObjects f t⟩, load_stored ht⟩

/-- Two handles with other values before, between and behind them; the number is a NaN with a
payload. -/
def furnished : PublicVariables where
  entries := [⟨"angle", .single, .single 0x7FC00001⟩,
    ⟨"door", .gameObject, .object ⟨.gameObject, 7⟩⟩, ⟨"label", .string, .string "open"⟩,
    ⟨"room", .object, .object ⟨.other, 3⟩⟩, ⟨"window", .transform, .null⟩]
  sorted := by decide +kernel

theorem load_store_furnished :
    let next : ObjectRef → ObjectRef := fun o => ⟨o.kind, o.id + 1⟩
    furnished.IsEncodable ∧
    furnished.store.objects.map next = [⟨.gameObject, 8⟩, ⟨.other, 4⟩] ∧
    load ⟨furnished.store.blob, furnished.store.objects.map next⟩ =
      .ok (furnished.mapObjects next) ∧
    load furnished.store = .ok furnished := by
  intro next
  have h : furnished.IsEncodable := by
    refine ⟨by decide, fun v hv => ?_⟩
    fin_cases hv <;> exact ⟨by decide, by decide⟩
  obtain ⟨hmapped, hsame⟩ := load_store h
  exact ⟨h, by decide, (hmapped next).1, hsame⟩

end PublicVariables

end EventVm
