import EventVm.Proofs.Bytes.Yields
import EventVm.Proofs.Program.Tables

/-!
# How the entries of a program file may be written

The same entry may be written in several ways, since a flag is any byte and a synced variable may be
listed again. A form is one way to write an entry: it has a spelling, the bytes in the file, and a
meaning, the entry that they are read as. The canonical form is the one that the encoders write.

Reading a table takes the spellings of forms, of every list of them (`SymbolForm.takes_table`), and
nothing else (`SymbolForm.yields_table`); likewise for heaps and for lists of synced variables.
-/

namespace EventVm

open Reader

/-! ### Flags -/

/-- A flag as the encoders write it: one for every byte but zero. -/
def flagByte (b : UInt8) : UInt8 :=
  if b = 0 then 0 else 1

@[simp]
theorem flagByte_bne_zero (b : UInt8) : (flagByte b != 0) = (b != 0) := by
  unfold flagByte
  split
  case isTrue h => rw [h]
  case isFalse h => simp [h]

theorem write_flag (b : UInt8) : Write.flag (b != 0) = Write.u8 (flagByte b) := by
  unfold flagByte
  split
  case isTrue h => rw [h]; rfl
  case isFalse h => rw [bne_iff_ne.2 h]; rfl

theorem flagByte_plain (b : UInt8) : flagByte b = 0 ∨ flagByte b = 1 := by
  unfold flagByte
  split
  case isTrue => exact .inl rfl
  case isFalse => exact .inr rfl

theorem flagByte_of_plain {b : UInt8} (h : b = 0 ∨ b = 1) : flagByte b = b := by
  rcases h with rfl | rfl <;> rfl

/-! ### Tables of forms -/

section Tables

variable {φ ψ : Type}

/-- A table in the file: the number of its entries, then the entries. -/
def spellTable (spelling : φ → Bytes) (fs : List φ) : Bytes :=
  Write.count fs.length ++ fs.flatMap spelling

/-- A table whose length fits the word in front of it, and whose entries are forms. -/
structure IsTable (IsForm : φ → Prop) (fs : List φ) : Prop where
  length : IsCount fs.length
  forms : ∀ f ∈ fs, IsForm f

theorem spellTable_map (spelling : ψ → Bytes) (g : φ → ψ) (fs : List φ) :
    spellTable spelling (fs.map g) = spellTable (fun f => spelling (g f)) fs := by
  rw [spellTable, spellTable, List.length_map, List.flatMap_map]

theorem IsTable.map {IsForm : φ → Prop} {IsForm' : ψ → Prop} {g : φ → ψ} {fs : List φ}
    (h : IsTable IsForm fs) (hg : ∀ f, IsForm f → IsForm' (g f)) : IsTable IsForm' (fs.map g) where
  length := by
    rw [List.length_map]
    exact h.length
  forms := by
    intro f hf
    obtain ⟨e, he, rfl⟩ := List.mem_map.1 hf
    exact hg e (h.forms e he)

/-- A table is told by the word in front of it and its entries. -/
theorem table_of_count {IsForm : φ → Prop} {fs : List φ} {count : UInt32}
    (hlength : fs.length = count.toNat) (hfs : ∀ f ∈ fs, IsForm f) (spelling : φ → Bytes) :
    IsTable IsForm fs ∧ Write.u32 count ++ fs.flatMap spelling = spellTable spelling fs := by
  refine ⟨⟨?_, hfs⟩, ?_⟩
  · rw [hlength]
    exact count.toNat_lt
  · rw [spellTable, Write.count, hlength, UInt32.ofNat_toNat]

section Growing

variable {σ : Type} {step : σ → Reader σ} {IsForm : φ → Prop} {spelling : φ → Bytes}

/-- A table that is declared entry by entry: `grown t fs` says that `t` holds the entries `fs`. -/
theorem takes_growing (start : σ) (grown : σ → List φ → Prop) {fs : List φ}
    (hfs : IsTable IsForm fs)
    (h : ∀ s before f after, fs = before ++ f :: after → grown s before → IsForm f →
      ∃ t, Takes (step s) (spelling f) t ∧ grown t (before ++ [f])) (hstart : grown start []) :
    ∃ t, Takes (u32 >>= fun count => iterate step count.toNat start) (spellTable spelling fs) t ∧
      grown t fs := by
  have hstep : ∀ s before f after, fs = before ++ f :: after → grown s before →
      ∃ t, Takes (step s) (spelling f) t ∧ grown t (before ++ [f]) :=
    fun s before f after hfs' hs =>
      h s before f after hfs' hs (hfs.forms f (by simp [hfs']))
  obtain ⟨t, ht, hgrown⟩ := takes_iterate grown fs hstep start [] fs rfl hstart
  refine ⟨t, takes_bind (takes_u32 _) ?_, hgrown⟩
  rwa [hfs.length.toNat_ofNat]

theorem yields_growing (start : σ) (grown : σ → List φ → Prop)
    (h : ∀ s before, grown s before → Yields (step s) fun bytes t =>
      ∃ f, IsForm f ∧ bytes = spelling f ∧ grown t (before ++ [f])) (hstart : grown start []) :
    Yields (u32 >>= fun count => iterate step count.toNat start) fun bytes t =>
      ∃ fs, IsTable IsForm fs ∧ bytes = spellTable spelling fs ∧ grown t fs := by
  refine yields_bind yields_u32 ?_
  rintro count _ rfl
  refine (yields_iterate grown h count.toNat start [] hstart).mono ?_
  rintro _ t ⟨fs, hlength, hfs, rfl, ht⟩
  obtain ⟨htable, hspelling⟩ := table_of_count hlength hfs spelling
  exact ⟨fs, htable, hspelling, ht⟩

end Growing

end Tables

/-! ### Slots -/

/-- A form of what a slot holds. -/
inductive ContentForm where
  /-- A Boolean, false if the byte is zero. -/
  | boolean (byte : UInt8)
  | other (c : Content)
  deriving DecidableEq, Repr

namespace ContentForm

def spelling : ContentForm → Bytes
  | boolean byte => Write.u8 0 ++ (Write.u8 1 ++ Write.u8 byte)
  | other c => c.encode

def meaning : ContentForm → Content
  | boolean byte => .value (.boolean (byte != 0))
  | other c => c

def canonical : ContentForm → ContentForm
  | boolean byte => boolean (flagByte byte)
  | other c => other c

/-- Whether the byte of a Boolean is zero or one. -/
def IsPlain : ContentForm → Prop
  | boolean byte => byte = 0 ∨ byte = 1
  | other _ => True

instance : DecidablePred IsPlain
  | boolean byte => inferInstanceAs (Decidable (byte = 0 ∨ byte = 1))
  | other _ => .isTrue trivial

@[simp]
theorem meaning_canonical (f : ContentForm) : f.canonical.meaning = f.meaning := by
  cases f with
  | boolean byte => simp only [canonical, meaning, flagByte_bne_zero]
  | other c => rfl

theorem spelling_canonical (f : ContentForm) : f.canonical.spelling = f.meaning.encode := by
  cases f with
  | boolean byte =>
    simp only [canonical, spelling, meaning, Content.encode, Value.encode, Value.tag, Value.payload,
      write_flag]
  | other c => rfl

theorem isPlain_canonical (f : ContentForm) : f.canonical.IsPlain := by
  cases f with
  | boolean byte => exact flagByte_plain byte
  | other c => trivial

theorem canonical_of_isPlain {f : ContentForm} (h : f.IsPlain) : f.canonical = f := by
  cases f with
  | boolean byte => rw [canonical, flagByte_of_plain h]
  | other c => rfl

theorem takes_decode {f : ContentForm} (h : f.meaning.IsEncodable) :
    Takes Content.decode f.spelling f.meaning := by
  cases f with
  | boolean byte =>
    have hvalue : Takes Value.decode (Write.u8 1 ++ Write.u8 byte) (.boolean (byte != 0)) :=
      takes_position fun _ => takes_bind (takes_u8 1) (takes_then (takes_u8 byte) rfl)
    exact takes_position fun _ => takes_bind (takes_u8 0) (takes_then hvalue rfl)
  | other c => exact Content.takes_decode h

theorem yields_decode : Yields Content.decode fun bytes c =>
    ∃ f : ContentForm, f.meaning.IsEncodable ∧ bytes = f.spelling ∧ c = f.meaning := by
  refine yields_position fun offset => yields_bind yields_u8 ?_
  rintro tag _ rfl
  split
  case h_1 =>
    refine yields_map Value.yields_decode ?_
    rintro v _ ⟨hv, rfl | ⟨byte, rfl, rfl⟩⟩
    · exact ⟨other (.value v), hv, rfl, rfl⟩
    · exact ⟨boolean byte, trivial, rfl, rfl⟩
  case h_2 =>
    refine yields_map TypeTag.yields_decode ?_
    rintro t _ rfl
    exact ⟨other (.pending t), trivial, rfl, rfl⟩
  case h_3 => exact yields_throw _

end ContentForm

/-- A form of a heap slot. -/
structure SlotForm where
  declared : TypeTag
  content : ContentForm
  deriving DecidableEq, Repr

namespace SlotForm

def spelling (f : SlotForm) : Bytes :=
  f.declared.encode ++ f.content.spelling

def meaning (f : SlotForm) : Slot :=
  ⟨f.declared, f.content.meaning⟩

def canonical (f : SlotForm) : SlotForm :=
  { f with content := f.content.canonical }

def IsPlain (f : SlotForm) : Prop :=
  f.content.IsPlain

/-- Whether the slot holds no overlong string. -/
def IsEncodable (f : SlotForm) : Prop :=
  f.meaning.content.IsEncodable

instance : DecidablePred IsEncodable :=
  fun f => inferInstanceAs (Decidable f.meaning.content.IsEncodable)

@[simp]
theorem meaning_canonical (f : SlotForm) : f.canonical.meaning = f.meaning := by
  simp only [meaning, canonical, ContentForm.meaning_canonical]

theorem spelling_canonical (f : SlotForm) : f.canonical.spelling = f.meaning.encode := by
  rw [spelling, Slot.encode, canonical, ContentForm.spelling_canonical]
  rfl

theorem canonical_of_isPlain {f : SlotForm} (h : f.IsPlain) : f.canonical = f := by
  rw [canonical, ContentForm.canonical_of_isPlain h]

theorem takes_decode {f : SlotForm} (h : f.IsEncodable) :
    Takes Slot.decode f.spelling f.meaning :=
  takes_bind (TypeTag.takes_decode f.declared) (takes_then (ContentForm.takes_decode h) rfl)

theorem yields_decode : Yields Slot.decode fun bytes s =>
    ∃ f : SlotForm, f.IsEncodable ∧ bytes = f.spelling ∧ s = f.meaning := by
  refine yields_bind TypeTag.yields_decode ?_
  rintro t _ rfl
  refine yields_map ContentForm.yields_decode ?_
  rintro _ _ ⟨f, hf, rfl, rfl⟩
  exact ⟨⟨t, f⟩, hf, rfl, rfl⟩

theorem takes_heap {fs : List SlotForm} {h : Heap} (hfs : IsTable IsEncodable fs)
    (hh : h.slots = fs.map meaning) : Takes Heap.decode (spellTable spelling fs) h := by
  refine takes_bind (takes_u32 _) ?_
  rw [hfs.length.toNat_ofNat]
  have hslots := takes_times_map fs fun f hf => takes_decode (hfs.forms f hf)
  refine takes_then hslots ?_
  rw [← hh]

theorem yields_heap : Yields Heap.decode fun bytes h => ∃ fs : List SlotForm,
    IsTable IsEncodable fs ∧ bytes = spellTable spelling fs ∧ h.slots = fs.map meaning := by
  refine yields_bind yields_u32 ?_
  rintro count _ rfl
  refine yields_map (yields_times yields_decode count.toNat) ?_
  rintro _ _ ⟨fs, hlength, hfs, rfl, rfl⟩
  obtain ⟨htable, hspelling⟩ := table_of_count hlength hfs spelling
  exact ⟨fs, htable, hspelling, rfl⟩

end SlotForm

/-! ### Symbols -/

/-- A form of a symbol, which is exported unless the last byte is zero. -/
structure SymbolForm where
  name : String
  address : UInt32
  type : TypeTag
  exported : UInt8
  deriving DecidableEq, Repr

namespace SymbolForm

def spelling (f : SymbolForm) : Bytes :=
  Write.string f.name ++ (Write.u32 f.address ++ (f.type.encode ++ Write.u8 f.exported))

def meaning (f : SymbolForm) : Symbol :=
  ⟨f.name, f.address, f.type, f.exported != 0⟩

def canonical (f : SymbolForm) : SymbolForm :=
  { f with exported := flagByte f.exported }

/-- Whether the last byte is zero or one. -/
def IsPlain (f : SymbolForm) : Prop :=
  f.exported = 0 ∨ f.exported = 1

/-- Whether the length of the name fits its word. -/
def IsEncodable (f : SymbolForm) : Prop :=
  IsCount (Utf8.encode f.name).length

instance : DecidablePred IsEncodable :=
  fun f => inferInstanceAs (Decidable (IsCount (Utf8.encode f.name).length))

@[simp]
theorem meaning_canonical (f : SymbolForm) : f.canonical.meaning = f.meaning := by
  simp only [meaning, canonical, flagByte_bne_zero]

theorem spelling_canonical (f : SymbolForm) : f.canonical.spelling = f.meaning.encode := by
  simp only [spelling, Symbol.encode, canonical, meaning, write_flag, List.append_assoc]

theorem canonical_of_isPlain {f : SymbolForm} (h : f.IsPlain) : f.canonical = f := by
  rw [canonical, flagByte_of_plain h]

theorem takes_decode {f : SymbolForm} (h : f.IsEncodable) :
    Takes Symbol.decode f.spelling f.meaning := by
  refine takes_bind (takes_string h) (takes_bind (takes_u32 f.address) ?_)
  exact takes_bind (TypeTag.takes_decode f.type) (takes_then (takes_u8 f.exported) rfl)

theorem yields_decode : Yields Symbol.decode fun bytes s =>
    ∃ f : SymbolForm, f.IsEncodable ∧ bytes = f.spelling ∧ s = f.meaning := by
  refine yields_bind yields_string ?_
  rintro name _ ⟨rfl, hname⟩
  refine yields_bind yields_u32 ?_
  rintro address _ rfl
  refine yields_bind TypeTag.yields_decode ?_
  rintro type _ rfl
  refine yields_map yields_u8 ?_
  rintro exported _ rfl
  exact ⟨⟨name, address, type, exported⟩, hname, rfl, rfl⟩

/-- The names of the table are distinct, so each one is fresh when it is declared. -/
theorem takes_table {fs : List SymbolForm} {t : SymbolTable} (hfs : IsTable IsEncodable fs)
    (ht : t.symbols = fs.map meaning) : Takes SymbolTable.decode (spellTable spelling fs) t := by
  have hstep : ∀ (u : SymbolTable) (before : List SymbolForm) (f : SymbolForm) after,
      fs = before ++ f :: after → u.symbols = before.map meaning → f.IsEncodable →
      ∃ v, Takes (SymbolTable.decodeNext u) f.spelling v ∧
        v.symbols = (before ++ [f]).map meaning := by
    intro u before f after hfs' hu hf
    have hfresh : ¬ u.contains f.meaning.name = true := by
      have hnodup := t.names_nodup
      rw [ht, hfs', List.map_append, List.map_cons] at hnodup
      rw [SymbolTable.contains_iff, hu]
      exact fresh_of_nodup hnodup
    obtain ⟨v, hv, hvs⟩ := SymbolTable.insert_of_fresh hfresh
    refine ⟨v, takes_then (takes_decode hf) ?_, by rw [hvs, hu, List.map_append]; rfl⟩
    rw [hv]
  obtain ⟨u, hu, hut⟩ := takes_growing SymbolTable.empty
    (fun u before => u.symbols = before.map meaning) hfs hstep rfl
  exact SymbolTable.ext (hut.trans ht.symm) ▸ hu

theorem yields_table : Yields SymbolTable.decode fun bytes t => ∃ fs : List SymbolForm,
    IsTable IsEncodable fs ∧ bytes = spellTable spelling fs ∧ t.symbols = fs.map meaning := by
  have hstep : ∀ (t : SymbolTable) (before : List SymbolForm), t.symbols = before.map meaning →
      Yields (SymbolTable.decodeNext t) fun bytes u => ∃ f : SymbolForm, f.IsEncodable ∧
        bytes = f.spelling ∧ u.symbols = (before ++ [f]).map meaning := by
    intro t before ht
    refine yields_bind yields_decode ?_
    rintro _ _ ⟨f, hf, rfl, rfl⟩
    split
    case h_2 => exact yields_throw _
    case h_1 u hu =>
      refine yields_pure ⟨f, hf, List.append_nil _, ?_⟩
      rw [(SymbolTable.insert_eq_ok.1 hu).2, ht, List.map_append]
      rfl
  exact yields_growing SymbolTable.empty (fun t before => t.symbols = before.map meaning) hstep rfl

end SymbolForm

/-! ### Synced variables -/

theorem Interpolation.code_of_getElem? {b : UInt8} {i : Interpolation}
    (h : Interpolation.all[b.toNat]? = some i) : i.code = b := by
  obtain ⟨hb, hi⟩ := List.getElem?_eq_some_iff.1 h
  have hcodes : ∀ n (hn : n < all.length), (all[n].code).toNat = n := by decide
  rw [← UInt8.toNat_inj, ← hi, hcodes]

theorem Interpolation.yields_decode :
    Yields Interpolation.decode fun bytes i => bytes = Write.u8 i.code := by
  refine yields_position fun offset => yields_bind yields_u8 ?_
  rintro tag _ rfl
  split
  case h_2 => exact yields_throw _
  case h_1 i hi =>
    refine yields_pure ?_
    rw [List.append_nil, code_of_getElem? hi]

/-- The entries that are left when those of one name are merged: the names in the order of their
first entries, each with its last entry. -/
def merged (es : List SyncEntry) : List SyncEntry :=
  (es.map SyncEntry.name).eraseDups.filterMap fun name => es.reverse.find? fun e => e.name == name

/-- Whether the length of the name fits its word. -/
def SyncEntry.IsEncodable (e : SyncEntry) : Prop :=
  IsCount (Utf8.encode e.name).length

instance : DecidablePred SyncEntry.IsEncodable :=
  fun e => inferInstanceAs (Decidable (IsCount (Utf8.encode e.name).length))

namespace SyncEntry

variable {e : SyncEntry} {es : List SyncEntry}

theorem mem_of_mem_merged (h : e ∈ merged es) : e ∈ es := by
  obtain ⟨name, _, he⟩ := List.mem_filterMap.1 h
  exact List.mem_reverse.1 (List.mem_of_find?_eq_some he)

/-- The last entry of a name that was read, if one more entry is read. -/
theorem find?_reverse_append (name : String) :
    (es ++ [e]).reverse.find? (fun e => e.name == name) =
      if e.name = name then some e else es.reverse.find? fun e => e.name == name := by
  rw [List.reverse_append, List.reverse_singleton, List.singleton_append]
  by_cases h : e.name = name
  · rw [if_pos h]
    exact List.find?_cons_of_pos (by simpa using h)
  · rw [if_neg h]
    exact List.find?_cons_of_neg (by simpa using h)

/-- An entry with a fresh name goes to the end. -/
theorem merged_append_of_fresh (h : e.name ∉ es.map name) :
    merged (es ++ [e]) = merged es ++ [e] := by
  have hnames : ((es ++ [e]).map name).eraseDups = (es.map name).eraseDups ++ [e.name] := by
    have hrest : ([e].map name).removeAll (es.map name) = [e.name] := by
      simpa [List.removeAll] using h
    rw [List.map_append, List.eraseDups_append, hrest]
    rfl
  rw [merged, hnames, List.filterMap_append]
  congr 1
  · refine List.filterMap_congr fun n hn => ?_
    rw [find?_reverse_append, if_neg]
    rintro rfl
    exact h (List.mem_eraseDups.1 hn)
  · simp

/-- An entry with a known name takes the place of the earlier one. -/
theorem merged_append_of_mem (h : e.name ∈ es.map name) :
    merged (es ++ [e]) = (merged es).map fun e' => if e'.name = e.name then e else e' := by
  have hnames : ((es ++ [e]).map name).eraseDups = (es.map name).eraseDups := by
    have hrest : ([e].map name).removeAll (es.map name) = [] := by
      simpa [List.removeAll] using h
    rw [List.map_append, List.eraseDups_append, hrest, List.eraseDups_nil, List.append_nil]
  rw [merged, hnames, merged, List.map_filterMap]
  refine List.filterMap_congr fun n hn => ?_
  rw [find?_reverse_append]
  obtain ⟨e', he', rfl⟩ := List.mem_map.1 (List.mem_eraseDups.1 hn)
  obtain ⟨e'', he''⟩ : ∃ e'', es.reverse.find? (fun e => e.name == e'.name) = some e'' := by
    rw [← Option.isSome_iff_exists, List.find?_isSome]
    exact ⟨e', List.mem_reverse.2 he', beq_self_eq_true _⟩
  have hname : e''.name = e'.name := by simpa using List.find?_some he''
  rw [he'', Option.map_some, hname]
  by_cases heq : e.name = e'.name
  · rw [if_pos heq, if_pos heq.symm]
  · rw [if_neg heq, if_neg (Ne.symm heq)]

theorem length_merged_le (es : List SyncEntry) : (merged es).length ≤ es.length := by
  induction es using List.reverseRecOn with
  | nil => exact Nat.le_refl 0
  | append_singleton es e ih =>
    by_cases h : e.name ∈ es.map name
    · rw [merged_append_of_mem h, List.length_map, List.length_append]
      exact Nat.le_add_right_of_le ih
    · rw [merged_append_of_fresh h, List.length_append, List.length_append]
      exact Nat.add_le_add_right ih _

theorem merged_of_nodup (h : (es.map name).Nodup) : merged es = es := by
  induction es using List.reverseRecOn with
  | nil => rfl
  | append_singleton es e ih =>
    have hfresh : e.name ∉ es.map name := fresh_of_nodup h
    rw [List.map_append, List.nodup_append] at h
    rw [merged_append_of_fresh hfresh, ih h.1]

theorem mem_names_merged {name : String} :
    name ∈ (merged es).map SyncEntry.name ↔ name ∈ es.map SyncEntry.name := by
  induction es using List.reverseRecOn with
  | nil => rfl
  | append_singleton es e ih =>
    by_cases h : e.name ∈ es.map SyncEntry.name
    · have hkept : ((merged es).map fun e' => if e'.name = e.name then e else e').map
          SyncEntry.name = (merged es).map SyncEntry.name := by
        rw [List.map_map]
        refine List.map_congr_left fun e' _ => ?_
        simp only [Function.comp]
        split
        case isTrue heq => exact heq.symm
        case isFalse => rfl
      rw [merged_append_of_mem h, hkept, ih, List.map_append, List.mem_append]
      constructor
      · exact .inl
      · rintro (hname | hname)
        · exact hname
        · exact List.mem_singleton.1 hname ▸ h
    · rw [merged_append_of_fresh h, List.map_append, List.mem_append, ih, List.map_append,
        List.mem_append]

/-- Declaring one more entry merges it with the ones before. -/
theorem entries_add {t : SyncTable} (ht : t.entries = merged es) (e : SyncEntry) :
    (t.add e.name e.interpolation).entries = merged (es ++ [e]) := by
  by_cases h : e.name ∈ es.map SyncEntry.name
  · have hc : t.contains e.name = true := by
      rwa [SyncTable.contains_iff, ht, mem_names_merged]
    rw [merged_append_of_mem h, ← ht]
    exact congrArg SyncTable.entries (dif_pos hc)
  · have hc : ¬ t.contains e.name = true := by
      rwa [SyncTable.contains_iff, ht, mem_names_merged]
    rw [merged_append_of_fresh h, ← ht]
    exact SyncTable.entries_add_of_fresh e.interpolation hc

theorem takes_decode (h : e.IsEncodable) (t : SyncTable) :
    Takes (SyncTable.decodeNext t) e.encode (t.add e.name e.interpolation) :=
  takes_bind (takes_string h) (takes_then (Interpolation.takes_decode e.interpolation) rfl)

theorem takes_table {t : SyncTable} (hes : IsTable IsEncodable es) (ht : t.entries = merged es) :
    Takes SyncTable.decode (spellTable encode es) t := by
  obtain ⟨u, hu, hut⟩ := takes_growing SyncTable.empty
    (fun u before => u.entries = merged before) hes
    (fun u _ e _ _ hu he => ⟨_, takes_decode he u, entries_add hu e⟩) rfl
  exact SyncTable.ext (hut.trans ht.symm) ▸ hu

theorem yields_table : Yields SyncTable.decode fun bytes t => ∃ es : List SyncEntry,
    IsTable IsEncodable es ∧ bytes = spellTable encode es ∧ t.entries = merged es := by
  have hstep : ∀ (t : SyncTable) (before : List SyncEntry), t.entries = merged before →
      Yields (SyncTable.decodeNext t) fun bytes u => ∃ e : SyncEntry, e.IsEncodable ∧
        bytes = e.encode ∧ u.entries = merged (before ++ [e]) := by
    intro t before ht
    refine yields_bind yields_string ?_
    rintro name _ ⟨rfl, hname⟩
    refine yields_map Interpolation.yields_decode ?_
    rintro i _ rfl
    exact ⟨⟨name, i⟩, hname, rfl, entries_add ht ⟨name, i⟩⟩
  exact yields_growing SyncTable.empty (fun t before => t.entries = merged before) hstep rfl

end SyncEntry

end EventVm
