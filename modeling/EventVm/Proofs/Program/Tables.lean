import EventVm.Heap
import EventVm.Proofs.Value.Codec
import EventVm.SymbolTable
import EventVm.SyncTable
import Mathlib.Data.List.Nodup

/-!
# The tables of a program file

Heaps, symbol tables and lists of synced variables are written as the number of their entries and
the entries. A heap is read slot by slot. The other two are rebuilt by declaring one entry after the
other; since the names are distinct, no declaration is refused or merged with an earlier one, and
the table holds at every moment the entries read so far.
-/

namespace EventVm

open Reader

/-- In a list with distinct names, an entry's name is fresh among the entries in front of it. -/
theorem fresh_of_nodup {name : α → String} {before after : List α} {a : α}
    (h : ((before ++ a :: after).map name).Nodup) : name a ∉ before.map name := by
  intro ha
  rw [List.map_append, List.nodup_append] at h
  exact h.2.2 (name a) ha (name a) (by simp) rfl

/-! ### Heaps -/

/-- Whether the slot holds no overlong string. -/
def Content.IsEncodable : Content → Prop
  | value v => v.IsEncodable
  | pending _ => True

instance : DecidablePred Content.IsEncodable
  | .value v => inferInstanceAs (Decidable v.IsEncodable)
  | .pending _ => .isTrue trivial

theorem Content.takes_decode {c : Content} (h : c.IsEncodable) :
    Takes Content.decode c.encode c := by
  cases c with
  | value v =>
    refine takes_position fun offset => takes_bind (takes_u8 0) ?_
    exact takes_then (Value.takes_decode h) rfl
  | pending t =>
    refine takes_position fun offset => takes_bind (takes_u8 1) ?_
    exact takes_then (TypeTag.takes_decode t) rfl

theorem Slot.takes_decode {s : Slot} (h : s.content.IsEncodable) :
    Takes Slot.decode s.encode s :=
  takes_bind (TypeTag.takes_decode s.declared) (takes_then (Content.takes_decode h) rfl)

namespace Heap

/-- Whether the number of slots and the lengths of the strings fit their words. -/
structure IsEncodable (h : Heap) : Prop where
  size : IsCount h.size
  contents : ∀ s ∈ h.slots, s.content.IsEncodable

theorem takes_decode {h : Heap} (hh : h.IsEncodable) : Takes Heap.decode h.encode h := by
  refine takes_bind (takes_u32 _) ?_
  rw [hh.size.toNat_ofNat]
  have hs := takes_times h.slots fun s hs => Slot.takes_decode (hh.contents s hs)
  exact takes_then hs rfl

end Heap

/-! ### Symbol tables -/

theorem Symbol.takes_decode {s : Symbol} (h : IsCount (Utf8.encode s.name).length) :
    Takes Symbol.decode s.encode s := by
  unfold encode
  rw [List.append_assoc, List.append_assoc]
  refine takes_bind (takes_string h) (takes_bind (takes_u32 s.address) ?_)
  exact takes_bind (TypeTag.takes_decode s.type) (takes_flag s.exported)

namespace SymbolTable

/-- Whether the number of symbols and the lengths of their names fit their words. -/
structure IsEncodable (t : SymbolTable) : Prop where
  size : IsCount t.size
  names : ∀ s ∈ t.symbols, IsCount (Utf8.encode s.name).length

/-- Only a fresh name can be declared, and it goes to the end. -/
theorem insert_eq_ok {t u : SymbolTable} {s : Symbol} :
    t.insert s = .ok u ↔ s.name ∉ t.names ∧ u.symbols = t.symbols ++ [s] := by
  have hnames : t.contains s.name = true ↔ s.name ∈ t.names := contains_iff
  by_cases hc : t.contains s.name = true
  · simp [insert_of_contains hc, hnames.1 hc]
  · obtain ⟨v, hinsert, hv⟩ := insert_of_fresh hc
    rw [hinsert, Except.ok.injEq, SymbolTable.ext_iff, hv, eq_comm, ← hnames]
    simp [hc]

/-- A name is bound to the one symbol that has it. -/
theorem get?_of_mem {t : SymbolTable} {s : Symbol} (h : s ∈ t.symbols) : t.get? s.name = some s :=
  get?_eq_some.2 ⟨h, rfl⟩

theorem takes_decode {t : SymbolTable} (h : t.IsEncodable) :
    Takes SymbolTable.decode t.encode t := by
  refine takes_bind (takes_u32 _) ?_
  rw [h.size.toNat_ofNat]
  have hstep : ∀ (u : SymbolTable) (before : List Symbol) (s : Symbol) (after : List Symbol),
      t.symbols = before ++ s :: after → u.symbols = before →
      ∃ v, Takes (decodeNext u) s.encode v ∧ v.symbols = before ++ [s] := by
    rintro u _ s after ht rfl
    have hs := h.names s (by simp [ht])
    have hfresh : ¬ u.contains s.name = true := by
      rw [contains_iff]
      exact fresh_of_nodup (ht ▸ t.names_nodup)
    obtain ⟨v, hv, hvs⟩ := insert_of_fresh hfresh
    refine ⟨v, takes_then (Symbol.takes_decode hs) ?_, hvs⟩
    rw [hv]
  obtain ⟨u, hu, hut⟩ := takes_iterate (fun u before => u.symbols = before) t.symbols hstep
    empty [] t.symbols rfl rfl
  exact SymbolTable.ext hut ▸ hu

end SymbolTable

/-! ### Synced variables -/

theorem Interpolation.takes_decode (i : Interpolation) :
    Takes Interpolation.decode (Write.u8 i.code) i := by
  refine takes_position fun offset => takes_then (takes_u8 i.code) ?_
  cases i <;> rfl

namespace SyncTable

/-- Whether the number of entries and the lengths of their names fit their words. -/
structure IsEncodable (t : SyncTable) : Prop where
  size : IsCount t.size
  names : ∀ e ∈ t.entries, IsCount (Utf8.encode e.name).length

/-- A variable with a fresh name goes to the end. -/
theorem entries_add_of_fresh {t : SyncTable} {name : String} (i : Interpolation)
    (h : ¬ t.contains name = true) : (t.add name i).entries = t.entries ++ [⟨name, i⟩] :=
  congrArg SyncTable.entries (dif_neg h)

theorem takes_decode {t : SyncTable} (h : t.IsEncodable) : Takes SyncTable.decode t.encode t := by
  refine takes_bind (takes_u32 _) ?_
  rw [h.size.toNat_ofNat]
  have hstep : ∀ (u : SyncTable) (before : List SyncEntry) (e : SyncEntry) (after : List SyncEntry),
      t.entries = before ++ e :: after → u.entries = before →
      ∃ v, Takes (decodeNext u) e.encode v ∧ v.entries = before ++ [e] := by
    rintro u _ e after ht rfl
    have he := h.names e (by simp [ht])
    have hfresh : ¬ u.contains e.name = true := by
      rw [contains_iff]
      exact fresh_of_nodup (ht ▸ t.names_nodup)
    refine ⟨_, takes_bind (takes_string he) ?_, entries_add_of_fresh e.interpolation hfresh⟩
    exact takes_then (Interpolation.takes_decode e.interpolation) rfl
  obtain ⟨u, hu, hut⟩ := takes_iterate (fun u before => u.entries = before) t.entries hstep
    empty [] t.entries rfl rfl
  exact SyncTable.ext hut ▸ hu

end SyncTable

end EventVm
