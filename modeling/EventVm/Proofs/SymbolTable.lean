import EventVm.SymbolTable
import Mathlib.Data.List.Nodup

/-!
# Symbol tables under change

A symbol table is a list of symbols and an index of their names, which are changed one after the
other. Whatever is declared, made visible or read, granted or refused, the two fit together: no
request makes a consistent table inconsistent (`Request.keeps`), so after any number of them the
index has the names of the symbols and no others, each with the position of its symbol. Look-ups by
name therefore find what a search of the list finds, a declaration that is refused leaves the table
as it was, and making a name visible touches one symbol (`index_fits`).
-/

namespace EventVm

namespace SymbolTable

/-! ### Requests -/

/-- What can be asked of a table. -/
inductive Request where
  /-- Declares a symbol, if its name is new. -/
  | declare (s : Symbol)
  | markExported (name : String)
  /-- Puts the table that stands at the cursor in the place of this one, if it can be read. -/
  | read (c : Cursor)

/-- The table after a request, granted or refused. -/
def Request.after (t : Raw) : Request → Raw
  | declare s => ((Raw.insert s).outcome t).2
  | markExported name => ((Raw.markExported name).outcome t).2
  | read c =>
    match SymbolTable.decode.run c with
    | .ok u _ => u.toRaw
    | .error _ _ => t

/-- The table that requests make of the one without symbols. -/
def Raw.afterAll (rs : List Request) : Raw :=
  rs.foldl Request.after .empty

variable {t : Raw} {s : Symbol} {name : String}

theorem Request.keeps (r : Request) (h : t.Consistent) : (r.after t).Consistent := by
  cases r with
  | declare s => exact Raw.keeps_insert s t h
  | markExported name => exact Raw.keeps_markExported name t h
  | read c =>
    unfold after
    dsimp only
    split
    · next u _ _ => exact u.consistent
    · exact h

theorem Raw.consistent_afterAll (rs : List Request) : (afterAll rs).Consistent := by
  suffices h : ∀ t : Raw, t.Consistent → (rs.foldl Request.after t).Consistent from
    h .empty consistent_empty
  induction rs with
  | nil => exact fun t h => h
  | cons r rs ih => exact fun t h => ih (r.after t) (r.keeps h)

/-! ### What a consistent table answers -/

namespace Raw

/-- The symbol at an address is the first one in order of declaration. -/
theorem at?_eq_some {address : UInt32} :
    t.at? address = some s ↔ s.address = address ∧
      ∃ before after, t.symbols = before ++ s :: after ∧ ∀ u ∈ before, u.address ≠ address := by
  simp [at?, List.find?_eq_some_iff_append]

namespace Consistent

theorem contains_eq_any (h : t.Consistent) (name : String) :
    t.contains name = t.symbols.any fun s => s.name == name := by
  rw [Bool.eq_iff_iff, h.contains_iff, List.any_eq_true, List.mem_map]
  simp only [beq_iff_eq]

theorem outcome_insert (h : t.Consistent) (s : Symbol) :
    (insert s).outcome t =
      if s.name ∈ t.symbols.map Symbol.name then (.error (.duplicate s.name), t)
      else (.ok (), t.push s) := by
  simp only [Raw.outcome_insert, h.contains_iff]

/-- Making a name visible is a change of the one symbol that has it. -/
theorem outcome_markExported_of_getElem? {i : Nat} (h : t.Consistent)
    (hs : t.symbols[i]? = some s) :
    (markExported s.name).outcome t =
      (.ok true, { t with symbols := t.symbols.set i { s with exported := true } }) := by
  rw [outcome_markExported, (h.index_eq_some hs).2 rfl]
  dsimp only
  rw [Raw.exportAt, List.modify_eq_set_getElem?, hs]
  rfl

theorem outcome_markExported_of_notMem (h : t.Consistent)
    (hname : name ∉ t.symbols.map Symbol.name) :
    (markExported name).outcome t = (.ok false, t) := by
  rw [← h.contains_iff, contains, Option.isSome_iff_ne_none, not_not] at hname
  rw [outcome_markExported, hname]

end Consistent

end Raw

/-- After any requests, granted or refused, no name occurs twice, and the index has exactly the
names of the symbols, each with the position of its symbol. So the index answers what a search of
the list from its front answers. A declaration is refused if the name is taken, and then the table
stays as it was; a name is made visible in one symbol, at the place where it stands. -/
theorem index_fits (rs : List Request) :
    let t := Raw.afterAll rs
    (t.symbols.map Symbol.name).Nodup ∧
    (∀ name i, t.index name = some i ↔ ∃ s, t.symbols[i]? = some s ∧ s.name = name) ∧
    (∀ name, t.get? name = (t.symbols.find? fun s => s.name == name) ∧
      t.addressOf? name = (t.symbols.find? fun s => s.name == name).map Symbol.address ∧
      t.contains name = t.symbols.any fun s => s.name == name) ∧
    (∀ address s, t.at? address = some s ↔ s.address = address ∧
      ∃ before after, t.symbols = before ++ s :: after ∧ ∀ u ∈ before, u.address ≠ address) ∧
    (∀ s, (Raw.insert s).outcome t =
      if s.name ∈ t.symbols.map Symbol.name then (.error (.duplicate s.name), t)
      else (.ok (), t.push s)) ∧
    (∀ i s, t.symbols[i]? = some s → (Raw.markExported s.name).outcome t =
      (.ok true, { t with symbols := t.symbols.set i { s with exported := true } })) ∧
    (∀ name, name ∉ t.symbols.map Symbol.name →
      (Raw.markExported name).outcome t = (.ok false, t)) ∧
    t.exported.Sublist t.symbols ∧
    ∀ s, s ∈ t.exported ↔ s ∈ t.symbols ∧ s.exported = true := by
  intro t
  have h : t.Consistent := Raw.consistent_afterAll rs
  refine ⟨h.names_nodup, h, fun name => ⟨h.get?_eq_find? name, ?_, h.contains_eq_any name⟩,
    fun address s => Raw.at?_eq_some, h.outcome_insert,
    fun i s hs => h.outcome_markExported_of_getElem? hs,
    fun name hname => h.outcome_markExported_of_notMem hname, List.filter_sublist,
    fun s => List.mem_filter⟩
  rw [Raw.addressOf?, h.get?_eq_find?]

/-- The third request is refused because the name is taken, and the last one because the table that
stands there has one name twice. -/
theorem index_fits_refusing :
    let a : Symbol := ⟨"a", 0, .int32, false⟩
    let b : Symbol := ⟨"b", 0, .string, true⟩
    let twice : Bytes := Write.count 2 ++ a.encode ++ a.encode
    let t := Raw.afterAll [.declare a, .declare b, .declare ⟨"a", 1, .int64, true⟩,
      .read (.start twice)]
    t.index "b" = some 1 ∧ t.get? "b" = some b ∧ t.at? 0 = some a ∧
      (Raw.insert b).outcome t = (.error (.duplicate "b"), t) ∧
      t.symbols[0]? = some a ∧
      ((Raw.markExported "a").outcome t).2.symbols = [{ a with exported := true }, b] ∧
      "c" ∉ t.symbols.map Symbol.name ∧ (Raw.markExported "c").outcome t = (.ok false, t) := by
  intro a b twice
  have hsymbols : (Raw.afterAll [.declare a, .declare b, .declare ⟨"a", 1, .int64, true⟩,
      .read (.start twice)]).symbols = [a, b] := by decide +kernel
  have hfits := index_fits [.declare a, .declare b, .declare ⟨"a", 1, .int64, true⟩,
    .read (.start twice)]
  -- what follows needs the symbols of the table, not how they came there
  generalize Raw.afterAll _ = t at hsymbols hfits ⊢
  have hfirst : t.symbols[0]? = some a := by rw [hsymbols]; rfl
  have hsecond : t.symbols[1]? = some b := by rw [hsymbols]; rfl
  have hmissing : "c" ∉ t.symbols.map Symbol.name := by rw [hsymbols]; decide
  obtain ⟨-, hindex, hlookup, hat, hinsert, hexport, hleft, -⟩ := hfits
  refine ⟨(hindex _ _).2 ⟨b, hsecond, rfl⟩, ?_, ?_, ?_, hfirst, ?_, hmissing, hleft _ hmissing⟩
  · exact (hlookup "b").1.trans (by rw [hsymbols]; rfl)
  · exact (hat 0 a).2 ⟨rfl, [], [b], hsymbols, by simp⟩
  · exact (hinsert b).trans (if_pos (by rw [hsymbols]; decide))
  · rw [show "a" = a.name from rfl, hexport 0 a hfirst, hsymbols]
    rfl

end SymbolTable

end EventVm
