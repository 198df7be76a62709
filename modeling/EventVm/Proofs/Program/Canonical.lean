import EventVm.Proofs.Program.Forms
import EventVm.Proofs.Program.Header
import EventVm.Proofs.SemVer.Display

/-!
# The canonical file of a program

A file form is one way to write a program file: the flags, a form of every entry, a list of synced
variables that may name one again, and bytes behind the last table. The accepted files are the
spellings of file forms (`decode_spelling`, `exists_form_of_decode`), so nothing else is left open
by the format.

Writing a program that was read gives the canonical form of the file
(`encode_eq_spelling_canonical`): flags zero, flag bytes zero or one, each synced variable listed
once, nothing behind the tables. A file that is in this form already is written as it was read
(`decode_canonicalises`), and its digest is the content hash of its program.
-/

namespace EventVm

open Reader

/-- A way to write a program file. -/
structure FileForm where
  flags : UInt32
  name : String
  instructionSet : String
  version : Version
  code : Bytes
  slots : List SlotForm
  entryPoints : List SymbolForm
  symbols : List SymbolForm
  /-- The synced variables as they are listed, in which a name may occur again. -/
  sync : List SyncEntry
  /-- What stands behind the tables. -/
  trailing : Bytes

namespace FileForm

/-! ### The file -/

def labels (f : FileForm) : Bytes :=
  Write.string f.name ++ (Write.string f.instructionSet ++ Write.string f.version.display)

def body (f : FileForm) : Bytes :=
  Write.blob f.code ++ (spellTable SlotForm.spelling f.slots ++
    (spellTable SymbolForm.spelling f.entryPoints ++
      (spellTable SymbolForm.spelling f.symbols ++ spellTable SyncEntry.encode f.sync)))

/-- The file, whose header holds the checksum of what stands behind it. -/
def spelling (f : FileForm) : Bytes :=
  Program.fileOf f.flags (f.labels ++ (f.body ++ f.trailing))

/-- The form that is written for the program of a form. -/
def canonical (f : FileForm) : FileForm :=
  { f with
    flags := 0
    slots := f.slots.map SlotForm.canonical
    entryPoints := f.entryPoints.map SymbolForm.canonical
    symbols := f.symbols.map SymbolForm.canonical
    sync := merged f.sync
    trailing := [] }

/-- Whether the flags are zero, the flag bytes zero or one, the synced variables listed once, and
nothing stands behind the tables. -/
structure IsPlain (f : FileForm) : Prop where
  flags : f.flags = 0
  slots : ∀ s ∈ f.slots, s.IsPlain
  entryPoints : ∀ s ∈ f.entryPoints, s.IsPlain
  symbols : ∀ s ∈ f.symbols, s.IsPlain
  sync : (f.sync.map SyncEntry.name).Nodup
  trailing : f.trailing = []

/-- Whether a file form is one of a program: its parts mean those of the program, and its lengths
fit their words. -/
structure IsFormOf (f : FileForm) (p : Program) : Prop where
  name : p.name = f.name ∧ IsCount (Utf8.encode f.name).length
  instructionSet :
    p.instructionSet = f.instructionSet ∧ IsCount (Utf8.encode f.instructionSet).length
  version : p.version = f.version ∧ Version.parse? f.version.display = some f.version ∧
    IsCount (Utf8.encode f.version.display).length
  code : p.code = f.code ∧ IsCount f.code.length
  heap : p.heap.slots = f.slots.map SlotForm.meaning ∧ IsTable SlotForm.IsEncodable f.slots
  entryPoints : p.entryPoints.symbols = f.entryPoints.map SymbolForm.meaning ∧
    IsTable SymbolForm.IsEncodable f.entryPoints
  symbols : p.symbols.symbols = f.symbols.map SymbolForm.meaning ∧
    IsTable SymbolForm.IsEncodable f.symbols
  sync : p.sync.entries = merged f.sync ∧ IsTable SyncEntry.IsEncodable f.sync

variable {f : FileForm} {p : Program}

/-! ### Every form is accepted -/

theorem takes_labels (h : f.IsFormOf p) :
    Takes Program.decodeLabels f.labels (p.name, p.instructionSet, p.version.display) := by
  obtain ⟨hname, hn⟩ := h.name
  obtain ⟨hset, hs⟩ := h.instructionSet
  obtain ⟨hversion, -, hv⟩ := h.version
  rw [hname, hset, hversion]
  refine takes_bind (takes_string hn) (takes_bind (takes_string hs) ?_)
  exact takes_then (takes_string hv) rfl

theorem takes_body (h : f.IsFormOf p) :
    Takes (Program.decodeBody p.name p.instructionSet p.version) f.body p := by
  refine takes_bind (takes_blob h.code.2) ?_
  refine takes_bind (SlotForm.takes_heap h.heap.2 h.heap.1) ?_
  refine takes_bind (SymbolForm.takes_table h.entryPoints.2 h.entryPoints.1) ?_
  refine takes_bind (SymbolForm.takes_table h.symbols.2 h.symbols.1) ?_
  refine takes_then (SyncEntry.takes_table h.sync.2 h.sync.1) ?_
  rw [← h.code.1]

/-- A file form of a program is read as the program. -/
theorem decode_spelling (h : f.IsFormOf p) : Program.decode f.spelling = .ok p := by
  have hlabels := Program.readPart_of_takes (takes_labels h)
  have hbody := Program.readPart_of_takes (takes_body h)
  have hversion : Version.parse? p.version.display = some p.version := by
    rw [h.version.1, h.version.2.1]
  rw [spelling, Program.decode_fileOf]
  simp only [Program.decodeContents, hlabels, hversion, hbody, bind, Except.bind, pure, Except.pure]

/-! ### Nothing else is accepted -/

theorem yields_decodeLabels : Yields Program.decodeLabels fun bytes labels =>
    ∃ name instructionSet text, labels = (name, instructionSet, text) ∧
      IsCount (Utf8.encode name).length ∧ IsCount (Utf8.encode instructionSet).length ∧
      IsCount (Utf8.encode text).length ∧
      bytes = Write.string name ++ (Write.string instructionSet ++ Write.string text) := by
  refine yields_bind yields_string ?_
  rintro name _ ⟨rfl, hname⟩
  refine yields_bind yields_string ?_
  rintro instructionSet _ ⟨rfl, hset⟩
  refine yields_map yields_string ?_
  rintro text _ ⟨rfl, htext⟩
  exact ⟨name, instructionSet, text, rfl, hname, hset, htext, rfl⟩

/-- The parts from the byte code on are the body of every form with these labels and parts. -/
theorem yields_decodeBody {f : FileForm} (hname : IsCount (Utf8.encode f.name).length)
    (hset : IsCount (Utf8.encode f.instructionSet).length)
    (hversion : Version.parse? f.version.display = some f.version)
    (htext : IsCount (Utf8.encode f.version.display).length) :
    Yields (Program.decodeBody f.name f.instructionSet f.version) fun bytes p =>
      ∃ code slots entryPoints symbols sync,
        let g := { f with code, slots, entryPoints, symbols, sync }
        g.IsFormOf p ∧ bytes = g.body := by
  refine yields_bind yields_blob ?_
  rintro code _ ⟨rfl, hcode⟩
  refine yields_bind SlotForm.yields_heap ?_
  rintro heap _ ⟨slots, hslots, rfl, hheap⟩
  refine yields_bind SymbolForm.yields_table ?_
  rintro entryPoints _ ⟨entries, hentries, rfl, hentryPoints⟩
  refine yields_bind SymbolForm.yields_table ?_
  rintro symbols _ ⟨bindings, hbindings, rfl, hsymbols⟩
  refine yields_map SyncEntry.yields_table ?_
  rintro sync _ ⟨synced, hsynced, rfl, hsync⟩
  refine ⟨code, slots, entries, bindings, synced, ?_, rfl⟩
  exact ⟨⟨rfl, hname⟩, ⟨rfl, hset⟩, ⟨rfl, hversion, htext⟩, ⟨rfl, hcode⟩, ⟨hheap, hslots⟩,
    ⟨hentryPoints, hentries⟩, ⟨hsymbols, hbindings⟩, ⟨hsync, hsynced⟩⟩

/-- An accepted file is a spelling of a form of its program. -/
theorem exists_form_of_decode {d : Bytes} (h : Program.decode d = .ok p) :
    ∃ f : FileForm, f.IsFormOf p ∧ f.spelling = d := by
  obtain ⟨flags, c, rfl, hcontents⟩ := Program.exists_fileOf_of_decode h
  obtain ⟨⟨labels, c₁⟩, hlabels, hrun⟩ := bind_eq_ok.1 hcontents
  obtain ⟨_, hrest, name, instructionSet, text, rfl, hname, hset, htext, rfl⟩ :=
    yields_decodeLabels _ _ _ (Program.readPart_eq_ok.1 hlabels)
  dsimp only at hrun
  split at hrun
  case h_1 => cases hrun
  case h_2 version hversion =>
  obtain ⟨⟨q, c₂⟩, hbody, hrun⟩ := bind_eq_ok.1 hrun
  cases hrun
  obtain rfl := Version.display_of_parse? hversion
  obtain ⟨_, hrest', code, slots, entryPoints, symbols, sync, hform, rfl⟩ :=
    yields_decodeBody (f := ⟨flags, name, instructionSet, version, [], [], [], [], [], c₂.rest⟩)
      hname hset hversion htext _ _ _ (Program.readPart_eq_ok.1 hbody)
  refine ⟨_, hform, ?_⟩
  rw [spelling, hrest, hrest']
  rfl

/-! ### The canonical form -/

theorem encode_eq_spelling_canonical (h : f.IsFormOf p) : p.encode = f.canonical.spelling := by
  have hlabels : p.labels = f.canonical.labels := by
    rw [Program.labels, List.append_assoc, h.name.1, h.instructionSet.1, h.version.1]
    rfl
  have hheap : p.heap.encode = spellTable SlotForm.spelling f.canonical.slots := by
    rw [canonical, spellTable_map, funext SlotForm.spelling_canonical, ← spellTable_map, ← h.heap.1]
    rfl
  have hentries :
      p.entryPoints.encode = spellTable SymbolForm.spelling f.canonical.entryPoints := by
    rw [canonical, spellTable_map, funext SymbolForm.spelling_canonical, ← spellTable_map,
      ← h.entryPoints.1]
    rfl
  have hsymbols : p.symbols.encode = spellTable SymbolForm.spelling f.canonical.symbols := by
    rw [canonical, spellTable_map, funext SymbolForm.spelling_canonical, ← spellTable_map,
      ← h.symbols.1]
    rfl
  have hsync : p.sync.encode = spellTable SyncEntry.encode f.canonical.sync := by
    rw [canonical, ← h.sync.1]
    rfl
  have hbody : p.body = f.canonical.body := by
    rw [Program.body, hheap, hentries, hsymbols, hsync, h.code.1]
    simp only [List.append_assoc]
    rfl
  rw [Program.encode_eq_fileOf, Program.payload_eq, hlabels, hbody, spelling]
  simp [canonical]

theorem IsFormOf.canonical (h : f.IsFormOf p) : f.canonical.IsFormOf p where
  name := h.name
  instructionSet := h.instructionSet
  version := h.version
  code := h.code
  heap := by
    refine ⟨?_, h.heap.2.map fun s hs => ?_⟩
    · rw [h.heap.1, FileForm.canonical, List.map_map]
      exact List.map_congr_left fun s _ => s.meaning_canonical.symm
    · rwa [SlotForm.IsEncodable, SlotForm.meaning_canonical]
  entryPoints := by
    refine ⟨?_, h.entryPoints.2.map fun _ hs => hs⟩
    rw [h.entryPoints.1, FileForm.canonical, List.map_map]
    exact List.map_congr_left fun s _ => s.meaning_canonical.symm
  symbols := by
    refine ⟨?_, h.symbols.2.map fun _ hs => hs⟩
    rw [h.symbols.1, FileForm.canonical, List.map_map]
    exact List.map_congr_left fun s _ => s.meaning_canonical.symm
  sync := by
    have hnodup := p.sync.names_nodup
    rw [h.sync.1] at hnodup
    refine ⟨h.sync.1.trans (SyncEntry.merged_of_nodup hnodup).symm, ?_, ?_⟩
    · exact (SyncEntry.length_merged_le f.sync).trans_lt h.sync.2.length
    · exact fun e he => h.sync.2.forms e (SyncEntry.mem_of_mem_merged he)

theorem isPlain_canonical (h : f.IsFormOf p) : f.canonical.IsPlain where
  flags := rfl
  slots := List.forall_mem_map.2 fun s _ => s.content.isPlain_canonical
  entryPoints := List.forall_mem_map.2 fun s _ => flagByte_plain s.exported
  symbols := List.forall_mem_map.2 fun s _ => flagByte_plain s.exported
  sync := by
    have hnodup := p.sync.names_nodup
    rwa [h.sync.1] at hnodup
  trailing := rfl

theorem canonical_of_isPlain (h : f.IsPlain) : f.canonical = f := by
  have hmap : ∀ {φ : Type} {g : φ → φ} {fs : List φ}, (∀ s ∈ fs, g s = s) → fs.map g = fs := by
    intro φ g fs hfs
    rw [List.map_congr_left hfs, List.map_id']
  rw [canonical, hmap fun s hs => SlotForm.canonical_of_isPlain (h.slots s hs),
    hmap fun s hs => SymbolForm.canonical_of_isPlain (h.entryPoints s hs),
    hmap fun s hs => SymbolForm.canonical_of_isPlain (h.symbols s hs),
    SyncEntry.merged_of_nodup h.sync, ← h.flags, ← h.trailing]

end FileForm

/-! ### Content hashes -/

theorem Text.bytesHex_injective : Function.Injective Text.bytesHex := by
  have hdigit : ∀ n m, Text.hexDigit n = Text.hexDigit m → n % 16 = m % 16 := by
    have hdigits : ∀ n < 16, ∀ m < 16, Text.hexDigit n = Text.hexDigit m → n = m := by decide
    intro n m h
    refine hdigits _ (Nat.mod_lt n (by decide)) _ (Nat.mod_lt m (by decide)) ?_
    simpa only [Text.hexDigit, Nat.mod_mod] using h
  intro bs bs' h
  replace h := String.ofList_injective h
  induction bs generalizing bs' with
  | nil =>
    cases bs' with
    | nil => rfl
    | cons b' bs' => cases h
  | cons b bs ih =>
    cases bs' with
    | nil => cases h
    | cons b' bs' =>
      simp only [List.flatMap_cons, List.cons_append, List.nil_append, List.cons.injEq] at h
      have hhigh := hdigit _ _ h.1
      have hlow := hdigit _ _ h.2.1
      have hb := b.toNat_lt
      have hb' := b'.toNat_lt
      rw [ih h.2.2, UInt8.toNat_inj.1 (show b.toNat = b'.toNat by omega)]

/-! ### Reading and writing again -/

/-- A file of a program that is written in the canonical way. -/
def IsCanonicalFile (d : Bytes) (p : Program) : Prop :=
  ∃ f : FileForm, f.IsFormOf p ∧ f.IsPlain ∧ f.spelling = d

/-- Reading a file and writing its program again changes the file to its canonical form. Files in
canonical form stay as they are; they are the same exactly if their programs are, and their digests
are the content hashes. -/
theorem decode_canonicalises {d : Bytes} {p : Program} (h : Program.decode d = .ok p) :
    Program.decode p.encode = .ok p ∧
    (∃ f : FileForm, f.IsFormOf p ∧ f.spelling = d) ∧
    (∀ f : FileForm, f.IsFormOf p → f.spelling = d →
      p.encode = f.canonical.spelling ∧ (f.IsPlain → p.encode = d)) ∧
    ∀ d' p', Program.decode d' = .ok p' → IsCanonicalFile d p → IsCanonicalFile d' p' →
      (p = p' ↔ d = d') ∧ p.contentHash = Text.bytesHex (Sha256.digest d) ∧
      (p.contentHash = p'.contentHash ↔ Sha256.digest d = Sha256.digest d') := by
  have hplain : ∀ {d : Bytes} {p : Program}, IsCanonicalFile d p → p.encode = d := by
    rintro _ p ⟨f, hform, hf, rfl⟩
    rw [FileForm.encode_eq_spelling_canonical hform, FileForm.canonical_of_isPlain hf]
  obtain ⟨f, hform, hspelling⟩ := FileForm.exists_form_of_decode h
  refine ⟨?again, ⟨f, hform, hspelling⟩, ?forms, ?files⟩
  case again =>
    rw [FileForm.encode_eq_spelling_canonical hform]
    exact FileForm.decode_spelling hform.canonical
  case forms =>
    intro f hform hspelling
    exact ⟨FileForm.encode_eq_spelling_canonical hform, fun hf => hplain ⟨f, hform, hf, hspelling⟩⟩
  case files =>
    intro d' p' h' hd hd'
    have hencode := hplain hd
    have hencode' := hplain hd'
    refine ⟨⟨?_, ?_⟩, ?_, ?_⟩
    · rintro rfl
      rw [← hencode, hencode']
    · rintro rfl
      rw [h] at h'
      exact Except.ok.inj h'
    · rw [Program.contentHash, hencode]
    · rw [Program.contentHash, Program.contentHash, hencode, hencode']
      exact Text.bytesHex_injective.eq_iff

/-- A file with every liberty that the format leaves. -/
def lenient : FileForm where
  flags := 7
  name := "lenient"
  instructionSet := instructionSetName
  version := ⟨1, 0, 0, "beta.2", ""⟩
  code := [5, 0, 0, 0, 0xFC, 0xFF, 0xFF, 0xFF]
  slots := [⟨.boolean, .boolean 0xFF⟩, ⟨.string, .other (.value (.string "a"))⟩]
  entryPoints := [⟨"_update", 0, .object, 2⟩]
  symbols := [⟨"flag", 0, .boolean, 0x80⟩, ⟨"text", 1, .string, 0⟩]
  sync := [⟨"flag", .none⟩, ⟨"text", .none⟩, ⟨"flag", .linear⟩]
  trailing := [1, 2, 3]

/-- The program of that file. -/
def lenientProgram : Program where
  name := "lenient"
  instructionSet := instructionSetName
  version := ⟨1, 0, 0, "beta.2", ""⟩
  code := [5, 0, 0, 0, 0xFC, 0xFF, 0xFF, 0xFF]
  heap := ⟨[⟨.boolean, .value (.boolean true)⟩, ⟨.string, .value (.string "a")⟩]⟩
  entryPoints := .ofList [⟨"_update", 0, .object, true⟩] (by decide)
  symbols := .ofList [⟨"flag", 0, .boolean, true⟩, ⟨"text", 1, .string, false⟩] (by decide)
  sync := ⟨[⟨"flag", .linear⟩, ⟨"text", .none⟩], by decide⟩

theorem decode_canonicalises_lenient :
    Program.decode lenient.spelling = .ok lenientProgram ∧
    lenientProgram.encode = lenient.canonical.spelling ∧
    lenientProgram.contentHash = Text.bytesHex (Sha256.digest lenient.canonical.spelling) := by
  have hform : lenient.IsFormOf lenientProgram := by
    refine ⟨⟨rfl, by decide⟩, ⟨rfl, by decide⟩, ⟨rfl, by cbv, by decide⟩, ⟨rfl, by decide⟩,
      ⟨rfl, by decide, by decide⟩, ⟨rfl, by decide, by decide⟩, ⟨rfl, by decide, by decide⟩,
      ⟨rfl, by decide, by decide⟩⟩
  have hread := FileForm.decode_spelling hform
  have hcanonical := FileForm.decode_spelling hform.canonical
  have hplain : IsCanonicalFile lenient.canonical.spelling lenientProgram :=
    ⟨_, hform.canonical, FileForm.isPlain_canonical hform, rfl⟩
  refine ⟨hread, ((decode_canonicalises hread).2.2.1 lenient hform rfl).1, ?_⟩
  exact ((decode_canonicalises hcanonical).2.2.2 _ _ hcanonical hplain hplain).2.1

end EventVm
