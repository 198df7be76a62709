import EventVm.Proofs.Text.Integer
import EventVm.Text.Quoted

/-!
# Quoted text read back

The rule by which assembly text reads a string is not the one by which strings are shown. They agree
exactly on the characters that are shown as themselves, line feed and tab
(`quotedString?_quoted`), among them those with a key of their own (`IsKeyboard.isReadable`). Shown
text stands in one line whatever it shows (`newline_notMem_quoted`).
-/

namespace EventVm.Text

variable {c : Char} {cs : List Char}

/-- Whether a character is printable ASCII, a line feed or a tab. -/
def IsKeyboard (c : Char) : Prop :=
  (0x20 ≤ c.toNat ∧ c.toNat ≤ 0x7e) ∨ c = '\n' ∨ c = '\t'

instance : DecidablePred IsKeyboard := fun c => by
  unfold IsKeyboard
  infer_instance

/-- The character that a backslash makes of the next one. -/
def unescaped (c : Char) : Char :=
  if c = 'n' then '\n' else if c = 't' then '\t' else c

/-- Whether a character is shown in a way that reads back: as itself, or by an escape that both
rules have. -/
def IsReadable (c : Char) : Prop :=
  isVisible c = true ∨ c = '\n' ∨ c = '\t'

instance : DecidablePred IsReadable := fun c => by
  unfold IsReadable
  infer_instance

theorem IsKeyboard.isReadable (h : IsKeyboard c) : IsReadable c := by
  obtain hrange | h := h
  · refine .inl ?_
    rw [isVisible, if_pos (by omega)]
    exact decide_eq_true hrange.1
  · exact .inr h

/-- How assembly text may write a character between quotes: as itself, unless it is a quote or a
backslash, or by a backslash and a character that reads back as it. -/
inductive Spells : Char → List Char → Prop
  | plain (c : Char) (hquote : c ≠ '"') (hbackslash : c ≠ '\\') : Spells c [c]
  | escaped (e : Char) : Spells (unescaped e) ['\\', e]

theorem spells_escape (h : IsReadable c) : Spells c (escape c) := by
  unfold escape
  split
  · next hc =>
    subst hc
    exact .escaped 't'
  · next htab =>
    split
    · next hc =>
      subst hc
      exact absurd h (by decide)
    · split
      · next hc =>
        subst hc
        exact .escaped 'n'
      · next hnewline =>
        split
        · next hc =>
          subst hc
          exact .escaped '"'
        · next hquote =>
          split
          · next hc =>
            subst hc
            exact .escaped '\\'
          · next hbackslash =>
            have hvisible : isVisible c = true := by simpa [IsReadable, htab, hnewline] using h
            have hzero : c ≠ '\x00' := by
              rintro rfl
              exact absurd hvisible (by decide)
            rw [if_neg hzero, if_pos hvisible]
            exact .plain c hquote hbackslash

/-- Any other character is shown behind a backslash by one that reads back as itself. -/
theorem escape_of_not_isReadable (h : ¬ IsReadable c) :
    ∃ e es, escape c = '\\' :: e :: es ∧ unescaped e ≠ c := by
  have hne : ∀ {d : Char}, IsReadable d → d ≠ c := by
    rintro d hd rfl
    exact h hd
  have hhidden : ¬ isVisible c = true := fun hc => h (.inl hc)
  unfold escape
  rw [if_neg (hne (by decide)).symm]
  split
  · next hc => exact ⟨'r', [], rfl, hc ▸ by decide⟩
  · rw [if_neg (hne (by decide)).symm, if_neg (hne (by decide)).symm, if_neg (hne (by decide)).symm]
    split
    · next hc => exact ⟨'0', [], rfl, hc ▸ by decide⟩
    · exact ⟨'u', _, rfl, hne (by decide)⟩

/-- A character that is not shown by a backslash is read as it stands. -/
theorem unescape?_cons (h : c ≠ '\\') (cs : List Char) :
    unescape? (c :: cs) = (unescape? cs).map (c :: ·) := by
  rw [unescape?.eq_4 _ _ ?_ ?_]
  · rintro rfl
    exact absurd rfl h
  · rintro d ds rfl
    exact absurd rfl h

theorem unescape?_spells {w : List Char} (h : Spells c w) (cs : List Char) :
    unescape? (w ++ cs) = (unescape? cs).map (c :: ·) := by
  cases h with
  | plain _ _ hbackslash => rw [List.singleton_append, unescape?_cons hbackslash]
  | escaped e => rfl

theorem unescape?_flatMap {f : Char → List Char} (h : ∀ c ∈ cs, Spells c (f c)) :
    unescape? (cs.flatMap f) = some cs := by
  induction cs with
  | nil => rfl
  | cons c cs ih =>
    obtain ⟨hc, hcs⟩ := List.forall_mem_cons.1 h
    rw [List.flatMap_cons, unescape?_spells hc, ih hcs]
    rfl

/-- Text is read as it was shown exactly if each of its characters is. -/
theorem unescape?_flatMap_escape :
    unescape? (cs.flatMap escape) = some cs ↔ ∀ c ∈ cs, IsReadable c := by
  induction cs with
  | nil => exact ⟨fun _ => List.forall_mem_nil _, fun _ => rfl⟩
  | cons c cs ih =>
    rw [List.flatMap_cons, List.forall_mem_cons]
    by_cases hc : IsReadable c
    · rw [unescape?_spells (spells_escape hc), Option.map_eq_some_iff, ← ih]
      simp [hc]
    · obtain ⟨e, es, he, hne⟩ := escape_of_not_isReadable hc
      rw [he, List.cons_append, List.cons_append, unescape?]
      refine ⟨fun h => ?_, fun h => absurd h.1 hc⟩
      obtain ⟨ds, -, hds⟩ := Option.map_eq_some_iff.1 h
      exact absurd (List.cons.inj hds).1 hne

theorem quotedString?_quoted :
    quotedString? (quoted cs) = some (String.ofList cs) ↔ ∀ c ∈ cs, IsReadable c := by
  have hinner : unquoted? (quoted cs) = some (cs.flatMap escape) := by
    simp [unquoted?, quoted, dropLast?]
  have hread : quotedString? (quoted cs) = (unescape? (cs.flatMap escape)).map String.ofList := by
    rw [quotedString?, hinner, Option.bind_eq_bind, Option.bind_some]
    cases unescape? (cs.flatMap escape) <;> rfl
  rw [← unescape?_flatMap_escape, hread, Option.map_eq_some_iff]
  constructor
  · rintro ⟨ds, hds, heq⟩
    rw [hds, String.ofList_injective heq]
  · exact fun h => ⟨cs, h, rfl⟩

/-! ### One line -/

theorem newline_notMem_codePoint : '\n' ∉ codePoint c := by
  have hdigits : '\n' ∉ Nat.toDigits 16 c.toNat := by
    intro h
    obtain ⟨d, hd, hc⟩ := mem_toDigits (by decide) h
    have hdigit := digit?_digitChar (b := 16) le_rfl hd
    rw [← hc] at hdigit
    cases hdigit
  simp [codePoint, hdigits]

theorem newline_notMem_escape : '\n' ∉ escape c := by
  unfold escape
  split
  · decide
  split
  · decide
  split
  · decide
  split
  · decide
  split
  · decide
  split
  · decide
  split
  · next hnewline _ _ _ _ =>
    rw [List.mem_singleton]
    exact Ne.symm hnewline
  · exact newline_notMem_codePoint

theorem newline_notMem_quoted : '\n' ∉ quoted cs := by
  simp [quoted, newline_notMem_escape]

end EventVm.Text
