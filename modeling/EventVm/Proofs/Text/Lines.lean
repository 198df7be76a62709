import EventVm.Text.Blank
import EventVm.Text.Lines
import Mathlib.Data.List.DropRight
import Mathlib.Tactic.Common

/-!
# Lines and blanks

Lines written one after the other are read back (`lines_flatMap`), and no line holds a line feed
(`newline_notMem_of_mem_lines`). Trimming takes away blanks and nothing else (`exists_trim`).
-/

namespace EventVm.Text

variable {l cs bs : List Char} {c sep : Char}

/-! ### Lines -/

/-- Whether a text can stand in a line: no line feed in it, no carriage return at its end. -/
structure IsLine (l : List Char) : Prop where
  newline : '\n' ∉ l
  last : l.getLast? ≠ some '\r'

instance : DecidablePred IsLine := fun l =>
  decidable_of_iff ('\n' ∉ l ∧ l.getLast? ≠ some '\r')
    ⟨fun h => ⟨h.1, h.2⟩, fun h => ⟨h.newline, h.last⟩⟩

theorem IsLine.append {l' : List Char} (h : IsLine l) (h' : IsLine l') : IsLine (l ++ l') where
  newline := by
    rw [List.mem_append, not_or]
    exact ⟨h.newline, h'.newline⟩
  last := by
    by_cases hne : l' = []
    · rw [hne, List.append_nil]
      exact h.last
    · rw [List.getLast?_append_of_ne_nil _ hne]
      exact h'.last

theorem isLine_of_forall (h : ∀ c ∈ l, c ≠ '\n' ∧ c ≠ '\r') : IsLine l where
  newline hmem := (h _ hmem).1 rfl
  last hlast := (h _ (List.mem_of_getLast? hlast)).2 rfl

theorem linesFrom_append {current : List Char} (h : '\n' ∉ l) :
    linesFrom current (l ++ cs) = linesFrom (l.reverse ++ current) cs := by
  induction l generalizing current with
  | nil => rfl
  | cons c l ih =>
    obtain ⟨hc, hl⟩ := List.ne_and_not_mem_of_not_mem_cons h
    rw [linesFrom.eq_def]
    simp only [List.cons_append, if_neg (Ne.symm hc), ih hl, List.reverse_cons, List.append_assoc,
      List.nil_append]

theorem lines_append (h : IsLine l) : lines (l ++ '\n' :: cs) = l :: lines cs := by
  have hlast : ∀ rest, l.reverse ≠ '\r' :: rest := by
    intro rest hrest
    apply h.last
    rw [List.getLast?_eq_head?_reverse, hrest]
    rfl
  rw [lines, linesFrom_append h.newline, List.append_nil, linesFrom.eq_def]
  simp only [if_true]
  rw [List.reverse_reverse, lines]

/-- Lines that are written, each with a line feed behind it, are read back. -/
theorem lines_flatMap {ls : List (List Char)} (h : ∀ l ∈ ls, IsLine l) :
    lines (ls.flatMap (· ++ ['\n'])) = ls := by
  induction ls with
  | nil => rfl
  | cons l ls ih =>
    obtain ⟨hl, hls⟩ := List.forall_mem_cons.1 h
    rw [List.flatMap_cons, List.append_assoc, List.singleton_append, lines_append hl, ih hls]

/-- The characters of lines put together. -/
theorem toList_join_lines (ls : List String) : (String.join (ls.map (· ++ "\n"))).toList =
    (ls.map String.toList).flatMap (· ++ ['\n']) := by
  rw [String.toList_join, List.flatMap_map, List.flatMap_map]
  exact List.flatMap_congr fun l _ => String.toList_append

theorem lines_join {ls : List String} (h : ∀ l ∈ ls, IsLine l.toList) :
    lines (String.join (ls.map (· ++ "\n"))).toList = ls.map String.toList := by
  rw [toList_join_lines, lines_flatMap (List.forall_mem_map.2 h)]

/-- A line feed parts what is read in front of it from what is read behind it. -/
theorem linesFrom_newline (current l : List Char) :
    linesFrom current (l ++ '\n' :: cs) = linesFrom current (l ++ ['\n']) ++ lines cs := by
  induction l generalizing current with
  | nil => rfl
  | cons c l ih =>
    rw [List.cons_append, List.cons_append, linesFrom.eq_def, linesFrom.eq_def _ (c :: _)]
    dsimp only
    split
    · rw [ih, List.cons_append]
    · exact ih _

/-- Whether a text ends where a line ends. -/
def EndsLine (cs : List Char) : Prop :=
  cs = [] ∨ cs.getLast? = some '\n'

theorem EndsLine.lines_append (h : EndsLine l) : lines (l ++ cs) = lines l ++ lines cs := by
  rcases h with rfl | hlast
  · rfl
  · obtain ⟨init, rfl⟩ := List.getLast?_eq_some_iff.1 hlast
    rw [List.append_assoc]
    exact linesFrom_newline [] init

/-- A text in front of a line feed, or of nothing, is read as a line, less a carriage return at its
end. -/
theorem exists_lines_append (h : '\n' ∉ l) (hne : l ≠ []) (hcs : cs = [] ∨ cs.head? = some '\n') :
    ∃ l', (l' = l ∨ l = l' ++ ['\r']) ∧ lines (l ++ cs) = l' :: lines cs.tail := by
  rw [lines, linesFrom_append h, List.append_nil]
  rcases hcs with rfl | hhead
  · refine ⟨l, .inl rfl, ?_⟩
    rw [linesFrom, if_neg (by simpa using hne), List.reverse_reverse]
    rfl
  · obtain ⟨cs, rfl⟩ := List.head?_eq_some_iff.1 hhead
    rw [linesFrom.eq_def]
    dsimp only
    rw [if_pos rfl]
    split
    · next rest hrest =>
      refine ⟨rest.reverse, .inr ?_, rfl⟩
      rw [← List.reverse_reverse l, hrest, List.reverse_cons]
    · exact ⟨l, .inl rfl, by rw [List.reverse_reverse]; rfl⟩

theorem newline_notMem_of_mem_linesFrom {current : List Char} (hcurrent : '\n' ∉ current)
    (h : l ∈ linesFrom current cs) : '\n' ∉ l := by
  induction cs generalizing current with
  | nil =>
    rw [linesFrom] at h
    split at h
    · cases h
    · rw [List.mem_singleton.1 h, List.mem_reverse]
      exact hcurrent
  | cons c cs ih =>
    unfold linesFrom at h
    split at h
    · obtain rfl | h := List.mem_cons.1 h
      · rw [List.mem_reverse]
        split
        · exact fun hmem => hcurrent (List.mem_cons_of_mem _ hmem)
        · exact hcurrent
      · exact ih List.not_mem_nil h
    · next hc =>
      refine ih ?_ h
      rw [List.mem_cons, not_or]
      exact ⟨Ne.symm hc, hcurrent⟩

theorem newline_notMem_of_mem_lines (h : l ∈ lines cs) : '\n' ∉ l :=
  newline_notMem_of_mem_linesFrom List.not_mem_nil h

/-! ### Splitting -/

theorem splitAt?_append (h : sep ∉ l) : splitAt? sep (l ++ sep :: cs) = some (l, cs) := by
  induction l with
  | nil => rw [List.nil_append, splitAt?, if_pos rfl]
  | cons c l ih =>
    obtain ⟨hc, hl⟩ := List.ne_and_not_mem_of_not_mem_cons h
    rw [List.cons_append, splitAt?, if_neg (Ne.symm hc), ih hl]
    rfl

theorem splitAt?_eq_none (h : sep ∉ l) : splitAt? sep l = none := by
  induction l with
  | nil => rfl
  | cons c l ih =>
    obtain ⟨hc, hl⟩ := List.ne_and_not_mem_of_not_mem_cons h
    rw [splitAt?, if_neg (Ne.symm hc), ih hl]
    rfl

/-! ### Trimming -/

/-- Whether a text has no blanks around it. -/
def IsTrimmed (cs : List Char) : Prop :=
  trim cs = cs

instance : DecidablePred IsTrimmed := fun cs => inferInstanceAs (Decidable (trim cs = cs))

theorem trimStart_append (h : ∀ c ∈ bs, isBlank c = true) : trimStart (bs ++ cs) = trimStart cs :=
  List.dropWhile_append_of_pos h

theorem trimStart_cons (h : isBlank c = false) : trimStart (c :: cs) = c :: cs :=
  List.dropWhile_cons_of_neg (by rw [h]; exact Bool.false_ne_true)

/-- Trimming the end stops at a character that is not blank. -/
theorem trimEnd_append (h : isBlank c = false) : trimEnd (l ++ c :: cs) = l ++ c :: trimEnd cs := by
  unfold trimEnd
  rw [List.reverse_append, List.reverse_cons, List.append_assoc, List.dropWhile_append]
  have hc : (c :: l.reverse).dropWhile isBlank = c :: l.reverse := trimStart_cons h
  split
  · next hempty =>
    rw [List.isEmpty_iff.1 hempty, List.singleton_append, hc]
    simp
  · simp

theorem trimEnd_blank (h : ∀ c ∈ bs, isBlank c = true) : trimEnd bs = [] :=
  List.rdropWhile_eq_nil_iff.2 h

/-- A text is blank, or a character that is not blank stands behind its leading blanks. -/
theorem blank_or_exists (cs : List Char) : (∀ c ∈ cs, isBlank c = true) ∨
    ∃ bs c rest, (∀ c ∈ bs, isBlank c = true) ∧ isBlank c = false ∧ cs = bs ++ c :: rest := by
  induction cs with
  | nil => exact .inl fun c hc => nomatch hc
  | cons c cs ih =>
    by_cases hc : isBlank c = true
    · obtain hcs | ⟨bs, d, rest, hbs, hd, rfl⟩ := ih
      · exact .inl (List.forall_mem_cons.2 ⟨hc, hcs⟩)
      · exact .inr ⟨c :: bs, d, rest, List.forall_mem_cons.2 ⟨hc, hbs⟩, hd, rfl⟩
    · exact .inr ⟨[], c, cs, fun d hd => (nomatch hd), by simpa using hc, rfl⟩

theorem trimStart_trimEnd (cs : List Char) : trimStart (trimEnd cs) = trimEnd (trimStart cs) := by
  obtain hcs | ⟨bs, c, rest, hbs, hc, rfl⟩ := blank_or_exists cs
  · have hstart : trimStart cs = [] := List.dropWhile_eq_nil_iff.2 hcs
    rw [trimEnd_blank hcs, hstart]
    rfl
  · have hend : trimEnd (c :: rest) = c :: trimEnd rest := trimEnd_append (l := []) hc
    rw [trimEnd_append hc, trimStart_append hbs, trimStart_append hbs, trimStart_cons hc,
      trimStart_cons hc, hend]

theorem trim_append (h : ∀ c ∈ bs, isBlank c = true) : trim (bs ++ cs) = trim cs := by
  rw [trim, trimStart_append h, trim]

@[simp]
theorem trim_trimEnd (cs : List Char) : trim (trimEnd cs) = trim cs := by
  rw [trim, trimStart_trimEnd]
  exact List.rdropWhile_idempotent ..

theorem isTrimmed_trim (cs : List Char) : IsTrimmed (trim cs) := by
  have hstart : trim (trimStart cs) = trim cs := by
    rw [trim, trimStart, trimStart, List.dropWhile_idempotent]
    rfl
  calc trim (trim cs) = trim (trimStart cs) := trim_trimEnd _
    _ = trim cs := hstart

/-- Trimming takes away blanks in front and at the end. -/
theorem exists_trim (cs : List Char) :
    ∃ bs bs', (∀ c ∈ bs, isBlank c = true) ∧ (∀ c ∈ bs', isBlank c = true) ∧
      cs = bs ++ trim cs ++ bs' := by
  refine ⟨cs.takeWhile isBlank, (trimStart cs).rtakeWhile isBlank,
    fun c hc => List.mem_takeWhile_imp hc, fun c hc => List.mem_rtakeWhile_imp hc, ?_⟩
  have hend : trim cs ++ (trimStart cs).rtakeWhile isBlank = trimStart cs :=
    List.rdropWhile_append_rtakeWhile
  rw [List.append_assoc, hend]
  exact (List.takeWhile_append_dropWhile ..).symm

/-- A text is trimmed if it begins and ends with characters that are not blank. -/
theorem isTrimmed_of_ends {d : Char} (hc : isBlank c = false) (hd : isBlank d = false)
    (hlast : (c :: cs).getLast? = some d) : IsTrimmed (c :: cs) := by
  obtain ⟨init, hinit⟩ := List.getLast?_eq_some_iff.1 hlast
  rw [IsTrimmed, trim, trimStart_cons hc, hinit, trimEnd_append hd]
  rfl

theorem isTrimmed_of_forall (h : ∀ c ∈ cs, isBlank c = false) : IsTrimmed cs := by
  obtain ⟨bs, bs', hbs, hbs', hcs⟩ := exists_trim cs
  have hnil : ∀ {l}, (∀ c ∈ l, isBlank c = true) → (∀ c ∈ l, c ∈ cs) → l = [] := by
    intro l hl hmem
    refine List.eq_nil_iff_forall_not_mem.2 fun c hc => ?_
    have htrue := hl c hc
    rw [h c (hmem c hc)] at htrue
    cases htrue
  have hbs_nil := hnil hbs fun c hc => by rw [hcs]; simp [hc]
  have hbs'_nil := hnil hbs' fun c hc => by rw [hcs]; simp [hc]
  rw [hbs_nil, hbs'_nil, List.nil_append, List.append_nil] at hcs
  exact hcs.symm

/-- A trimmed text does not begin with a blank. -/
theorem IsTrimmed.head (h : IsTrimmed (c :: cs)) : isBlank c = false := by
  by_contra hc
  rw [Bool.not_eq_false] at hc
  have hblank : ∀ d ∈ [c], isBlank d = true := by simpa using hc
  have hcons : trim ([c] ++ cs) = trim cs := trim_append hblank
  obtain ⟨bs, bs', -, -, hcs⟩ := exists_trim cs
  have hlength := congrArg List.length hcs
  have hsame := congrArg List.length (h.symm.trans hcons)
  simp only [List.length_append, List.length_cons] at hlength hsame
  omega

/-- A trimmed text does not end with a blank. -/
theorem IsTrimmed.last (h : IsTrimmed (cs ++ [c])) : isBlank c = false := by
  by_contra hc
  rw [Bool.not_eq_false] at hc
  have hend : trimEnd (cs ++ [c]) = trimEnd cs :=
    List.rdropWhile_concat_pos isBlank cs c hc
  have hconcat : trim (cs ++ [c]) = trim cs := by
    rw [← trim_trimEnd, hend, trim_trimEnd]
  obtain ⟨bs, bs', -, -, hcs⟩ := exists_trim cs
  have hlength := congrArg List.length hcs
  have hsame := congrArg List.length (h.symm.trans hconcat)
  simp only [List.length_append, List.length_singleton] at hlength hsame
  omega

/-- Behind a trimmed text only blanks at the end are taken away. -/
theorem IsTrimmed.trim_append {w : List Char} (hw : IsTrimmed w) (hne : w ≠ []) :
    trim (w ++ cs) = w ++ trimEnd cs := by
  obtain ⟨init, d, rfl⟩ := List.eq_nil_or_concat' w |>.resolve_left hne
  have hend : trimEnd (init ++ [d] ++ cs) = init ++ [d] ++ trimEnd cs := by
    rw [List.append_assoc, List.append_assoc]
    exact trimEnd_append hw.last
  have hstart : trimStart (init ++ [d] ++ cs) = init ++ [d] ++ cs := by
    obtain ⟨c, w, hcons⟩ := List.exists_cons_of_ne_nil hne
    rw [hcons] at hw ⊢
    exact trimStart_cons hw.head
  rw [trim, hstart, hend]

/-- A trimmed text behind blanks does not end with one. -/
theorem IsTrimmed.trimEnd_append {bs : List Char} (h : IsTrimmed cs) (hne : cs ≠ []) :
    trimEnd (bs ++ cs) = bs ++ cs := by
  obtain ⟨init, d, rfl⟩ := List.eq_nil_or_concat' cs |>.resolve_left hne
  rw [← List.append_assoc]
  exact Text.trimEnd_append h.last

theorem IsTrimmed.append {xs ys : List Char} (hx : IsTrimmed xs) (hy : IsTrimmed ys)
    (hx_ne : xs ≠ []) (hy_ne : ys ≠ []) (zs : List Char) : IsTrimmed (xs ++ zs ++ ys) := by
  obtain ⟨c, xs, rfl⟩ := List.exists_cons_of_ne_nil hx_ne
  obtain ⟨init, d, rfl⟩ := List.eq_nil_or_concat' ys |>.resolve_left hy_ne
  have hlast : (c :: xs ++ zs ++ (init ++ [d])).getLast? = some d := by
    rw [← List.append_assoc]
    exact List.getLast?_concat
  exact isTrimmed_of_ends hx.head hy.last hlast

end EventVm.Text
