import EventVm.Assembly.Statement
import Mathlib.Tactic.Common

/-!
# Comments

What is left of a line without its comment has no comment itself (`stripComment_idem`), nor has any
beginning of it (`stripComment_of_append`). A text without comment keeps its characters whatever
follows it (`exists_stripComment_append`).
-/

namespace EventVm.Assembly

variable {q : Bool} {c : Char} {cs xs ys : List Char}

theorem stripComment_escape : stripComment true ('\\' :: c :: cs) =
    '\\' :: c :: stripComment true cs :=
  rfl

theorem stripComment_quote : stripComment q ('"' :: cs) = '"' :: stripComment (!q) cs := by
  cases q <;> simp [stripComment]

/-- A character that is neither quote, comment sign nor a backslash inside quotes is kept. -/
theorem stripComment_cons (hquote : c ≠ '"') (hcomment : c = '#' → q = true)
    (hescape : c = '\\' → q = false ∨ cs = []) :
    stripComment q (c :: cs) = c :: stripComment q cs := by
  have hcut : ¬ (c = '#' ∧ q = false) := by
    rintro ⟨rfl, rfl⟩
    exact Bool.false_ne_true (hcomment rfl)
  rw [stripComment.eq_def]
  split
  · next heq => cases heq
  · next heq =>
    cases heq
    obtain h | h := hescape rfl
    · cases h
    · cases h
  · next heq =>
    cases heq
    rw [if_neg hquote, if_neg hcut]

theorem comment_of_not_cut (h : ¬ (c = '#' ∧ q = false)) (hc : c = '#') : q = true := by
  simpa [hc] using h

theorem backslash_of_not_escape
    (h : ∀ d ds, q = true → c = '\\' → cs = d :: ds → False) (hc : c = '\\') :
    q = false ∨ cs = [] := by
  cases q with
  | false => exact .inl rfl
  | true =>
    cases cs with
    | nil => exact .inr rfl
    | cons d ds => exact (h d ds rfl hc rfl).elim

theorem stripComment_isPrefix (q : Bool) (cs : List Char) : stripComment q cs <+: cs := by
  induction q, cs using stripComment.induct with
  | case1 q => cases q <;> exact List.prefix_rfl
  | case2 c cs ih =>
    rw [stripComment_escape]
    exact (List.prefix_cons_inj _).2 ((List.prefix_cons_inj _).2 ih)
  | case3 q cs _ ih =>
    rw [stripComment_quote]
    exact (List.prefix_cons_inj _).2 ih
  | case4 q c cs _ _ hcut =>
    obtain ⟨rfl, rfl⟩ := hcut
    exact List.nil_prefix
  | case5 q c cs hescape hquote hcut ih =>
    rw [stripComment_cons hquote (comment_of_not_cut hcut) (backslash_of_not_escape hescape)]
    exact (List.prefix_cons_inj _).2 ih

theorem stripComment_idem (q : Bool) (cs : List Char) :
    stripComment q (stripComment q cs) = stripComment q cs := by
  induction q, cs using stripComment.induct with
  | case1 q => cases q <;> rfl
  | case2 c cs ih => rw [stripComment_escape, stripComment_escape, ih]
  | case3 q cs _ ih => rw [stripComment_quote, stripComment_quote, ih]
  | case4 q c cs hescape hquote hcut =>
    obtain ⟨rfl, rfl⟩ := hcut
    rfl
  | case5 q c cs hescape hquote hcut ih =>
    have hcomment := comment_of_not_cut hcut
    have hbackslash := backslash_of_not_escape hescape
    have hstripped : c = '\\' → q = false ∨ stripComment q cs = [] := by
      intro hc
      refine (hbackslash hc).imp_right ?_
      rintro rfl
      cases q <;> rfl
    rw [stripComment_cons hquote hcomment hbackslash,
      stripComment_cons hquote hcomment hstripped, ih]

/-- A beginning of a text without comment has no comment. -/
theorem stripComment_of_append (h : stripComment q (xs ++ ys) = xs ++ ys) :
    stripComment q xs = xs := by
  induction q, xs using stripComment.induct with
  | case1 q => cases q <;> rfl
  | case2 c xs ih =>
    rw [List.cons_append, List.cons_append, stripComment_escape] at h
    rw [stripComment_escape, ih (by simpa using h)]
  | case3 q xs _ ih =>
    rw [List.cons_append, stripComment_quote] at h
    rw [stripComment_quote, ih (by simpa using h)]
  | case4 q c xs hescape hquote hcut =>
    obtain ⟨rfl, rfl⟩ := hcut
    cases h
  | case5 q c xs hescape hquote hcut ih =>
    have hcomment := comment_of_not_cut hcut
    have hbackslash := backslash_of_not_escape hescape
    rw [stripComment_cons hquote hcomment hbackslash]
    by_cases hlast : c = '\\' ∧ q = true
    · -- a backslash at the end protects nothing, whatever follows it in the longer text
      obtain rfl := (hbackslash hlast.1).resolve_left (by simp [hlast.2])
      cases q <;> rfl
    · have hbackslash' : c = '\\' → q = false ∨ xs ++ ys = [] := fun hc =>
        .inl (by simpa [hc] using hlast)
      rw [List.cons_append, stripComment_cons hquote hcomment hbackslash'] at h
      rw [ih (by simpa using h)]

/-- A text without comment keeps its characters if a character follows that begins no comment and
is no quote; what is kept of the rest depends on whether a quote is open there. -/
theorem exists_stripComment_append (h : stripComment q xs = xs) (hquote : c ≠ '"')
    (hcomment : c ≠ '#') (hescape : c ≠ '\\') :
    ∃ q', ∀ ys, stripComment q (xs ++ c :: ys) = xs ++ c :: stripComment q' ys := by
  induction q, xs using stripComment.induct with
  | case1 q =>
    refine ⟨q, fun ys => ?_⟩
    exact stripComment_cons hquote (fun hc => absurd hc hcomment) (fun hc => absurd hc hescape)
  | case2 d xs ih =>
    rw [stripComment_escape] at h
    obtain ⟨q', hq'⟩ := ih (by simpa using h)
    exact ⟨q', fun ys => by
      rw [List.cons_append, List.cons_append, stripComment_escape, hq']
      rfl⟩
  | case3 q xs _ ih =>
    rw [stripComment_quote] at h
    obtain ⟨q', hq'⟩ := ih (by simpa using h)
    exact ⟨q', fun ys => by rw [List.cons_append, stripComment_quote, hq']; rfl⟩
  | case4 q d xs _ _ hcut =>
    obtain ⟨rfl, rfl⟩ := hcut
    cases h
  | case5 q d xs hescape' hquote' hcut ih =>
    have hcomment' := comment_of_not_cut hcut
    have hbackslash := backslash_of_not_escape hescape'
    rw [stripComment_cons hquote' hcomment' hbackslash] at h
    by_cases hlast : d = '\\' ∧ q = true
    · obtain rfl := (hbackslash hlast.1).resolve_left (by simp [hlast.2])
      obtain ⟨rfl, rfl⟩ := hlast
      exact ⟨true, fun ys => rfl⟩
    · obtain ⟨q', hq'⟩ := ih (by simpa using h)
      refine ⟨q', fun ys => ?_⟩
      have hbackslash' : d = '\\' → q = false ∨ xs ++ c :: ys = [] := fun hd =>
        .inl (by simpa [hd] using hlast)
      rw [List.cons_append, stripComment_cons hquote' hcomment' hbackslash', hq']
      rfl

/-- Whether a character neither opens a quote nor begins a comment. -/
def isPlain (c : Char) : Bool :=
  c != '"' && c != '#'

/-- Plain characters are kept. -/
theorem stripComment_append (h : ∀ c ∈ xs, isPlain c = true) :
    stripComment false (xs ++ ys) = xs ++ stripComment false ys := by
  induction xs with
  | nil => rfl
  | cons c xs ih =>
    obtain ⟨hc, hxs⟩ := List.forall_mem_cons.1 h
    obtain ⟨hquote, hcomment⟩ : c ≠ '"' ∧ c ≠ '#' := by simpa [isPlain] using hc
    rw [List.cons_append, stripComment_cons hquote (fun hc => absurd hc hcomment)
      (fun _ => .inl rfl), ih hxs]
    rfl

theorem stripComment_eq_self (h : ∀ c ∈ xs, isPlain c = true) : stripComment false xs = xs := by
  have hstrip : stripComment false (xs ++ []) = xs ++ stripComment false [] :=
    stripComment_append h
  rwa [stripComment, List.append_nil] at hstrip

end EventVm.Assembly
