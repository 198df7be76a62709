import EventVm.SemVer.Version
import Mathlib.Data.List.Induction
import Mathlib.Data.List.TakeWhile
import Mathlib.Tactic.Common
import Mathlib.Tactic.IntervalCases

/-!
# Version texts

A text that is read as a version is the text of that version (`Version.display_of_parse?`): numbers
are written without leading zeros, and an empty pre-release or build is not written at all.
-/

namespace EventVm.Version

variable {c : Char} {cs ds rest : List Char} {n : Nat} {s : String}

/-! ### Numbers -/

/-- The number that a run of digits writes. -/
def number (ds : List Char) : Nat :=
  ds.foldl (fun n c => n * 10 + (c.toNat - '0'.toNat)) 0

theorem exists_of_isDigit (h : isDigit c = true) :
    ∃ d, d < 10 ∧ c = d.digitChar ∧ c.toNat - '0'.toNat = d := by
  simp only [isDigit, Bool.and_eq_true, decide_eq_true_eq] at h
  have hlow : 48 ≤ c.toNat := h.1
  have hhigh : c.toNat ≤ 57 := h.2
  have hc : c = Char.ofNat c.toNat := (Char.ofNat_toNat c).symm
  generalize c.toNat = k at hc hlow hhigh
  subst hc
  interval_cases k <;> exact ⟨_, by decide, by decide, rfl⟩

theorem number_append (ds : List Char) (c : Char) :
    number (ds ++ [c]) = number ds * 10 + (c.toNat - '0'.toNat) :=
  List.foldl_append

/-- Without leading zeros, a run of digits is the one that writes its number. -/
theorem toDigits_number (hdigits : ∀ c ∈ ds, isDigit c = true) (hne : ds ≠ [])
    (hzero : 1 < ds.length → ds.head? ≠ some '0') : Nat.toDigits 10 (number ds) = ds := by
  induction ds using List.reverseRecOn with
  | nil => exact absurd rfl hne
  | append_singleton ds c ih =>
    obtain ⟨d, hd, hc, hcd⟩ := exists_of_isDigit (hdigits c (by simp))
    rw [number_append, hcd]
    rcases eq_or_ne ds [] with rfl | hds
    · rw [number, List.foldl_nil, Nat.zero_mul, Nat.zero_add, Nat.toDigits_of_lt_base hd, hc]
      rfl
    · have hhead : (ds ++ [c]).head? = ds.head? := by
        obtain ⟨b, ds, rfl⟩ := List.exists_cons_of_ne_nil hds
        rfl
      have hlength : 1 < (ds ++ [c]).length := by
        have := List.length_pos_iff.2 hds
        simp only [List.length_append, List.length_singleton]
        omega
      have hfirst : ds.head? ≠ some '0' := hhead ▸ hzero hlength
      have ih := ih (fun c hc => hdigits c (List.mem_append_left _ hc)) hds fun _ => hfirst
      -- a number before the last digit that is zero would be a leading zero
      have hpos : 0 < number ds := by
        refine Nat.pos_of_ne_zero fun h0 => hfirst ?_
        rw [← ih, h0]
        rfl
      have hlast : (number ds * 10 + d) % 10 = d := by omega
      have hrest : (number ds * 10 + d) / 10 = number ds := by omega
      rw [Nat.toDigits_eq_if (by decide), if_neg (by omega), hlast, hrest, ih, hc]

theorem readNumber_eq_some (h : readNumber cs = some (n, rest)) :
    cs = Nat.toDigits 10 n ++ rest := by
  simp only [readNumber] at h
  split at h
  case isTrue => cases h
  case isFalse hne =>
  split at h
  case isTrue => cases h
  case isFalse hzero =>
  split at h
  case isTrue => cases h
  case isFalse =>
  cases h
  have hdigits : ∀ c ∈ cs.takeWhile isDigit, isDigit c = true := fun _ hc =>
    List.mem_takeWhile_imp hc
  have hn := toDigits_number hdigits (by simpa using hne) fun hl h0 => hzero ⟨hl, h0⟩
  rw [number] at hn
  rw [hn, List.takeWhile_append_dropWhile]

theorem dropDot_eq_some (h : dropDot cs = some rest) : cs = '.' :: rest := by
  unfold dropDot at h
  split at h
  case h_1 => cases h; rfl
  case h_2 => cases h

/-! ### Identifiers -/

theorem readIdentifiers_eq_some {zeros : Bool} (h : readIdentifiers zeros cs = some (s, rest)) :
    cs = s.toList ++ rest ∧ s.isEmpty = false := by
  simp only [readIdentifiers] at h
  split at h
  case isTrue => cases h
  case isFalse hne =>
  split at h
  case isFalse => cases h
  case isTrue =>
  cases h
  rw [String.toList_ofList]
  refine ⟨(List.prefix_iff_eq_append.1 (List.takeWhile_prefix _)).symm, ?_⟩
  simpa [String.isEmpty_iff] using hne

/-- The characters of an optional part, with its mark. -/
def marked (mark : Char) (part : String) : List Char :=
  if part.isEmpty then [] else mark :: part.toList

theorem readPart_eq_some {mark : Char} {zeros : Bool}
    (h : readPart mark zeros cs = some (s, rest)) :
    cs = marked mark s ++ rest := by
  unfold readPart at h
  split at h
  case h_2 => cases h; rfl
  case h_1 c cs =>
  split at h
  case isFalse => cases h; rfl
  case isTrue hmark =>
  obtain ⟨rfl, hs⟩ := readIdentifiers_eq_some h
  rw [marked, hs, hmark]
  rfl

/-! ### Versions -/

theorem toList_mark (mark : String) (c : Char) (part : String) (h : mark.toList = [c]) :
    (if part.isEmpty then "" else mark ++ part).toList = marked c part := by
  unfold marked
  split
  · rfl
  · rw [String.toList_append, h, List.singleton_append]

theorem toList_display (v : Version) : v.display.toList =
    Nat.toDigits 10 v.major ++ '.' :: (Nat.toDigits 10 v.minor ++ '.' ::
      (Nat.toDigits 10 v.patch ++ (marked '-' v.pre ++ marked '+' v.build))) := by
  have hcore : (s!"{v.major}.{v.minor}.{v.patch}").toList =
      Nat.toDigits 10 v.major ++ '.' :: (Nat.toDigits 10 v.minor ++ '.' ::
        Nat.toDigits 10 v.patch) := by
    change (Nat.repr v.major ++ "." ++ Nat.repr v.minor ++ "." ++ Nat.repr v.patch).toList = _
    simp
  rw [display, String.toList_append, String.toList_append, hcore,
    toList_mark "-" '-' v.pre rfl, toList_mark "+" '+' v.build rfl]
  simp only [List.append_assoc, List.cons_append]

/-- A version text is the text of the version that it writes. -/
theorem display_of_parse? {text : String} {v : Version} (h : parse? text = some v) :
    v.display = text := by
  simp only [parse?, Option.bind_eq_bind, Option.bind_eq_some_iff, Prod.exists] at h
  obtain ⟨major, cs₁, h₁, cs₂, h₂, minor, cs₃, h₃, cs₄, h₄, patch, cs₅, h₅, pre, cs₆, h₆, build,
    cs₇, h₇, h⟩ := h
  split at h
  case isFalse => cases h
  case isTrue hend =>
  cases h
  rw [List.isEmpty_iff] at hend
  apply String.toList_inj.1
  rw [toList_display, readNumber_eq_some h₁, dropDot_eq_some h₂, readNumber_eq_some h₃,
    dropDot_eq_some h₄, readNumber_eq_some h₅, readPart_eq_some h₆, readPart_eq_some h₇, hend,
    List.append_nil]

end EventVm.Version
