import Mathlib.Tactic.Common

/-!
# Computations that may fail

What is known of the parts of a computation when its outcome is known.
-/

namespace EventVm

variable {ε ε' α β : Type}

theorem bind_eq_ok {x : Except ε α} {f : α → Except ε β} {b : β} :
    x >>= f = .ok b ↔ ∃ a, x = .ok a ∧ f a = .ok b := by
  cases x with
  | error e => simp [bind, Except.bind]
  | ok a => simp [bind, Except.bind]

theorem bind_eq_error {x : Except ε α} {f : α → Except ε β} {e : ε} :
    x >>= f = .error e ↔ x = .error e ∨ ∃ a, x = .ok a ∧ f a = .error e := by
  cases x with
  | error e' => simp [bind, Except.bind]
  | ok a => simp [bind, Except.bind]

theorem map_eq_ok {c : Except ε α} {f : α → β} {b : β} :
    c.map f = .ok b ↔ ∃ a, c = .ok a ∧ f a = b := by
  cases c with
  | error e => simp [Except.map]
  | ok a => simp [Except.map]

theorem mapError_eq_ok {c : Except ε α} {g : ε → ε'} {a : α} :
    c.mapError g = .ok a ↔ c = .ok a := by
  cases c with
  | error e => simp [Except.mapError]
  | ok b => simp [Except.mapError]

theorem mapError_eq_error {c : Except ε α} {g : ε → ε'} {e' : ε'} :
    c.mapError g = .error e' ↔ ∃ e, c = .error e ∧ g e = e' := by
  cases c with
  | error e => simp [Except.mapError]
  | ok b => simp [Except.mapError]

theorem toOption_eq_some {c : Except ε α} {a : α} : c.toOption = some a ↔ c = .ok a := by
  cases c with
  | error e => simp [Except.toOption]
  | ok b => simp [Except.toOption]

/-! ### Folds -/

section Folds

variable {f : β → α → Except ε β} {motive : List α → β → Prop} {xs : List α} {b b' : β}

/-- What holds at the beginning and is kept by every step holds of the outcome of a fold. -/
theorem foldlM_induct (h : xs.foldlM f b = .ok b') (start : motive [] b)
    (step : ∀ ys y b b', y ∈ xs → motive ys b → f b y = .ok b' → motive (ys ++ [y]) b') :
    motive xs b' := by
  suffices ∀ ys, motive ys b → motive (ys ++ xs) b' from this [] start
  clear start
  induction xs generalizing b with
  | nil =>
    intro ys hys
    cases h
    rwa [List.append_nil]
  | cons x xs ih =>
    intro ys hys
    rw [List.foldlM_cons] at h
    obtain ⟨b₁, hb₁, h⟩ := bind_eq_ok.1 h
    rw [List.append_cons]
    refine ih h (fun ys y b b' hy => step ys y b b' (List.mem_cons_of_mem x hy)) _ ?_
    exact step ys x b b₁ List.mem_cons_self hys hb₁

/-- A fold goes through or fails for one of the reasons for which its steps may fail. -/
theorem foldlM_outcome {Reason : ε → Prop} (start : motive [] b)
    (step : ∀ ys y zs b, xs = ys ++ y :: zs → motive ys b →
      (∃ b', f b y = .ok b' ∧ motive (ys ++ [y]) b') ∨ ∃ e, f b y = .error e ∧ Reason e) :
    (∃ b', xs.foldlM f b = .ok b' ∧ motive xs b') ∨ ∃ e, xs.foldlM f b = .error e ∧ Reason e := by
  suffices ∀ zs ys, xs = ys ++ zs → ∀ b, motive ys b →
      (∃ b', zs.foldlM f b = .ok b' ∧ motive xs b') ∨ ∃ e, zs.foldlM f b = .error e ∧ Reason e from
    this xs [] rfl b start
  intro zs
  induction zs with
  | nil =>
    intro ys hxs b hys
    rw [hxs, List.append_nil]
    exact .inl ⟨b, rfl, hys⟩
  | cons z zs ih =>
    intro ys hxs b hys
    rw [List.foldlM_cons]
    obtain ⟨b₁, hb₁, hz⟩ | ⟨e, he, hreason⟩ := step ys z zs b hxs hys
    · rw [hb₁]
      exact ih (ys ++ [z]) (by rw [hxs, List.append_cons]) b₁ hz
    · rw [he]
      exact .inr ⟨e, rfl, hreason⟩

end Folds

end EventVm
