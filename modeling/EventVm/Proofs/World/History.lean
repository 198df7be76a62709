import EventVm.Proofs.World.Lookup

/-!
# What was written since

`w.Wrote P w'` says that the journal of `w'` is that of `w` with more entries, each of which has the
property `P`. Statements about all moments of a run are statements about the entries that it writes.
-/

namespace EventVm

namespace World

variable {P : Entry → Prop} {u v w : World}

/-- The journal of `w'` is that of `w` with more entries, which have the property. -/
def Wrote (P : Entry → Prop) (w w' : World) : Prop :=
  ∃ new, w'.journal = new ++ w.journal ∧ ∀ e ∈ new, P e

theorem Wrote.of_eq (h : w.journal = v.journal) : Wrote P v w :=
  ⟨[], h, fun _ he => nomatch he⟩

theorem Wrote.refl (w : World) : Wrote P w w :=
  .of_eq rfl

theorem Wrote.trans (h : Wrote P u v) (h' : Wrote P v w) : Wrote P u w := by
  obtain ⟨new, hj, hn⟩ := h
  obtain ⟨new', hj', hn'⟩ := h'
  refine ⟨new' ++ new, by rw [hj', hj, List.append_assoc], fun e he => ?_⟩
  obtain he | he := List.mem_append.1 he
  · exact hn' e he
  · exact hn e he

theorem Wrote.note {e : Entry} (h : P e) (w : World) : Wrote P w (w.note e) :=
  ⟨[e], rfl, fun e' he' => by rwa [List.mem_singleton.1 he']⟩

end World

end EventVm
