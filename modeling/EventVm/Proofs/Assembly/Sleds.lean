import EventVm.Proofs.Assembly.Verification
import EventVm.Proofs.Text.Lines

/-!
# Code behind the last offset

Offsets are 32 bits wide, and the assembler lets them wrap around. A source with a label in front of
a sled of `n` instructions without effect (`sledSource`) is assembled however long the sled is
(`exists_sled`), and the program passes the checks if there is an instruction at all
(`Compiles.verify_sled`). In a sled of more than 2 ^ 30 instructions two of them have one offset,
and both begin where the label stands (`Compiles.exists_overlap`).
-/

namespace EventVm.Assembly

open Instruction (totalSize)

variable {name : String} {n : Nat} {p : Program} {is : List Instruction}

/-- A label in front of a sled of `n` instructions without effect. -/
def sledSource (n : Nat) : String :=
  String.join ((".code_start" :: "start:" :: (List.replicate n "NOP" ++ [".code_end"])).map
    (· ++ "\n"))

/-- What that source says. -/
def sledStatements (n : Nat) : List Placed :=
  ⟨.outside, .enter .code⟩ :: ⟨.code, .label "start"⟩ ::
    (List.replicate n ⟨.code, .instruction .nop none⟩ ++ [⟨.code, .enter .outside⟩])

theorem statementsFrom_sled (n : Nat) :
    statementsFrom .code (List.replicate n "NOP".toList ++ [".code_end".toList]) =
      .ok (List.replicate n ⟨.code, .instruction .nop none⟩ ++ [⟨.code, .enter .outside⟩]) := by
  induction n with
  | zero => rfl
  | succ n ih =>
    have hnop : statement? .code "NOP".toList = .ok (some (.instruction .nop none)) := by decide
    rw [List.replicate_succ, List.replicate_succ, List.cons_append, List.cons_append,
      statementsFrom_statement hnop]
    simp only [Region.after, ih]
    rfl

theorem statements_sledSource (n : Nat) : statements (sledSource n) = .ok (sledStatements n) := by
  have hlines : Text.lines (sledSource n).toList = ".code_start".toList :: "start:".toList ::
      (List.replicate n "NOP".toList ++ [".code_end".toList]) := by
    rw [sledSource, Text.lines_join]
    · simp only [List.map_cons, List.map_append, List.map_replicate, List.map_nil]
    · have hline : ∀ t ∈ [".code_start", "start:", "NOP", ".code_end"], Text.IsLine t.toList := by
        decide
      refine fun t ht => hline t ?_
      simp only [List.mem_cons, List.mem_append, List.mem_replicate, List.not_mem_nil] at ht ⊢
      tauto
  have hcode : statement? .outside ".code_start".toList = .ok (some (.enter .code)) := rfl
  have hlabel : statement? .code "start:".toList = .ok (some (.label "start")) := by decide
  rw [statements, hlines, statementsFrom_statement hcode]
  simp only [Region.after, statementsFrom_statement hlabel, statementsFrom_sled]
  rfl

/-! ### The sled taken together -/

@[simp]
theorem instructionsOf_sled (n : Nat) :
    instructionsOf (sledStatements n) = List.replicate n ⟨.nop, none⟩ := by
  simp [sledStatements, instructionsOf]

@[simp]
theorem declarationsOf_sled (n : Nat) : declarationsOf (sledStatements n) = [] := by
  simp [sledStatements, declarationsOf]

@[simp]
theorem exportsOf_sled (r : Region) (n : Nat) : exportsOf r (sledStatements n) = [] := by
  simp [sledStatements, exportsOf]

@[simp]
theorem syncsOf_sled (n : Nat) : syncsOf (sledStatements n) = [] := by
  simp [sledStatements, syncsOf]

@[simp]
theorem marksOf_sled (n : Nat) : marksOf (sledStatements n) = [⟨"start", 0⟩] := by
  have hnone : marksFrom 0 (List.replicate n (Placed.mk .code (.instruction .nop none)) ++
      [⟨.code, .enter .outside⟩]) = [] := by
    refine marksFrom_eq_nil (List.forall_mem_append.2 ⟨?_, List.forall_mem_singleton.2 nofun⟩)
    exact fun s hs => by rw [List.eq_of_mem_replicate hs]; exact nofun
  simp [sledStatements, marksOf, marksFrom, hnone]

@[simp]
theorem textsOf_sled (n : Nat) : textsOf (List.replicate n ⟨.nop, none⟩) = [] := by
  simp [textsOf, quoted?]

theorem consistent_sled (n : Nat) : Consistent (sledStatements n) where
  variables_nodup := by simp
  wellTyped := by simp
  labels_nodup := by simp
  dataExports := by simp
  syncs := by simp
  codeExports := by simp
  operands x hx o ho := by
    rw [instructionsOf_sled] at hx
    cases List.eq_of_mem_replicate hx
    cases ho

/-- A sled of any length is assembled. -/
theorem exists_sled (name : String) (n : Nat) :
    ∃ p is, assemble name (sledSource n) = .ok p ∧ Compiles name (sledStatements n) is p :=
  exists_assembled name (statements_sledSource n) (consistent_sled n)

/-! ### The assembled sled -/

namespace Compiles

variable (h : Compiles name (sledStatements n) is p)

include h

theorem length_sled : is.length = n := by
  have hlength := h.instructions.length_eq
  rwa [instructionsOf_sled, List.length_replicate, eq_comm] at hlength

theorem heap_sled : p.heap.slots = [] := by
  simp [h.slots]

theorem symbols_sled : p.symbols.symbols = [] := by
  simp [h.symbols, symbolsOf, textSymbols]

/-- An instruction of the sled has four bytes. -/
theorem offsetAt_sled {k : Nat} (hk : k ≤ n) : offsetAt p is k = UInt32.ofNat (4 * k) := by
  have hsize : totalSize (is.take k) = 4 * k := by
    rw [← codeSize_eq_totalSize (List.forall₂_take k h.instructions), instructionsOf_sled,
      List.take_replicate, Nat.min_eq_left hk, codeSize, List.map_replicate, List.sum_replicate]
    exact Nat.mul_comm ..
  rw [offsetAt_eq h.listed, hsize]

theorem entryPoints_sled : p.entryPoints.symbols = [⟨"start", 0, .object, false⟩] := by
  have hoffset := h.offsetAt_sled (Nat.zero_le n)
  simp [h.entryPoints, Mark.place, hoffset, entryOf]

/-- A sled passes the checks. -/
theorem verify_sled (hn : 0 < n) : p.verify = .ok () := by
  refine h.verify_eq_ok (by simp) (by simp) (by simp) ?numbers ?calls (by simpa using hn)
  all_goals
    intro x hx
    rw [instructionsOf_sled] at hx
    cases List.eq_of_mem_replicate hx
    exact nofun

/-- **Offsets wrap around.** In a sled of more than 2 ^ 30 instructions two begin where the label
stands. -/
theorem exists_overlap (hn : 2 ^ 30 < n) : ∃ i j : Nat, ∃ (hij : i < j) (hj : j < is.length),
    is[i].offset = 0 ∧ is[j].offset = 0 := by
  have hlength := h.length_sled
  have hoffset : ∀ k (hk : k < is.length), is[k].offset = UInt32.ofNat (4 * k) := by
    intro k hk
    rw [← h.offsetAt_sled (hlength ▸ hk.le), offsetAt, List.getElem?_eq_getElem hk]
  refine ⟨0, 2 ^ 30, by decide, by omega, ?_, ?_⟩
  · rw [hoffset]
    rfl
  · rw [hoffset]
    rfl

end Compiles

end EventVm.Assembly
