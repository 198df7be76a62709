import EventVm.Proofs.Machine.Loaded

/-!
# Instruction sets

A program declares the instruction set that it was written for, with its version. Verification asks
for the name and the major number. A machine asks its options, whose requirement for the version is
`^1` if nothing else is configured. The two part at pre-releases: no requirement accepts one that it
does not name (`VersionReq.pre_of_accepts`), but verification counts them with the releases of their
major number, so that a program for a pre-release is verified and yet refused
(`Program.verify_iff_supported`).
-/

namespace EventVm

namespace VersionReq

variable {r : VersionReq} {v : Version} {major : Nat}

/-- A requirement that names no pre-release accepts none. -/
theorem pre_of_accepts (hr : ∀ c ∈ r.comparators, c.pre = "") (h : r.accepts v = true) :
    v.pre = "" := by
  obtain ⟨-, hpre⟩ := (Bool.and_eq_true ..).mp h
  obtain hpre | hnamed := (Bool.or_eq_true ..).mp hpre
  · exact String.isEmpty_iff.1 hpre
  · obtain ⟨c, hc, hnames⟩ := List.any_eq_true.1 hnamed
    simp [Comparator.namesPreOf, hr c hc] at hnames

/-- Everything compatible with a major version is the releases with its number. -/
theorem accepts_caret : (caret major).accepts v = true ↔ v.major = major ∧ v.pre = "" := by
  constructor
  · intro h
    have hmajor : v.major = major := by
      simpa [accepts, caret, Comparator.accepts, Comparator.matchesCaret] using
        ((Bool.and_eq_true ..).mp h).1
    exact ⟨hmajor, pre_of_accepts (by simp [caret]) h⟩
  · rintro ⟨rfl, hpre⟩
    simp [accepts, caret, Comparator.accepts, Comparator.matchesCaret, hpre]

end VersionReq

section Support

variable {o : Options} {p : Program} {m : Machine} {heap : Heap} {set version : String}

/-- Unless configured otherwise, a host runs the releases of one major version. -/
theorem Options.supports_default {v : Version} : Options.default.supports set v = true ↔
    (set = instructionSetName ∧ v.major = instructionSetVersion.major) ∧ v.pre = "" := by
  rw [supports, Bool.and_eq_true, beq_iff_eq, and_assoc]
  exact and_congr_right' VersionReq.accepts_caret

/-- Verification asks for the name and the major number of the instruction set. -/
theorem Program.verify_eq_ok : p.verify = .ok () ↔
    (p.instructionSet = instructionSetName ∧ p.version.major = instructionSetVersion.major) ∧
      p.verifyStructure = .ok () := by
  unfold verify
  split
  · next h => exact (and_iff_right h).symm
  · next h => exact iff_of_false nofun fun h' => h h'.1

/-- The instruction set is looked at first, and refused for no other reason than that the options do
not support it. -/
theorem Machine.checkLoad_eq_unsupported :
    checkLoad o p heap = .error (.unsupportedInstructionSet set version) ↔
      o.supports p.instructionSet p.version = false ∧ set = p.instructionSet ∧
        version = p.version.display := by
  unfold checkLoad
  cases hs : o.supports p.instructionSet p.version with
  | false =>
    change Except.error (VmError.unsupportedInstructionSet ..) = _ ↔ _
    simp [eq_comm]
  | true =>
    refine iff_of_false (fun h => ?_) nofun
    obtain hverify | ⟨_, -, h⟩ := bind_eq_error.1 h
    · obtain ⟨_, -, he⟩ := mapError_eq_error.1 hverify
      cases he
    · dsimp only at h
      split at h
      · obtain h | ⟨_, -, h⟩ := bind_eq_error.1 h
        · cases h
        · split at h <;> cases h
      · split at h <;> cases h

/-- A machine refuses the instruction set of a program exactly if its options do not support it,
whatever else is wrong with the program. -/
theorem Machine.load_eq_unsupported :
    m.load o p heap = .error (.unsupportedInstructionSet set version) ↔
      o.supports p.instructionSet p.version = false ∧ set = p.instructionSet ∧
        version = p.version.display := by
  have hcheck : m.load o p heap = .error (.unsupportedInstructionSet set version) ↔
      checkLoad o p heap = .error (.unsupportedInstructionSet set version) := by
    constructor
    · intro h
      obtain h | ⟨_, -, h⟩ := bind_eq_error.1 h
      · exact h
      · cases h
    · exact fun h => bind_eq_error.2 (.inl h)
  exact hcheck.trans checkLoad_eq_unsupported

/-- **Verification and default machines.** Of the programs that are sound otherwise, those for
releases are verified exactly if a machine with default options runs their instruction set. Those
for pre-releases no such machine runs, and they are verified like releases. -/
theorem Program.verify_iff_supported (h : p.verifyStructure = .ok ()) :
    (p.version.pre = "" → (p.verify = .ok () ↔
      Options.default.supports p.instructionSet p.version = true)) ∧
    (p.version.pre ≠ "" → Options.default.supports p.instructionSet p.version = false ∧
      (p.verify = .ok () ↔ p.instructionSet = instructionSetName ∧
        p.version.major = instructionSetVersion.major)) ∧
    (Options.default.supports p.instructionSet p.version = true ↔
      p.verify = .ok () ∧ p.version.pre = "") ∧
    ∀ (m : Machine) heap set version,
      m.load .default p heap = .error (.unsupportedInstructionSet set version) ↔
        Options.default.supports p.instructionSet p.version = false ∧ set = p.instructionSet ∧
          version = p.version.display := by
  have hverify : p.verify = .ok () ↔ p.instructionSet = instructionSetName ∧
      p.version.major = instructionSetVersion.major :=
    verify_eq_ok.trans (and_iff_left h)
  have hsupports : Options.default.supports p.instructionSet p.version = true ↔
      p.verify = .ok () ∧ p.version.pre = "" := by
    rw [hverify]
    exact Options.supports_default
  refine ⟨fun hpre => ?_, fun hpre => ⟨?_, hverify⟩, hsupports,
    fun m heap set version => Machine.load_eq_unsupported⟩
  · rw [hsupports, and_iff_left hpre]
  · exact Bool.eq_false_iff.2 fun hs => hpre (hsupports.1 hs).2

/-- A program that copies a number, for a version of the instruction set. -/
def Program.copying (version : Version) : Program :=
  { Program.empty "copying" with
    version
    code := Instruction.encodeWords .push (some 0) ++ Instruction.encodeWords .push (some 1) ++
      Instruction.encodeWords .copy none ++ Instruction.encodeWords .jump (some haltAddress)
    heap := ⟨[⟨.int32, .value (.int32 7)⟩, ⟨.int32, .value (.int32 0)⟩]⟩ }

/-- For a later release of the first version it is verified and run, for the second version it is
neither. -/
theorem Program.verify_iff_supported_copying :
    ((copying ⟨1, 7, 2, "", ""⟩).verify = .ok () ∧
      Options.default.supports "UDON" ⟨1, 7, 2, "", ""⟩ = true) ∧
    let second := copying ⟨2, 0, 0, "", ""⟩
    second.verify ≠ .ok () ∧ (Machine.new .default).load .default second second.heap =
      .error (.unsupportedInstructionSet "UDON" "2.0.0") := by
  have hverify : (copying ⟨1, 7, 2, "", ""⟩).verify = .ok () := by decide +kernel
  have hunsupported : Options.default.supports "UDON" ⟨2, 0, 0, "", ""⟩ = false := by
    decide +kernel
  have hversion : (⟨2, 0, 0, "", ""⟩ : Version).display = "2.0.0" := by decide +kernel
  obtain ⟨hrelease, -, -, -⟩ :=
    verify_iff_supported (p := copying ⟨1, 7, 2, "", ""⟩) (by decide +kernel)
  obtain ⟨hsecond, -, -, hload⟩ :=
    verify_iff_supported (p := copying ⟨2, 0, 0, "", ""⟩) (by decide +kernel)
  refine ⟨⟨hverify, (hrelease rfl).1 hverify⟩, fun h => ?refused, ?load⟩
  case refused => exact Bool.false_ne_true (hunsupported.symm.trans ((hsecond rfl).1 h))
  case load => exact (hload _ _ _ _).2 ⟨hunsupported, rfl, hversion.symm⟩

/-- A program for a version before the first. -/
def Program.preview : Program :=
  { Program.empty "preview" with version := ⟨1, 0, 0, "alpha.1", ""⟩ }

/-- It is verified, and refused for its instruction set. -/
theorem Program.preview_refused : Program.preview.verifyStructure = .ok () ∧
    ¬ (Program.preview.verify = .ok () ↔
      Options.default.supports Program.preview.instructionSet Program.preview.version = true) ∧
    (Machine.new .default).load .default .preview Program.preview.heap =
      .error (.unsupportedInstructionSet "UDON" "1.0.0-alpha.1") := by
  have hverify : Program.preview.verify = .ok () := rfl
  have hunsupported : ¬ Options.default.supports Program.preview.instructionSet
      Program.preview.version = true := by
    decide +kernel
  refine ⟨rfl, fun h => hunsupported (h.1 hverify), ?_⟩
  exact Machine.load_eq_unsupported.2 ⟨Bool.eq_false_iff.2 hunsupported, rfl, by decide +kernel⟩

end Support

end EventVm
