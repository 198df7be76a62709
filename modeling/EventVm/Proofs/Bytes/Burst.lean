import EventVm.Bytes.LittleEndian.Lemmas

/-!
# Bursts

A burst is damage that is confined to a window: the bytes before and behind the window are those of
the undamaged byte string, and some byte inside it is not. Everything read in front of the window or
behind it is read as before (`Burst.take_eq`, `Burst.drop_eq`), and a word that is the window itself
is read differently (`Burst.wordAt_ne`).
-/

namespace EventVm

/-- The word in the four bytes from `offset` on. -/
def wordAt (offset : Nat) (bytes : Bytes) : UInt32 :=
  UInt32.ofNat (ofLittleEndian ((bytes.drop offset).take 4))

/-- `received` is `sent` with some bytes changed, all of them among the `count` bytes from `first`
on. -/
structure Burst (first count : Nat) (sent received : Bytes) : Prop where
  length_eq : received.length = sent.length
  before : received.take first = sent.take first
  behind : received.drop (first + count) = sent.drop (first + count)
  ne : received ≠ sent

instance (first count : Nat) (sent received : Bytes) :
    Decidable (Burst first count sent received) :=
  decidable_of_iff (received.length = sent.length ∧ received.take first = sent.take first ∧
      received.drop (first + count) = sent.drop (first + count) ∧ received ≠ sent)
    ⟨fun ⟨hl, hb, ha, hne⟩ => ⟨hl, hb, ha, hne⟩, fun ⟨hl, hb, ha, hne⟩ => ⟨hl, hb, ha, hne⟩⟩

/-- Words of four bytes are told apart by their numbers. -/
theorem ofLittleEndian_inj {bs bs' : Bytes} (hl : bs.length = bs'.length)
    (h : ofLittleEndian bs = ofLittleEndian bs') : bs = bs' := by
  rw [← littleEndian_ofLittleEndian bs, ← littleEndian_ofLittleEndian bs', hl, h]

theorem wordAt_inj {offset : Nat} {bytes bytes' : Bytes} (hl : bytes.length = bytes'.length)
    (h : wordAt offset bytes = wordAt offset bytes') :
    (bytes.drop offset).take 4 = (bytes'.drop offset).take 4 := by
  have hword : ∀ bs : Bytes, ofLittleEndian ((bs.drop offset).take 4) < 2 ^ 32 := by
    intro bs
    refine (ofLittleEndian_lt _).trans_le ?_
    have h4 : ((bs.drop offset).take 4).length ≤ 4 := List.length_take_le 4 _
    exact Nat.pow_le_pow_right (by decide) h4
  refine ofLittleEndian_inj (by simp [hl]) ?_
  have h := congrArg UInt32.toNat h
  rwa [wordAt, wordAt, UInt32.toNat_ofNat', UInt32.toNat_ofNat', Nat.mod_eq_of_lt (hword bytes),
    Nat.mod_eq_of_lt (hword bytes')] at h

namespace Burst

variable {first count offset : Nat} {sent received : Bytes}

theorem take_eq (h : Burst first count sent received) (ho : offset ≤ first) :
    received.take offset = sent.take offset := by
  have hb := congrArg (List.take offset) h.before
  rwa [List.take_take, List.take_take, Nat.min_eq_left ho] at hb

theorem drop_eq (h : Burst first count sent received) (ho : first + count ≤ offset) :
    received.drop offset = sent.drop offset := by
  have hb := congrArg (List.drop (offset - (first + count))) h.behind
  rwa [List.drop_drop, List.drop_drop, Nat.add_sub_cancel' ho] at hb

theorem wordAt_eq_of_before (h : Burst first count sent received) (ho : offset + 4 ≤ first) :
    wordAt offset received = wordAt offset sent := by
  rw [wordAt, wordAt, List.take_drop, List.take_drop, h.take_eq ho]

theorem wordAt_eq_of_behind (h : Burst first count sent received) (ho : first + count ≤ offset) :
    wordAt offset received = wordAt offset sent := by
  rw [wordAt, wordAt, h.drop_eq ho]

/-- The window holds the difference. -/
theorem window_ne (h : Burst first count sent received) :
    (received.drop first).take count ≠ (sent.drop first).take count := by
  intro hw
  apply h.ne
  have hdrop : received.drop first = sent.drop first := by
    rw [← List.take_append_drop count (received.drop first), hw, List.drop_drop, h.behind,
      ← List.drop_drop, List.take_append_drop]
  rw [← List.take_append_drop first received, h.before, hdrop, List.take_append_drop]

theorem wordAt_ne (h : Burst first 4 sent received) : wordAt first received ≠ wordAt first sent :=
  fun hw => h.window_ne (wordAt_inj h.length_eq hw)

/-- A burst stays one when bytes in front of its window are dropped. -/
theorem drop (h : Burst first count sent received) (ho : offset ≤ first) :
    Burst (first - offset) count (sent.drop offset) (received.drop offset) where
  length_eq := by rw [List.length_drop, List.length_drop, h.length_eq]
  before := by
    rw [List.take_drop, List.take_drop, Nat.add_sub_cancel' ho, h.before]
  behind := by
    rw [List.drop_drop, List.drop_drop]
    exact h.drop_eq (by omega)
  ne := by
    intro hd
    apply h.ne
    rw [← List.take_append_drop offset received, h.take_eq ho, hd, List.take_append_drop]

/-- One byte changed is a burst within every window around it. -/
theorem of_modify {bytes : Bytes} {change : UInt8 → UInt8} (hchange : ∀ b, change b ≠ b)
    (hfirst : first ≤ offset) (hlast : offset < first + count) (h : offset < bytes.length) :
    Burst first count bytes (bytes.modify offset change) where
  length_eq := List.length_modify change bytes offset
  before := by
    rw [List.take_modify, List.modify_eq_self ((List.length_take_le first bytes).trans hfirst)]
  behind := List.drop_modify_of_lt change offset _ bytes hlast
  ne := by
    intro heq
    have hbyte := congrArg (·[offset]?) heq
    simp only [List.getElem?_modify_eq, List.getElem?_eq_getElem h] at hbyte
    exact hchange _ (Option.some.inj hbyte)

end Burst

end EventVm
