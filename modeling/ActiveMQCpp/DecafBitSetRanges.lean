import ActiveMQCpp.DecafBitSetMembers

/-! The operations of `BitSet` on ranges of indexes, its copies and its slices. An index of a word in use fits
into an `int` as long as fewer than `2^25` words are in use. -/

namespace ActiveMQCpp.Decaf.BitSet

open MachineInt

variable {s : BitSet} {bits bits' : Words} {i pos count fromIndex toIndex : Nat}

theorem shiftOffset_eq (h : count < 33554432) : shiftOffset count = (64 * count : Nat) := by
  rw [shiftOffset, toInt32_of_range (by omega) (by omega), Nat.mul_comm]

theorem invalidRange_natCast (h : fromIndex ≤ toIndex) : invalidRange fromIndex toIndex = false := by
  have hfrom : decide ((fromIndex : Int) < 0) = false := decide_eq_false (by omega)
  have hto : decide ((toIndex : Int) < 0) = false := decide_eq_false (by omega)
  have horder : decide ((toIndex : Int) < fromIndex) = false := decide_eq_false (by omega)
  rw [invalidRange, hfrom, hto, horder]
  rfl

def inRange (fromIndex toIndex j : Nat) : Bool := decide (fromIndex ≤ j ∧ j < toIndex)

theorem inRange_self (fromIndex j : Nat) : inRange fromIndex fromIndex j = false := decide_eq_false (by omega)

theorem Inv.setRange (h : s.Inv) (hle : fromIndex ≤ toIndex) : ∃ s', s.setRange fromIndex toIndex = .ok s' ∧
    Becomes s ((toIndex - 1) / 64 + 1) (fun j => inRange fromIndex toIndex j || s.member j) s' := by
  rw [BitSet.setRange, invalidRange_natCast hle, if_neg Bool.false_ne_true]
  by_cases hempty : fromIndex = toIndex
  · subst hempty
    rw [if_pos rfl]
    refine ⟨s, rfl, h, ?_, by omega⟩
    intro j
    rw [inRange_self, Bool.false_or]
  · have hlt : fromIndex < toIndex := by omega
    obtain ⟨t, hreserve, ht, hroom, hused, -, -, hsame⟩ := h.reserve ((toIndex - 1) / 64 + 1)
    obtain ⟨bits', hrun, hlength, hbits⟩ := modifyRange_ok isBitwise_or hlt (show (toIndex - 1) / 64 < t.bits.length by omega)
    have hold : ∀ j, bit t.bits j = s.member j := by
      intro j
      rw [bit, hsame, member, bit]
    have hmember : ∀ j, bit bits' j = (inRange fromIndex toIndex j || s.member j) := by
      intro j
      rw [hbits, hold, inRange]
    have hfits := ht.fits
    rw [if_neg (by omega)]
    simp only [Int.toNat_natCast, hreserve, bind, Except.bind, hrun]
    have houtside : ∀ j, 64 * t.actualArrayLength ≤ j → 64 * ((toIndex - 1) / 64 + 1) ≤ j → bit bits' j = false := by
      intro j hunused hbeyond
      rw [hmember, h.member_unused (by omega), inRange, decide_eq_false (by omega), Bool.false_or]
    by_cases hgrow : (toIndex - 1) / 64 + 1 > t.actualArrayLength
    · rw [if_pos hgrow]
      refine ⟨_, rfl, Inv.of_bits (hlength.trans ht.size) ?_ ?_ ?_ ?_, hmember, ?_⟩
      · simp only [hlength]
        exact hroom
      · intro j hj
        simp only at hj
        exact houtside j (by omega) hj
      · intro hfalse
        cases hfalse
      · intro _ _
        have hlast : bit bits' (toIndex - 1) = true := by
          rw [hmember, inRange, decide_eq_true (by omega), Bool.true_or]
        exact getD_ne_zero hlast
      · simp only
        omega
    · rw [if_neg hgrow]
      refine ⟨_, rfl, Inv.of_bits (hlength.trans ht.size) ?_ ?_ ?_ ?_, hmember, ?_⟩
      · simp only [hlength]
        exact hfits
      · intro j hj
        simp only at hj
        exact houtside j hj (by omega)
      · intro hfalse
        cases hfalse
      · intro hactual hpos
        obtain ⟨k, hlow, hhigh, hbit⟩ := exists_bit (ht.actual hactual hpos)
        have hk : k / 64 = t.actualArrayLength - 1 := by omega
        have hset : bit bits' k = true := by rw [hmember, ← hold, hbit, Bool.or_true]
        rw [← hk]
        exact getD_ne_zero hset
      · simp only
        omega

theorem Inv.clearRange (h : s.Inv) (hbound : s.actualArrayLength < 33554432) (hle : fromIndex ≤ toIndex) :
    ∃ s', s.clearRange fromIndex toIndex = .ok s' ∧
      Becomes s 0 (fun j => !inRange fromIndex toIndex j && s.member j) s' := by
  rw [BitSet.clearRange, invalidRange_natCast hle, if_neg Bool.false_ne_true]
  cases hclear : s.needClear with
  | false =>
    refine ⟨s, rfl, h, ?_, by omega⟩
    intro j
    rw [h.fresh hclear j, Bool.and_false]
  | true =>
    simp only [Bool.true_eq_false, if_false, shiftOffset_eq hbound]
    by_cases hnothing : (fromIndex : Int) ≥ (64 * s.actualArrayLength : Nat) ∨ (fromIndex : Int) = toIndex
    · rw [if_pos hnothing]
      refine ⟨s, rfl, h, ?_, by omega⟩
      intro j
      by_cases hj : inRange fromIndex toIndex j = true
      · have hrange := of_decide_eq_true hj
        rw [h.member_unused (by omega), Bool.and_false]
      · rw [Bool.not_eq_true] at hj
        rw [hj, Bool.not_false, Bool.true_and]
    · rw [if_neg hnothing]
      have hto : (if (toIndex : Int) > (64 * s.actualArrayLength : Nat) then ((64 * s.actualArrayLength : Nat) : Int)
          else toIndex) = (min toIndex (64 * s.actualArrayLength) : Nat) := by
        split_ifs with hmore <;> omega
      have hfits := h.fits
      obtain ⟨bits', hrun, hlength, hbits⟩ := modifyRange_ok isBitwise_andNot
        (show fromIndex < min toIndex (64 * s.actualArrayLength) by omega)
        (show (min toIndex (64 * s.actualArrayLength) - 1) / 64 < s.bits.length by omega)
      obtain ⟨b, hlast, hactual⟩ := lastWordUsed_eq (show s.actualArrayLength ≤ bits'.length by omega)
      simp only [hto, Int.toNat_natCast, bind, Except.bind, hrun, hlast]
      refine ⟨_, rfl, Inv.of_bits (hlength.trans h.size) ?_ ?_ ?_ ?_, ?_, ?_⟩
      · simp only [hlength]
        exact hfits
      · intro j hj
        rw [member, hbits, ← member, h.member_unused hj, Bool.and_false]
      · intro hfalse
        cases hfalse
      · intro hflag hpos
        rw [Bool.and_eq_true] at hflag
        exact hactual hflag.2 hpos
      · intro j
        rw [member, hbits, ← member, inRange]
        by_cases hj : j < 64 * s.actualArrayLength
        · have hsame : (fromIndex ≤ j ∧ j < min toIndex (64 * s.actualArrayLength)) ↔ (fromIndex ≤ j ∧ j < toIndex) := by
            omega
          simp only [hsame]
        · rw [h.member_unused (by omega), Bool.and_false, Bool.and_false]
      · simp only
        omega

theorem Inv.flipRange (h : s.Inv) (hle : fromIndex ≤ toIndex) : ∃ s', s.flipRange fromIndex toIndex = .ok s' ∧
    Becomes s ((toIndex - 1) / 64 + 1) (fun j => inRange fromIndex toIndex j ^^ s.member j) s' := by
  rw [BitSet.flipRange, invalidRange_natCast hle, if_neg Bool.false_ne_true]
  by_cases hempty : fromIndex = toIndex
  · subst hempty
    rw [if_pos rfl]
    refine ⟨s, rfl, h, ?_, by omega⟩
    intro j
    rw [inRange_self, Bool.false_xor]
  · have hlt : fromIndex < toIndex := by omega
    obtain ⟨t, hreserve, ht, hroom, hused, -, -, hsame⟩ := h.reserve ((toIndex - 1) / 64 + 1)
    obtain ⟨bits', hrun, hlength, hbits⟩ := modifyRange_ok isBitwise_xor hlt (show (toIndex - 1) / 64 < t.bits.length by omega)
    have hmember : ∀ j, bit bits' j = (inRange fromIndex toIndex j ^^ s.member j) := by
      intro j
      rw [hbits, bit, hsame, member, bit, inRange]
    have hfits := ht.fits
    obtain ⟨b, hlast, hactual⟩ :=
      lastWordUsed_eq (show max t.actualArrayLength ((toIndex - 1) / 64 + 1) ≤ bits'.length by omega)
    rw [if_neg (by omega)]
    simp only [Int.toNat_natCast, hreserve, bind, Except.bind, hrun, hlast]
    refine ⟨_, rfl, Inv.of_bits (hlength.trans ht.size) ?_ ?_ ?_ hactual, hmember, ?_⟩
    · simp only [hlength]
      omega
    · intro j hj
      simp only at hj
      rw [member, hmember, h.member_unused (by omega), inRange, decide_eq_false (by omega)]
      rfl
    · intro hfalse
      cases hfalse
    · simp only
      omega

theorem Inv.clearAll (h : s.Inv) : ∃ s', s.clearAll = .ok s' ∧ Becomes s 0 (fun _ => false) s' := by
  rw [BitSet.clearAll]
  cases hclear : s.needClear with
  | false => exact ⟨s, rfl, h, h.fresh hclear, by omega⟩
  | true =>
    have hsize := h.size
    obtain ⟨bits', hrun, hupdated⟩ := @modifyWords_ok (fun _ => 0) 0 s.bitsSize s.bits (by omega)
    have hzero : ∀ pos, bits'.getD pos 0 = 0 := by
      intro pos
      rw [hupdated.word]
      split_ifs with hin
      · rfl
      · rw [List.getD_eq_default _ _ (by omega)]
    have hnone : ∀ j, bit bits' j = false := by
      intro j
      rw [bit, hzero, getLsbD_zero]
    simp only [if_true, bind, Except.bind, hrun]
    refine ⟨_, rfl, ⟨hupdated.length.trans hsize, Nat.zero_le _, fun pos _ => hzero pos, fun _ => hnone, ?_⟩, hnone, ?_⟩
    · intro _ hpos
      exact absurd hpos (Nat.lt_irrefl 0)
    · simp only
      omega

theorem Inv.copy (h : s.Inv) : s.copy = .ok s := by
  have hsize := h.size
  have hfits : ¬ (s.bitsSize > s.bits.length ∨ s.bitsSize ≠ s.bitsSize) := by omega
  have htake : s.bits.take s.bitsSize = s.bits := List.take_of_length_le (by omega)
  rw [BitSet.copy, arraycopy, if_neg hfits, htake]
  rfl

end ActiveMQCpp.Decaf.BitSet
