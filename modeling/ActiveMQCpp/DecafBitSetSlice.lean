import ActiveMQCpp.DecafBitSetRanges

/-! The slice that `get(int fromIndex, int toIndex)` copies out of a `BitSet`: the words are masked at both ends
and shifted down to start at the first index. -/

namespace ActiveMQCpp.Decaf.BitSet

open MachineInt List

variable {s : BitSet} {bits : Words} {fromIndex toIndex : Nat}

theorem getD_cons (w : BitVec 64) (ws : Words) (pos : Nat) : (w :: ws).getD (pos + 1) 0 = ws.getD pos 0 := by
  rw [getD_eq_getElem?_getD, getD_eq_getElem?_getD, List.getElem?_cons_succ]

/-! ### Shifting down -/

theorem length_shiftDown (n : Nat) (ws : Words) : (shiftDown n ws).length = ws.length := by
  induction ws with
  | nil => rfl
  | cons w ws ih =>
    cases ws with
    | nil => rfl
    | cons next rest => rw [shiftDown, length_cons, ih, length_cons, length_cons, length_cons]

theorem zero_ushiftRight (n : Nat) : (0 : BitVec 64) >>> n = 0 := BitVec.zero_ushiftRight

theorem zero_shiftLeft (n : Nat) : (0 : BitVec 64) <<< n = 0 := BitVec.zero_shiftLeft n

theorem getD_shiftDown (n : Nat) (ws : Words) : ∀ pos,
    (shiftDown n ws).getD pos 0 = ws.getD pos 0 >>> n ||| ws.getD (pos + 1) 0 <<< (64 - n) := by
  induction ws with
  | nil =>
    intro pos
    rw [shiftDown, getD_nil, getD_nil, zero_ushiftRight, zero_shiftLeft]
    rfl
  | cons w ws ih =>
    intro pos
    cases ws with
    | nil =>
      have hor : ∀ v : BitVec 64, v ||| 0 = v := fun v => BitVec.or_zero
      rw [shiftDown, getD_cons, getD_nil, zero_shiftLeft, hor]
      cases pos with
      | zero => rfl
      | succ pos => rw [getD_cons, getD_cons, getD_nil, zero_ushiftRight]
    | cons next rest =>
      rw [shiftDown]
      cases pos with
      | zero => rfl
      | succ pos => rw [getD_cons, getD_cons, getD_cons, ih]

theorem bit_shiftDown {n : Nat} (hpos : 0 < n) (hn : n < 64) (ws : Words) (i : Nat) :
    bit (shiftDown n ws) i = bit ws (i + n) := by
  have hi := Nat.mod_lt i (show 0 < 64 by decide)
  rw [bit, getD_shiftDown, BitVec.getLsbD_or, BitVec.getLsbD_ushiftRight, BitVec.getLsbD_shiftLeft, bit]
  by_cases hsame : i % 64 + n < 64
  · have hword : (i + n) / 64 = i / 64 := by omega
    have hbit : (i + n) % 64 = n + i % 64 := by omega
    have hlow : i % 64 < 64 - n := by omega
    rw [hword, hbit]
    simp [hlow]
  · have hword : (i + n) / 64 = i / 64 + 1 := by omega
    have hbit : (i + n) % 64 = i % 64 - (64 - n) := by omega
    have hhigh : ¬ i % 64 < 64 - n := by omega
    have hbeyond : (ws.getD (i / 64) 0).getLsbD (n + i % 64) = false := BitVec.getLsbD_of_ge _ _ (by omega)
    rw [hword, hbit, hbeyond]
    simp [hhigh, hi]

/-! ### The length of a slice -/

theorem foldl_actualLen (ws : Words) : ∀ offset len : Nat,
    (∀ pos, ws.getD pos 0 = 0) ∧ (ws.zipIdx offset).foldl (fun len (w, i) => if w ≠ 0 then i + 1 else len) len = len ∨
      ∃ last, last < ws.length ∧ (∀ pos, last < pos → ws.getD pos 0 = 0) ∧
        (ws.zipIdx offset).foldl (fun len (w, i) => if w ≠ 0 then i + 1 else len) len = offset + last + 1 := by
  induction ws with
  | nil =>
    intro offset len
    exact .inl ⟨fun pos => getD_nil, rfl⟩
  | cons w ws ih =>
    intro offset len
    rw [zipIdx_cons, foldl_cons]
    rcases ih (offset + 1) (if w ≠ 0 then offset + 1 else len) with ⟨hzero, hfold⟩ | ⟨last, hlast, hzero, hfold⟩
    · by_cases hw : w = 0
      · refine .inl ⟨?_, ?_⟩
        · intro pos
          cases pos with
          | zero => exact hw
          | succ pos => rw [getD_cons, hzero]
        · simp only [hw, ne_eq, not_true_eq_false, if_false] at hfold ⊢
          exact hfold
      · refine .inr ⟨0, by simp, ?_, ?_⟩
        · intro pos hpos
          obtain ⟨pos, rfl⟩ : ∃ p, pos = p + 1 := ⟨pos - 1, by omega⟩
          rw [getD_cons, hzero]
        · simp only [hw, ne_eq, not_false_eq_true, if_true] at hfold ⊢
          exact hfold
    · refine .inr ⟨last + 1, by simpa using hlast, ?_, ?_⟩
      · intro pos hpos
        obtain ⟨pos, rfl⟩ : ∃ p, pos = p + 1 := ⟨pos - 1, by omega⟩
        rw [getD_cons, hzero pos (by omega)]
      · rw [hfold]
        omega

theorem actualLen_spec (ws : Words) : actualLen ws ≤ ws.length ∧ ∀ pos, actualLen ws ≤ pos → ws.getD pos 0 = 0 := by
  rcases foldl_actualLen ws 0 ws.length with ⟨hzero, hfold⟩ | ⟨last, hlast, hzero, hfold⟩
  · rw [actualLen, hfold]
    exact ⟨le_refl _, fun pos _ => hzero pos⟩
  · rw [actualLen, hfold]
    exact ⟨by omega, fun pos hpos => hzero pos (by omega)⟩

/-! ### Slices -/

/-- The words of a slice before they are shifted. -/
def maskedWords (fromIndex toIndex : Nat) (bits : Words) : Words :=
  (bits.getD (fromIndex / 64) 0 &&& factor1 fromIndex) ::
    (bits.drop (fromIndex / 64 + 1)).take ((toIndex - 1) / 64 - fromIndex / 64 - 1) ++
      [bits.getD ((toIndex - 1) / 64) 0 &&& factor2 toIndex]

theorem length_maskedWords (h : fromIndex / 64 < (toIndex - 1) / 64) (hfits : (toIndex - 1) / 64 < bits.length) :
    (maskedWords fromIndex toIndex bits).length = (toIndex - 1) / 64 - fromIndex / 64 + 1 := by
  simp only [maskedWords, length_append, length_cons, length_nil, length_take, length_drop]
  omega

theorem getD_maskedWords (h : fromIndex / 64 < (toIndex - 1) / 64) (hfits : (toIndex - 1) / 64 < bits.length) (pos : Nat) :
    (maskedWords fromIndex toIndex bits).getD pos 0 =
      if pos = 0 then bits.getD (fromIndex / 64) 0 &&& factor1 fromIndex
      else if pos < (toIndex - 1) / 64 - fromIndex / 64 then bits.getD (fromIndex / 64 + pos) 0
      else if pos = (toIndex - 1) / 64 - fromIndex / 64 then bits.getD ((toIndex - 1) / 64) 0 &&& factor2 toIndex
      else 0 := by
  have hmiddle : ((bits.drop (fromIndex / 64 + 1)).take ((toIndex - 1) / 64 - fromIndex / 64 - 1)).length
      = (toIndex - 1) / 64 - fromIndex / 64 - 1 := by
    rw [length_take, length_drop]
    omega
  cases pos with
  | zero => rfl
  | succ pos =>
    rw [if_neg (Nat.succ_ne_zero pos), maskedWords, cons_append, getD_cons]
    by_cases hin : pos + 1 < (toIndex - 1) / 64 - fromIndex / 64
    · rw [if_pos hin, getD_append _ _ _ _ (by rw [hmiddle]; omega), getD_eq_getElem?_getD,
        List.getElem?_take_of_lt (by omega), List.getElem?_drop, getD_eq_getElem?_getD]
      congr 2
      omega
    · rw [if_neg hin, getD_append_right _ _ _ _ (by rw [hmiddle]; omega), hmiddle]
      by_cases hlast : pos + 1 = (toIndex - 1) / 64 - fromIndex / 64
      · rw [if_pos hlast, show pos - ((toIndex - 1) / 64 - fromIndex / 64 - 1) = 0 by omega]
        rfl
      · rw [if_neg hlast, getD_eq_default]
        rw [length_singleton]
        omega

theorem bit_maskedWords (h : fromIndex / 64 < (toIndex - 1) / 64) (hfits : (toIndex - 1) / 64 < bits.length) (i : Nat) :
    bit (maskedWords fromIndex toIndex bits) i =
      (inRange fromIndex toIndex (64 * (fromIndex / 64) + i) && bit bits (64 * (fromIndex / 64) + i)) := by
  have hi := Nat.mod_lt i (show 0 < 64 by decide)
  have hmod : (64 * (fromIndex / 64) + i) % 64 = i % 64 := by omega
  have hdiv : (64 * (fromIndex / 64) + i) / 64 = fromIndex / 64 + i / 64 := by omega
  rw [bit, getD_maskedWords h hfits, bit, hmod, hdiv, inRange]
  by_cases hfirst : i / 64 = 0
  · rw [if_pos hfirst, BitVec.getLsbD_and, getLsbD_factor1 _ hi, hfirst, Nat.add_zero, Bool.and_comm]
    congr 1
    exact decide_eq_decide.mpr (by omega)
  · rw [if_neg hfirst]
    by_cases hmiddle : i / 64 < (toIndex - 1) / 64 - fromIndex / 64
    · rw [if_pos hmiddle, decide_eq_true (by omega), Bool.true_and]
    · rw [if_neg hmiddle]
      by_cases hlast : i / 64 = (toIndex - 1) / 64 - fromIndex / 64
      · have hword : fromIndex / 64 + i / 64 = (toIndex - 1) / 64 := by omega
        rw [if_pos hlast, BitVec.getLsbD_and, getLsbD_factor2 (by omega) hi, hword, Bool.and_comm]
        congr 1
        exact decide_eq_decide.mpr (by omega)
      · rw [if_neg hlast, getLsbD_zero, decide_eq_false (by omega), Bool.false_and]

/-- What a slice holds: the indexes of the range, shifted down. -/
structure SliceOf (s : BitSet) (fromIndex toIndex : Nat) (t : BitSet) : Prop where
  inv : t.Inv
  member : ∀ j, t.member j = (inRange fromIndex toIndex (fromIndex + j) && s.member (fromIndex + j))
  used : t.actualArrayLength ≤ s.actualArrayLength

theorem sliceOf_nothing (hnone : ∀ j, (inRange fromIndex toIndex (fromIndex + j) && s.member (fromIndex + j)) = false) :
    ∃ t, new 0 = .ok t ∧ SliceOf s fromIndex toIndex t := by
  obtain ⟨t, hnew, hinv, hempty⟩ := new_eq (show (0 : Int) ≤ 0 from le_refl 0)
  refine ⟨t, hnew, hinv, ?_, ?_⟩
  · intro j
    rw [hempty, hnone]
  · rw [new, if_neg (by omega)] at hnew
    injection hnew with hnew
    rw [← hnew]
    exact Nat.zero_le _

theorem bit_shifted_word (h : fromIndex / 64 = (toIndex - 1) / 64) (hlt : fromIndex < toIndex) (j : Nat) :
    bit [(bits.getD (fromIndex / 64) 0 &&& (factor1 fromIndex &&& factor2 toIndex)) >>> (fromIndex % 64)] j =
      (inRange fromIndex toIndex (fromIndex + j) && bit bits (fromIndex + j)) := by
  by_cases hj : j < 64
  · have hzero : j / 64 = 0 := by omega
    have hself : j % 64 = j := by omega
    rw [bit, hzero, hself]
    show BitVec.getLsbD (_ >>> _) j = _
    rw [BitVec.getLsbD_ushiftRight, bit, inRange]
    by_cases hin : fromIndex % 64 + j < 64
    · have hword : (fromIndex + j) / 64 = fromIndex / 64 := by omega
      have hbit : (fromIndex + j) % 64 = fromIndex % 64 + j := by omega
      rw [BitVec.getLsbD_and, BitVec.getLsbD_and, getLsbD_factor1 _ hin, getLsbD_factor2 (by omega) hin, hword, hbit,
        ← Bool.decide_and, Bool.and_comm]
      congr 1
      exact decide_eq_decide.mpr (by omega)
    · rw [BitVec.getLsbD_of_ge _ _ (by omega), decide_eq_false (by omega), Bool.false_and]
  · obtain ⟨pos, hpos⟩ : ∃ p, j / 64 = p + 1 := ⟨j / 64 - 1, by omega⟩
    rw [bit, hpos, getD_cons, getD_nil, getLsbD_zero, inRange, decide_eq_false (by omega), Bool.false_and]

theorem Inv.getRange (h : s.Inv) (hbound : s.actualArrayLength < 33554432) (hle : fromIndex ≤ toIndex) :
    ∃ t, s.getRange fromIndex toIndex = .ok t ∧ SliceOf s fromIndex toIndex t := by
  rw [BitSet.getRange, invalidRange_natCast hle, if_neg Bool.false_ne_true]
  simp only [shiftOffset_eq hbound]
  by_cases hnothing : (fromIndex : Int) ≥ (64 * s.actualArrayLength : Nat) ∨ (fromIndex : Int) = toIndex
  · rw [if_pos hnothing]
    apply sliceOf_nothing
    intro j
    by_cases hin : fromIndex + j < toIndex
    · rw [h.member_unused (by omega), Bool.and_false]
    · rw [inRange, decide_eq_false (by omega), Bool.false_and]
  · rw [if_neg hnothing]
    have hfits := h.fits
    obtain ⟨stop, hstop, hlt, hused, hclip⟩ : ∃ stop : Nat, (if (toIndex : Int) > (64 * s.actualArrayLength : Nat) then
        ((64 * s.actualArrayLength : Nat) : Int) else toIndex) = stop ∧ fromIndex < stop ∧
          (stop - 1) / 64 < s.actualArrayLength ∧
          ∀ j, (inRange fromIndex stop (fromIndex + j) && s.member (fromIndex + j)) =
            (inRange fromIndex toIndex (fromIndex + j) && s.member (fromIndex + j)) := by
      refine ⟨min toIndex (64 * s.actualArrayLength), ?_, by omega, by omega, ?_⟩
      · split_ifs with hmore <;> omega
      · intro j
        by_cases hj : fromIndex + j < 64 * s.actualArrayLength
        · congr 1
          exact decide_eq_decide.mpr (by omega)
        · rw [h.member_unused (by omega), Bool.and_false, Bool.and_false]
    simp only [hstop, Int.toNat_natCast]
    have hfirst := word_ok (show fromIndex / 64 < s.bits.length by omega)
    by_cases hone : fromIndex / 64 = (stop - 1) / 64
    · have hbit := @bit_shifted_word s.bits _ _ hone hlt
      rw [if_pos hone]
      simp only [hfirst, bind, Except.bind]
      by_cases hzero : (s.bits.getD (fromIndex / 64) 0 &&& (factor1 fromIndex &&& factor2 stop)) >>> (fromIndex % 64) = 0
      · rw [if_pos hzero]
        apply sliceOf_nothing
        intro j
        rw [← hclip, member, ← hbit, hzero, bit]
        have hall : ([0] : Words).getD (j / 64) 0 = 0 := getD_replicate 1 (j / 64)
        rw [hall, getLsbD_zero]
      · rw [if_neg hzero]
        refine ⟨_, rfl, Inv.of_bits rfl (le_refl 1) ?_ ?_ ?_, ?_, ?_⟩
        · intro j hj
          simp only at hj
          rw [member, bit, getD_eq_default _ _ (by simp only [length_singleton]; omega), getLsbD_zero]
        · intro hclear j
          rw [member, hbit, ← member, h.fresh hclear, Bool.and_false]
        · intro _ _
          exact hzero
        · intro j
          rw [member, hbit, ← hclip, member]
        · simp only
          omega
    · have hsecond := word_ok (show (stop - 1) / 64 < s.bits.length by omega)
      have hltWord : fromIndex / 64 < (stop - 1) / 64 := by omega
      have hlength := length_maskedWords hltWord (show (stop - 1) / 64 < s.bits.length by omega)
      have hmasked := bit_maskedWords hltWord (show (stop - 1) / 64 < s.bits.length by omega)
      rw [if_neg hone]
      simp only [hfirst, hsecond, bind, Except.bind]
      rw [← maskedWords]
      by_cases haligned : fromIndex % 64 = 0
      · simp only [haligned, ne_eq, not_true_eq_false, if_false]
        obtain ⟨b, hlast, hactual⟩ := lastWordUsed_eq
          (show (stop - 1) / 64 - fromIndex / 64 + 1 ≤ (maskedWords fromIndex stop s.bits).length by omega)
        have hbit : ∀ j, bit (maskedWords fromIndex stop s.bits) j
            = (inRange fromIndex toIndex (fromIndex + j) && s.member (fromIndex + j)) := by
          intro j
          have hstart : 64 * (fromIndex / 64) + j = fromIndex + j := by omega
          rw [hmasked, hstart, ← hclip, member]
        simp only [hlast]
        refine ⟨_, rfl, Inv.of_bits hlength (le_of_eq hlength.symm) ?_ ?_ hactual, hbit, ?_⟩
        · intro j hj
          simp only at hj
          rw [member, bit, getD_eq_default _ _ (by simp only [hlength]; omega), getLsbD_zero]
        · intro hclear j
          rw [member, hbit, h.fresh hclear, Bool.and_false]
        · simp only
          omega
      · simp only [haligned, ne_eq, not_false_eq_true, if_true]
        have hmod : fromIndex % 64 < 64 := Nat.mod_lt _ (by decide)
        have hshifted := length_shiftDown (fromIndex % 64) (maskedWords fromIndex stop s.bits)
        obtain ⟨hlen, hzero⟩ := actualLen_spec (shiftDown (fromIndex % 64) (maskedWords fromIndex stop s.bits))
        obtain ⟨b, hlast, hactual⟩ := lastWordUsed_eq hlen
        have hbit : ∀ j, bit (shiftDown (fromIndex % 64) (maskedWords fromIndex stop s.bits)) j
            = (inRange fromIndex toIndex (fromIndex + j) && s.member (fromIndex + j)) := by
          intro j
          have hstart : 64 * (fromIndex / 64) + (j + fromIndex % 64) = fromIndex + j := by omega
          rw [bit_shiftDown (by omega) hmod, hmasked, hstart, ← hclip, member]
        simp only [hlast]
        refine ⟨_, rfl, ⟨hshifted.trans hlength, hlen, hzero, ?_, hactual⟩, hbit, ?_⟩
        · intro hclear j
          rw [member, hbit, h.fresh hclear, Bool.and_false]
        · simp only
          omega

end ActiveMQCpp.Decaf.BitSet
