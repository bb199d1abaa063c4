import ActiveMQCpp.DecafBitSet

/-! The indexes in a `BitSet`. An operation is described by what it does to single bits; the invariant of the
words follows from that. -/

namespace ActiveMQCpp.Decaf.BitSet

open List

/-- Bit `i` of an array of words. -/
def bit (bits : Words) (i : Nat) : Bool := (bits.getD (i / 64) 0).getLsbD (i % 64)

def member (s : BitSet) (i : Nat) : Bool := bit s.bits i

structure Inv (s : BitSet) : Prop where
  size : s.bits.length = s.bitsSize
  fits : s.actualArrayLength ≤ s.bits.length
  unused : ∀ pos, s.actualArrayLength ≤ pos → s.bits.getD pos 0 = 0
  fresh : s.needClear = false → ∀ i, s.member i = false
  actual : s.isLengthActual = true → 0 < s.actualArrayLength → s.bits.getD (s.actualArrayLength - 1) 0 ≠ 0

variable {s : BitSet} {bits bits' : Words} {i pos count : Nat}
variable {op : BitVec 64 → BitVec 64 → BitVec 64} {g : Bool → Bool → Bool}
variable {k toIndex : Nat}

/-! ### Words and their bits -/

theorem getLsbD_zero (j : Nat) : BitVec.getLsbD (0 : BitVec 64) j = false := BitVec.getLsbD_zero

theorem getLsbD_twoN (j : Nat) (hj : j < 64) : (twoN i).getLsbD j = decide (j = i % 64) := by
  have hi : i % 64 < 64 := Nat.mod_lt _ (by decide)
  rw [twoN, BitVec.getLsbD_shiftLeft]
  simp only [BitVec.getLsbD_one, hj, decide_true, Bool.true_and]
  by_cases hlt : j < i % 64
  · have : j ≠ i % 64 := by omega
    simp [hlt, this]
  · have : (j - i % 64 = 0) ↔ j = i % 64 := by omega
    simp [hlt, this]

theorem and_twoN_ne_zero (word : BitVec 64) : (word &&& twoN i != 0) = word.getLsbD (i % 64) := by
  have hi : i % 64 < 64 := Nat.mod_lt _ (by decide)
  cases hbit : word.getLsbD (i % 64) with
  | false =>
    have hzero : word &&& twoN i = 0 := by
      apply BitVec.eq_of_getLsbD_eq
      intro j hj
      rw [BitVec.getLsbD_and, getLsbD_twoN j hj, getLsbD_zero]
      by_cases heq : j = i % 64
      · rw [heq, hbit, Bool.false_and]
      · simp [heq]
    rw [hzero]
    rfl
  | true =>
    have hne : word &&& twoN i ≠ 0 := by
      intro hzero
      have := congrArg (fun w => BitVec.getLsbD w (i % 64)) hzero
      simp only [BitVec.getLsbD_and, getLsbD_twoN _ hi, hbit] at this
      simp at this
    simpa using hne

theorem getD_eq_zero_iff (bits : Words) (pos : Nat) :
    bits.getD pos 0 = 0 ↔ ∀ i, 64 * pos ≤ i → i < 64 * (pos + 1) → bit bits i = false := by
  constructor
  · intro hzero i hlow hhigh
    have hpos : i / 64 = pos := by omega
    rw [bit, hpos, hzero, getLsbD_zero]
  · intro hall
    apply BitVec.eq_of_getLsbD_eq
    intro k hk
    have hbit := hall (64 * pos + k) (by omega) (by omega)
    have hpos : (64 * pos + k) / 64 = pos := by omega
    have hmod : (64 * pos + k) % 64 = k := by omega
    rw [bit, hpos, hmod] at hbit
    rw [hbit, getLsbD_zero]

theorem getD_ne_zero (h : bit bits i = true) : bits.getD (i / 64) 0 ≠ 0 := by
  intro hzero
  rw [bit, hzero, getLsbD_zero] at h
  cases h

theorem exists_bit (h : bits.getD pos 0 ≠ 0) : ∃ i, 64 * pos ≤ i ∧ i < 64 * (pos + 1) ∧ bit bits i = true := by
  by_contra hnone
  push Not at hnone
  refine h ((getD_eq_zero_iff bits pos).mpr ?_)
  intro i hlow hhigh
  rw [← Bool.not_eq_true]
  exact hnone i hlow hhigh

theorem Inv.member_unused (h : s.Inv) (hi : 64 * s.actualArrayLength ≤ i) : s.member i = false := by
  rw [member, bit, h.unused (i / 64) (by omega), getLsbD_zero]

theorem Inv.lt_of_member (h : s.Inv) (hi : s.member i = true) : i / 64 < s.actualArrayLength := by
  by_contra hge
  rw [h.member_unused (by omega)] at hi
  cases hi

theorem getD_set {words : Words} {pos : Nat} (hpos : pos < words.length) (word : BitVec 64) (j : Nat) :
    (words.set pos word).getD j 0 = if j = pos then word else words.getD j 0 := by
  rw [getD_eq_getElem?_getD, List.getElem?_set]
  by_cases hj : pos = j
  · subst hj
    simp [hpos]
  · rw [if_neg hj, if_neg (Ne.symm hj), getD_eq_getElem?_getD]

theorem getD_replicate (n pos : Nat) : (List.replicate n (0 : BitVec 64)).getD pos 0 = 0 := by
  by_cases hlt : pos < n
  · rw [getD_eq_getElem _ _ (by simpa using hlt), getElem_replicate]
  · rw [getD_eq_default _ _ (by simpa using hlt)]

/-! ### Accesses within the array -/

/-- What a loop makes of an array: word by word, by a function of the position. -/
structure Updated (f : Nat → BitVec 64 → BitVec 64) (bits bits' : Words) : Prop where
  length : bits'.length = bits.length
  word : ∀ pos, bits'.getD pos 0 = f pos (bits.getD pos 0)

theorem word_ok (h : pos < bits.length) : word bits pos = .ok (bits.getD pos 0) := by
  rw [word, List.getElem?_eq_getElem h, getD_eq_getElem _ _ h]

theorem modifyWord_ok (f : BitVec 64 → BitVec 64) (h : pos < bits.length) : ∃ bits', modifyWord f pos bits = .ok bits' ∧
    Updated (fun j w => if j = pos then f w else w) bits bits' := by
  refine ⟨bits.set pos (f (bits.getD pos 0)), ?_, length_set, ?_⟩
  · rw [modifyWord, word_ok h]
    rfl
  · intro j
    rw [getD_set h]
    split_ifs with hj
    · rw [hj]
    · rfl

theorem modifyWords_ok (f : BitVec 64 → BitVec 64) : ∀ {pos count : Nat} {bits : Words}, pos + count ≤ bits.length →
    ∃ bits', modifyWords f pos count bits = .ok bits' ∧
      Updated (fun j w => if pos ≤ j ∧ j < pos + count then f w else w) bits bits' := by
  intro pos count
  induction count generalizing pos with
  | zero =>
    intro bits _
    refine ⟨bits, rfl, rfl, ?_⟩
    intro j
    rw [if_neg (by omega)]
  | succ count ih =>
    intro bits h
    obtain ⟨bits1, hrun, hone⟩ := modifyWord_ok f (show pos < bits.length by omega)
    obtain ⟨bits2, hrest, hmore⟩ := @ih (pos + 1) bits1 (by rw [hone.length]; omega)
    refine ⟨bits2, ?_, by rw [hmore.length, hone.length], ?_⟩
    · rw [modifyWords, hrun]
      exact hrest
    · intro j
      rw [hmore.word, hone.word]
      by_cases hj : j = pos
      · subst hj
        rw [if_neg (by omega), if_pos rfl, if_pos (by omega)]
      · rw [if_neg hj]
        by_cases hin : pos + 1 ≤ j ∧ j < pos + 1 + count
        · rw [if_pos hin, if_pos (by omega)]
        · rw [if_neg hin, if_neg (by omega)]

theorem Updated.bit {f : Nat → BitVec 64 → BitVec 64} (h : Updated f bits bits') (i : Nat) :
    bit bits' i = (f (i / 64) (bits.getD (i / 64) 0)).getLsbD (i % 64) := by
  rw [BitSet.bit, h.word]

/-! ### Room -/

theorem Inv.reserve (h : s.Inv) (len : Nat) : ∃ t, s.reserve len = .ok t ∧ t.Inv ∧ len ≤ t.bits.length ∧
    t.actualArrayLength = s.actualArrayLength ∧ t.needClear = s.needClear ∧ t.isLengthActual = s.isLengthActual ∧
    ∀ pos, t.bits.getD pos 0 = s.bits.getD pos 0 := by
  have hfits := h.fits
  have hsize := h.size
  by_cases hroom : len > s.bitsSize
  · have hgetD : ∀ pos, (s.bits.take s.actualArrayLength ++
        List.replicate (max len (s.bitsSize * 2) - s.actualArrayLength) 0).getD pos 0 = s.bits.getD pos 0 := by
      intro pos
      by_cases hpos : pos < s.actualArrayLength
      · have hlen : pos < (s.bits.take s.actualArrayLength).length := by
          rw [length_take]
          omega
        rw [getD_append _ _ _ _ hlen, getD_eq_getElem?_getD, getD_eq_getElem?_getD,
          List.getElem?_take_of_lt hpos]
      · rw [h.unused pos (by omega), getD_append_right _ _ _ _ (by rw [length_take]; omega), getD_replicate]
    have hlength : (s.bits.take s.actualArrayLength ++
        List.replicate (max len (s.bitsSize * 2) - s.actualArrayLength) 0).length = max len (s.bitsSize * 2) := by
      rw [length_append, length_take, length_replicate]
      omega
    refine ⟨{ s with
      bits := s.bits.take s.actualArrayLength ++ List.replicate (max len (s.bitsSize * 2) - s.actualArrayLength) 0
      bitsSize := max len (s.bitsSize * 2) }, ?_, ⟨hlength, ?_, ?_, ?_, ?_⟩, ?_, rfl, rfl, rfl, hgetD⟩
    · rw [BitSet.reserve, if_pos hroom, BitSet.ensureCapacity, if_neg (by omega)]
    · rw [hlength]
      show s.actualArrayLength ≤ _
      omega
    · intro pos hpos
      exact (hgetD pos).trans (h.unused pos hpos)
    · intro hclear j
      rw [member, bit, hgetD]
      exact h.fresh hclear j
    · intro hactual hpos
      simp only [hgetD]
      exact h.actual hactual hpos
    · rw [hlength]
      omega
  · refine ⟨s, ?_, h, by omega, rfl, rfl, rfl, fun _ => rfl⟩
    rw [BitSet.reserve, if_neg hroom]

theorem new_eq {bitCount : Int} (h : 0 ≤ bitCount) : ∃ s, new bitCount = .ok s ∧ s.Inv ∧ ∀ i, s.member i = false := by
  have hnone : ∀ n i, bit (List.replicate n 0) i = false := by
    intro n i
    rw [bit, getD_replicate, getLsbD_zero]
  refine ⟨_, if_neg (by omega), ⟨length_replicate, Nat.zero_le _, fun pos _ => getD_replicate _ pos,
    fun _ i => hnone _ i, ?_⟩, fun i => hnone _ i⟩
  intro _ hpos
  exact absurd hpos (Nat.lt_irrefl 0)

/-! ### Single bits -/

theorem get_eq (h : s.Inv) (i : Nat) : s.get i = .ok (s.member i) := by
  have hcond : ¬((i : Int) < 0) := by omega
  rw [get, if_neg hcond, Int.toNat_natCast]
  by_cases hpos : i / 64 < s.actualArrayLength
  · have hfits := h.fits
    simp only [hpos, if_true, word_ok (show i / 64 < s.bits.length by omega)]
    show Except.ok _ = _
    rw [and_twoN_ne_zero, member, bit]
  · simp only [hpos, if_false]
    rw [h.member_unused (by omega)]

/-- The operations on words that work bit by bit and keep the bits outside the mask. -/
structure IsBitwise (op : BitVec 64 → BitVec 64 → BitVec 64) (g : Bool → Bool → Bool) : Prop where
  bits : ∀ w mask k, k < 64 → (op w mask).getLsbD k = g (w.getLsbD k) (mask.getLsbD k)
  keeps : ∀ b, g b false = b

theorem isBitwise_or : IsBitwise (· ||| ·) (fun b m => m || b) where
  bits w mask k _ := by rw [BitVec.getLsbD_or, Bool.or_comm]
  keeps _ := rfl

theorem isBitwise_andNot : IsBitwise (fun w mask => w &&& ~~~mask) (fun b m => !m && b) where
  bits w mask k hk := by
    rw [BitVec.getLsbD_and, BitVec.getLsbD_not, decide_eq_true hk, Bool.true_and, Bool.and_comm]
  keeps _ := rfl

theorem isBitwise_xor : IsBitwise (· ^^^ ·) (fun b m => m ^^ b) where
  bits w mask k _ := by rw [BitVec.getLsbD_xor, Bool.xor_comm]
  keeps b := Bool.false_xor b

theorem modifyWord_mask (hop : IsBitwise op g)
    (mask : BitVec 64) (h : pos < bits.length) : ∃ bits', modifyWord (fun w => op w mask) pos bits = .ok bits' ∧
      bits'.length = bits.length ∧
      ∀ j, bit bits' j = g (bit bits j) (decide (j / 64 = pos) && mask.getLsbD (j % 64)) := by
  obtain ⟨bits', hrun, hupdated⟩ := modifyWord_ok (fun w => op w mask) h
  refine ⟨bits', hrun, hupdated.length, ?_⟩
  intro j
  rw [hupdated.bit]
  by_cases hj : j / 64 = pos
  · simp only [hj, if_true, decide_true, Bool.true_and]
    rw [hop.bits _ _ _ (Nat.mod_lt j (by decide)), bit, hj]
  · simp only [hj, if_false, decide_false, Bool.false_and]
    rw [hop.keeps, bit]

theorem modifyWord_twoN (hop : IsBitwise op g)
    (h : i / 64 < bits.length) : ∃ bits', modifyWord (fun w => op w (twoN i)) (i / 64) bits = .ok bits' ∧
      bits'.length = bits.length ∧ ∀ j, bit bits' j = g (bit bits j) (decide (j = i)) := by
  obtain ⟨bits', hrun, hlength, hbits⟩ := modifyWord_mask hop (twoN i) h
  refine ⟨bits', hrun, hlength, ?_⟩
  intro j
  have hsame : (decide (j / 64 = i / 64) && decide (j % 64 = i % 64)) = decide (j = i) := by
    rw [← Bool.decide_and]
    exact decide_eq_decide.mpr (by omega)
  rw [hbits, getLsbD_twoN _ (Nat.mod_lt j (by decide)), hsame]

theorem Inv.of_bits {t : BitSet} (hsize : t.bits.length = t.bitsSize) (hfits : t.actualArrayLength ≤ t.bits.length)
    (hunused : ∀ j, 64 * t.actualArrayLength ≤ j → t.member j = false)
    (hfresh : t.needClear = false → ∀ j, t.member j = false)
    (hactual : t.isLengthActual = true → 0 < t.actualArrayLength → t.bits.getD (t.actualArrayLength - 1) 0 ≠ 0) :
    t.Inv := by
  refine ⟨hsize, hfits, ?_, hfresh, hactual⟩
  intro pos hpos
  rw [getD_eq_zero_iff]
  intro j hlow _
  exact hunused j (by omega)

theorem lastWordUsed_eq {length : Nat} (h : length ≤ bits.length) :
    ∃ b, lastWordUsed bits length = .ok b ∧ (b = true → 0 < length → bits.getD (length - 1) 0 ≠ 0) := by
  by_cases hpos : length > 0
  · refine ⟨bits.getD (length - 1) 0 != 0, ?_, ?_⟩
    · rw [lastWordUsed, if_pos hpos, word_ok (by omega)]
      rfl
    · intro hb _
      simpa using hb
  · refine ⟨true, ?_, fun _ h0 => absurd h0 hpos⟩
    rw [lastWordUsed, if_neg hpos]

/-- What an operation makes of an object: the indexes after it, and how far the words are in use. -/
structure Becomes (s : BitSet) (len : Nat) (members : Nat → Bool) (s' : BitSet) : Prop where
  inv : s'.Inv
  member : ∀ j, s'.member j = members j
  used : s'.actualArrayLength ≤ max s.actualArrayLength len

theorem Inv.set (h : s.Inv) (i : Nat) : ∃ s', s.set i = .ok s' ∧
    Becomes s (i / 64 + 1) (fun j => decide (j = i) || s.member j) s' := by
  obtain ⟨t, hreserve, ht, hroom, hused, -, hflag, hsame⟩ := h.reserve (i / 64 + 1)
  obtain ⟨bits', hrun, hlength, hbits⟩ := modifyWord_twoN isBitwise_or (show i / 64 < t.bits.length by omega)
  have hold : ∀ j, bit t.bits j = s.member j := by
    intro j
    rw [bit, hsame, member, bit]
  have hmember : ∀ j, bit bits' j = (decide (j = i) || s.member j) := by
    intro j
    rw [hbits, hold]
  have hself : bit bits' i = true := by rw [hmember, decide_eq_true rfl, Bool.true_or]
  have hcond : ¬((i : Int) < 0) := by omega
  have hfits := ht.fits
  have hstep : s.set i = if i / 64 + 1 > t.actualArrayLength then
      .ok { t with bits := bits', needClear := true, actualArrayLength := i / 64 + 1, isLengthActual := true }
      else .ok { t with bits := bits', needClear := true } := by
    rw [BitSet.set, if_neg hcond, Int.toNat_natCast]
    simp only [hreserve, bind, Except.bind, Nat.add_sub_cancel, hrun]
  by_cases hgrow : i / 64 + 1 > t.actualArrayLength
  · rw [if_pos hgrow] at hstep
    refine ⟨_, hstep, Inv.of_bits (hlength.trans ht.size) ?_ ?_ ?_ ?_, hmember, ?_⟩
    · simp only [hlength]
      exact hroom
    · intro j hj
      simp only at hj
      rw [member, hmember, h.member_unused (by omega), decide_eq_false (by omega), Bool.false_or]
    · intro hfalse
      cases hfalse
    · intro _ _
      exact getD_ne_zero hself
    · simp only
      omega
  · rw [if_neg hgrow] at hstep
    refine ⟨_, hstep, Inv.of_bits (hlength.trans ht.size) ?_ ?_ ?_ ?_, hmember, ?_⟩
    · simp only [hlength]
      exact hfits
    · intro j hj
      simp only at hj
      rw [member, hmember, h.member_unused (by omega), decide_eq_false (by omega), Bool.false_or]
    · intro hfalse
      cases hfalse
    · intro hactual hpos
      -- a bit of the last word is still there
      obtain ⟨k, hlow, hhigh, hbit⟩ := exists_bit (ht.actual hactual hpos)
      have hk : k / 64 = t.actualArrayLength - 1 := by omega
      have hset : bit bits' k = true := by rw [hmember, ← hold, hbit, Bool.or_true]
      rw [← hk]
      exact getD_ne_zero hset
    · simp only
      omega

theorem Inv.clear (h : s.Inv) (i : Nat) : ∃ s', s.clear i = .ok s' ∧
    Becomes s 0 (fun j => !decide (j = i) && s.member j) s' := by
  have hcond : ¬((i : Int) < 0) := by omega
  have hfits := h.fits
  rw [BitSet.clear, if_neg hcond, Int.toNat_natCast]
  cases hclear : s.needClear with
  | false =>
    refine ⟨s, rfl, h, ?_, by omega⟩
    intro j
    rw [h.fresh hclear j, Bool.and_false]
  | true =>
    simp only [Bool.true_eq_false, if_false]
    by_cases hpos : i / 64 < s.actualArrayLength
    · obtain ⟨bits', hrun, hlength, hbits⟩ :=
        modifyWord_twoN isBitwise_andNot (show i / 64 < s.bits.length by omega)
      have hword := word_ok (show s.actualArrayLength - 1 < bits'.length by omega)
      rw [if_pos hpos]
      simp only [bind, Except.bind, hrun, hword]
      refine ⟨_, rfl, Inv.of_bits (hlength.trans h.size) ?_ ?_ ?_ ?_, hbits, ?_⟩
      · simp only [hlength]
        exact hfits
      · intro j hj
        rw [member, hbits, ← member, h.member_unused hj, Bool.and_false]
      · intro hfalse
        cases hfalse
      · intro hactual _
        simp only [Bool.and_eq_true, bne_iff_ne] at hactual
        exact hactual.2
      · simp only
        omega
    · rw [if_neg hpos]
      refine ⟨s, rfl, h, ?_, by omega⟩
      intro j
      by_cases heq : j = i
      · rw [heq, h.member_unused (by omega), Bool.and_false]
      · rw [decide_eq_false heq, Bool.not_false, Bool.true_and]

theorem Inv.flip (h : s.Inv) (i : Nat) : ∃ s', s.flip i = .ok s' ∧
    Becomes s (i / 64 + 1) (fun j => decide (j = i) ^^ s.member j) s' := by
  obtain ⟨t, hreserve, ht, hroom, hused, -, -, hsame⟩ := h.reserve (i / 64 + 1)
  obtain ⟨bits', hrun, hlength, hbits⟩ := modifyWord_twoN isBitwise_xor (show i / 64 < t.bits.length by omega)
  have hmember : ∀ j, bit bits' j = (decide (j = i) ^^ s.member j) := by
    intro j
    rw [hbits, bit, hsame, member, bit]
  have hcond : ¬((i : Int) < 0) := by omega
  have hfits := ht.fits
  obtain ⟨b, hlast, hactual⟩ := lastWordUsed_eq (show max t.actualArrayLength (i / 64 + 1) ≤ bits'.length by omega)
  refine ⟨{ t with
    bits := bits', needClear := true, actualArrayLength := max t.actualArrayLength (i / 64 + 1), isLengthActual := b },
    ?_, Inv.of_bits (hlength.trans ht.size) ?_ ?_ ?_ hactual, hmember, ?_⟩
  · rw [BitSet.flip, if_neg hcond, Int.toNat_natCast]
    simp only [hreserve, bind, Except.bind, Nat.add_sub_cancel, hrun, hlast]
  · simp only [hlength]
    omega
  · intro j hj
    simp only at hj
    rw [member, hmember, h.member_unused (by omega), decide_eq_false (by omega)]
    rfl
  · intro hfalse
    cases hfalse
  · simp only
    omega

/-! ### Ranges -/

theorem getLsbD_factor1 (fromIndex : Nat) (hk : k < 64) :
    (factor1 fromIndex).getLsbD k = decide (fromIndex % 64 ≤ k) := by
  rw [factor1, BitVec.getLsbD_shiftLeft, BitVec.getLsbD_allOnes]
  by_cases hlow : fromIndex % 64 ≤ k
  · have hlt : ¬ k < fromIndex % 64 := by omega
    have hin : k - fromIndex % 64 < 64 := by omega
    simp [hk, hlt, hin, hlow]
  · have hlt : k < fromIndex % 64 := by omega
    simp [hlt, hlow]

theorem getLsbD_factor2 (hpos : 0 < toIndex) (hk : k < 64) :
    (factor2 toIndex).getLsbD k = decide (k ≤ (toIndex - 1) % 64) := by
  have hmod : toIndex % 64 < 64 := Nat.mod_lt _ (by decide)
  by_cases hzero : toIndex % 64 = 0
  · simp only [factor2, hzero]
    rw [if_neg (by decide), BitVec.getLsbD_allOnes]
    exact decide_eq_decide.mpr (by omega)
  · simp only [factor2]
    rw [if_pos (by omega), BitVec.getLsbD_ushiftRight, BitVec.getLsbD_allOnes]
    exact decide_eq_decide.mpr (by omega)

theorem modifyRange_ok (hop : IsBitwise op g)
    {fromIndex : Nat} (hlt : fromIndex < toIndex) (h : (toIndex - 1) / 64 < bits.length) :
    ∃ bits', modifyRange op fromIndex toIndex bits = .ok bits' ∧ bits'.length = bits.length ∧
      ∀ j, bit bits' j = g (bit bits j) (decide (fromIndex ≤ j ∧ j < toIndex)) := by
  by_cases hone : fromIndex / 64 = (toIndex - 1) / 64
  · obtain ⟨bits', hrun, hlength, hbits⟩ := modifyWord_mask hop (factor1 fromIndex &&& factor2 toIndex)
      (show fromIndex / 64 < bits.length by omega)
    refine ⟨bits', ?_, hlength, ?_⟩
    · simp only [modifyRange, if_pos hone]
      exact hrun
    · intro j
      have hj := Nat.mod_lt j (show 0 < 64 by decide)
      rw [hbits, BitVec.getLsbD_and, getLsbD_factor1 _ hj, getLsbD_factor2 (by omega) hj, ← Bool.decide_and,
        ← Bool.decide_and]
      congr 1
      exact decide_eq_decide.mpr (by omega)
  · obtain ⟨bits1, hrun1, hlength1, hbits1⟩ := modifyWord_mask hop (factor1 fromIndex)
      (show fromIndex / 64 < bits.length by omega)
    obtain ⟨bits2, hrun2, hlength2, hbits2⟩ := modifyWord_mask hop (factor2 toIndex)
      (show (toIndex - 1) / 64 < bits1.length by omega)
    obtain ⟨bits3, hrun3, hupdated⟩ := @modifyWords_ok (fun w => op w (BitVec.allOnes 64)) (fromIndex / 64 + 1)
      ((toIndex - 1) / 64 - (fromIndex / 64 + 1)) bits2 (by omega)
    refine ⟨bits3, ?_, by rw [hupdated.length, hlength2, hlength1], ?_⟩
    · simp only [modifyRange, if_neg hone, hrun1, bind, Except.bind, hrun2, hrun3]
    · intro j
      have hj := Nat.mod_lt j (show 0 < 64 by decide)
      rw [hupdated.bit]
      have hword : (bits2.getD (j / 64) 0).getLsbD (j % 64) = g (g (bit bits j)
          (decide (j / 64 = fromIndex / 64) && decide (fromIndex % 64 ≤ j % 64)))
          (decide (j / 64 = (toIndex - 1) / 64) && decide (j % 64 ≤ (toIndex - 1) % 64)) := by
        rw [← bit, hbits2, hbits1, getLsbD_factor1 _ hj, getLsbD_factor2 (by omega) hj]
      by_cases hfirst : j / 64 = fromIndex / 64
      · have hin : ¬ (fromIndex / 64 + 1 ≤ j / 64 ∧
            j / 64 < fromIndex / 64 + 1 + ((toIndex - 1) / 64 - (fromIndex / 64 + 1))) := by omega
        have hlast : ¬ j / 64 = (toIndex - 1) / 64 := by omega
        rw [if_neg hin, hword, decide_eq_true hfirst, decide_eq_false hlast, Bool.true_and, Bool.false_and, hop.keeps]
        congr 1
        exact decide_eq_decide.mpr (by omega)
      · by_cases hlast : j / 64 = (toIndex - 1) / 64
        · have hin : ¬ (fromIndex / 64 + 1 ≤ j / 64 ∧
              j / 64 < fromIndex / 64 + 1 + ((toIndex - 1) / 64 - (fromIndex / 64 + 1))) := by omega
          rw [if_neg hin, hword, decide_eq_false hfirst, decide_eq_true hlast, Bool.true_and, Bool.false_and, hop.keeps]
          congr 1
          exact decide_eq_decide.mpr (by omega)
        · by_cases hin : fromIndex / 64 + 1 ≤ j / 64 ∧
              j / 64 < fromIndex / 64 + 1 + ((toIndex - 1) / 64 - (fromIndex / 64 + 1))
          · rw [if_pos hin, hop.bits _ _ _ hj, hword, decide_eq_false hfirst, decide_eq_false hlast, Bool.false_and,
              Bool.false_and, hop.keeps, hop.keeps, BitVec.getLsbD_allOnes, decide_eq_true hj,
              decide_eq_true (show fromIndex ≤ j ∧ j < toIndex by omega)]
          · rw [if_neg hin, hword, decide_eq_false hfirst, decide_eq_false hlast, Bool.false_and, Bool.false_and,
              hop.keeps, hop.keeps, decide_eq_false (show ¬ (fromIndex ≤ j ∧ j < toIndex) by omega), hop.keeps]

end ActiveMQCpp.Decaf.BitSet
