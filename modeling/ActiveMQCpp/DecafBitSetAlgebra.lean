import ActiveMQCpp.DecafBitSetQueries

/-! The operations on two `BitSet`s, on the finite sets that they represent. -/

namespace ActiveMQCpp.Decaf.BitSet

variable {s t : BitSet} {bits bits' other : Words} {i pos count : Nat} {S T : Finset ℕ}

/-! ### Loops over the words of two sets -/

theorem combineWords_ok (op : BitVec 64 → BitVec 64 → BitVec 64) : ∀ {pos count : Nat} {bits : Words},
    pos + count ≤ bits.length → pos + count ≤ other.length → ∃ bits', combineWords op other pos count bits = .ok bits' ∧
      Updated (fun j w => if pos ≤ j ∧ j < pos + count then op w (other.getD j 0) else w) bits bits' := by
  intro pos count
  induction count generalizing pos with
  | zero =>
    intro bits _ _
    refine ⟨bits, rfl, rfl, ?_⟩
    intro j
    rw [if_neg (by omega)]
  | succ count ih =>
    intro bits h hother
    obtain ⟨bits1, hrun, hone⟩ := modifyWord_ok (fun w => op w (other.getD pos 0)) (show pos < bits.length by omega)
    have hlength := hone.length
    obtain ⟨bits2, hrest, hmore⟩ := @ih (pos + 1) bits1 (by omega) (by omega)
    have hword := word_ok (show pos < other.length by omega)
    refine ⟨bits2, ?_, by rw [hmore.length, hlength], ?_⟩
    · rw [combineWords, hword]
      simp only [bind, Except.bind, hrun]
      exact hrest
    · intro j
      rw [hmore.word, hone.word]
      by_cases hj : j = pos
      · subst hj
        rw [if_neg (by omega), if_pos rfl, if_pos (by omega)]
      · rw [if_neg hj]
        by_cases hin : pos + 1 ≤ j ∧ j < pos + 1 + count
        · rw [if_pos hin, if_pos (by omega)]
        · rw [if_neg hin, if_neg (by omega)]

theorem combineWords_bits {op : BitVec 64 → BitVec 64 → BitVec 64} {g : Bool → Bool → Bool}
    (hop : ∀ w mask k, k < 64 → (op w mask).getLsbD k = g (w.getLsbD k) (mask.getLsbD k))
    (h : count ≤ bits.length) (hother : count ≤ other.length) : ∃ bits', combineWords op other 0 count bits = .ok bits' ∧
      bits'.length = bits.length ∧
      ∀ j, bit bits' j = if j < 64 * count then g (bit bits j) (bit other j) else bit bits j := by
  obtain ⟨bits', hrun, hupdated⟩ := @combineWords_ok other op 0 count bits (by omega) (by omega)
  refine ⟨bits', hrun, hupdated.length, ?_⟩
  intro j
  rw [hupdated.bit]
  by_cases hj : j < 64 * count
  · rw [if_pos (by omega), if_pos hj, hop _ _ _ (Nat.mod_lt j (by decide)), bit, bit]
  · rw [if_neg (by omega), if_neg hj, bit]

theorem meetWords_ok : ∀ {pos count : Nat}, pos + count ≤ bits.length → pos + count ≤ other.length →
    ∃ b, meetWords bits other pos count = .ok b ∧
      (b = true ↔ ∃ j, pos ≤ j ∧ j < pos + count ∧ bits.getD j 0 &&& other.getD j 0 ≠ 0) := by
  intro pos count
  induction count generalizing pos with
  | zero =>
    intro _ _
    refine ⟨false, rfl, ?_⟩
    simp only [Bool.false_eq_true, false_iff]
    rintro ⟨j, hlow, hhigh, -⟩
    omega
  | succ count ih =>
    intro h hother
    have hword := word_ok (show pos < bits.length by omega)
    have hword' := word_ok (show pos < other.length by omega)
    simp only [meetWords, hword, hword', bind, Except.bind]
    by_cases hmeet : bits.getD pos 0 &&& other.getD pos 0 ≠ 0
    · rw [if_pos hmeet]
      exact ⟨true, rfl, iff_of_true rfl ⟨pos, le_refl _, by omega, hmeet⟩⟩
    · rw [if_neg hmeet]
      obtain ⟨b, hrun, hb⟩ := @ih (pos + 1) (by omega) (by omega)
      refine ⟨b, hrun, hb.trans ?_⟩
      constructor
      · rintro ⟨j, hlow, hhigh, hj⟩
        exact ⟨j, by omega, by omega, hj⟩
      · rintro ⟨j, hlow, hhigh, hj⟩
        have hne : j ≠ pos := by
          intro heq
          exact hmeet (heq ▸ hj)
        exact ⟨j, by omega, by omega, hj⟩

theorem sameWords_ok : ∀ {pos count : Nat}, pos + count ≤ bits.length → pos + count ≤ other.length →
    ∃ b, sameWords bits other pos count = .ok b ∧
      (b = true ↔ ∀ j, pos ≤ j → j < pos + count → bits.getD j 0 = other.getD j 0) := by
  intro pos count
  induction count generalizing pos with
  | zero =>
    intro _ _
    exact ⟨true, rfl, iff_of_true rfl fun j hlow hhigh => by omega⟩
  | succ count ih =>
    intro h hother
    have hword := word_ok (show pos < bits.length by omega)
    have hword' := word_ok (show pos < other.length by omega)
    simp only [sameWords, hword, hword', bind, Except.bind]
    by_cases hsame : bits.getD pos 0 = other.getD pos 0
    · rw [if_neg (not_not.mpr hsame)]
      obtain ⟨b, hrun, hb⟩ := @ih (pos + 1) (by omega) (by omega)
      refine ⟨b, hrun, hb.trans ?_⟩
      constructor
      · intro hall j hlow hhigh
        by_cases heq : j = pos
        · rw [heq, hsame]
        · exact hall j (by omega) (by omega)
      · intro hall j hlow hhigh
        exact hall j (by omega) (by omega)
    · rw [if_pos hsame]
      refine ⟨false, rfl, ?_⟩
      simp only [Bool.false_eq_true, false_iff]
      intro hall
      exact hsame (hall pos (le_refl _) (by omega))

/-! ### Intersection and difference -/

theorem Represents.bit_eq (h : Represents s S) (j : Nat) : bit s.bits j = decide (j ∈ S) := h.member j

theorem Represents.not_mem (h : Represents s S) (hi : 64 * s.actualArrayLength ≤ i) : i ∉ S := by
  intro hmem
  have := h.lt_of_mem hmem
  omega

theorem Represents.of_bits (h : Represents s S) {s' : BitSet} (hsize : s'.bitsSize = s.bitsSize)
    (hlength : s'.bits.length = s.bits.length) (hfits : s'.actualArrayLength ≤ s.bits.length)
    (hbound : s'.actualArrayLength < 33554432) (hbits : ∀ j, bit s'.bits j = decide (j ∈ T))
    (hunused : ∀ j ∈ T, j < 64 * s'.actualArrayLength) (hclear : s'.needClear = true)
    (hactual : s'.isLengthActual = true → 0 < s'.actualArrayLength → s'.bits.getD (s'.actualArrayLength - 1) 0 ≠ 0) :
    Represents s' T := by
  refine ⟨Inv.of_bits ?_ (by omega) ?_ ?_ hactual, hbits, hbound⟩
  · rw [hlength, h.inv.size, hsize]
  · intro j hj
    rw [BitSet.member, hbits]
    refine decide_eq_false ?_
    intro hmem
    have := hunused j hmem
    omega
  · intro hfalse
    rw [hclear] at hfalse
    cases hfalse

theorem Represents.AND (h : Represents s S) (ht : Represents t T) :
    ∃ s', BitSet.AND t s = .ok s' ∧ Represents s' (S ∩ T) := by
  have hfits := h.inv.fits
  have hfits' := ht.inv.fits
  have hbound := h.bound
  rw [BitSet.AND]
  by_cases hclear : s.needClear = false
  · rw [if_pos hclear]
    refine ⟨s, rfl, ?_⟩
    rw [h.eq_empty hclear, Finset.empty_inter, ← h.eq_empty hclear]
    exact h
  have hneed : s.needClear = true := by simpa using hclear
  have hop : ∀ w mask : BitVec 64, ∀ k, k < 64 → (w &&& mask).getLsbD k = (w.getLsbD k && mask.getLsbD k) :=
    fun w mask k _ => BitVec.getLsbD_and
  rw [if_neg hclear]
  by_cases hle : s.actualArrayLength ≤ t.actualArrayLength
  · obtain ⟨bits', hrun, hlength, hbits⟩ := combineWords_bits hop hfits (hle.trans hfits')
    obtain ⟨b, hlast, hactual⟩ := lastWordUsed_eq (show s.actualArrayLength ≤ bits'.length by omega)
    simp only [if_pos hle, hrun, hlast, bind, Except.bind]
    refine ⟨_, rfl, h.of_bits rfl hlength hfits hbound ?_ ?_ hneed hactual⟩
    · intro j
      simp only [hbits, Finset.mem_inter, Bool.decide_and, h.bit_eq, ht.bit_eq]
      by_cases hj : j < 64 * s.actualArrayLength
      · rw [if_pos hj]
      · rw [if_neg hj, decide_eq_false (h.not_mem (by omega)), Bool.false_and]
    · intro j hj
      exact h.lt_of_mem (Finset.mem_inter.mp hj).1
  · obtain ⟨bits1, hrun, hlength, hbits⟩ := combineWords_bits hop (show t.actualArrayLength ≤ s.bits.length by omega) hfits'
    obtain ⟨bits', hzero, hupdated⟩ := @modifyWords_ok (fun _ => 0) t.actualArrayLength
      (s.actualArrayLength - t.actualArrayLength) bits1 (by omega)
    have hlength' := hupdated.length
    obtain ⟨b, hlast, hactual⟩ := lastWordUsed_eq (show t.actualArrayLength ≤ bits'.length by omega)
    simp only [if_neg hle, hrun, hzero, hlast, bind, Except.bind]
    refine ⟨_, rfl, h.of_bits rfl (hlength'.trans hlength) (show t.actualArrayLength ≤ _ by omega) ht.bound ?_ ?_ hneed hactual⟩
    · intro j
      simp only [hupdated.bit, Finset.mem_inter, Bool.decide_and]
      by_cases hin : t.actualArrayLength ≤ j / 64 ∧ j / 64 < t.actualArrayLength + (s.actualArrayLength - t.actualArrayLength)
      · rw [if_pos hin, getLsbD_zero, decide_eq_false (ht.not_mem (by omega)), Bool.and_false]
      · have hsame := hbits j
        rw [bit] at hsame
        rw [if_neg hin, hsame, h.bit_eq, ht.bit_eq]
        by_cases hj : j < 64 * t.actualArrayLength
        · rw [if_pos hj]
        · rw [if_neg hj, decide_eq_false (h.not_mem (by omega)), Bool.false_and]
    · intro j hj
      exact ht.lt_of_mem (Finset.mem_inter.mp hj).2

theorem Represents.andNot (h : Represents s S) (ht : Represents t T) :
    ∃ s', BitSet.andNot t s = .ok s' ∧ Represents s' (S \ T) := by
  have hfits := h.inv.fits
  have hfits' := ht.inv.fits
  rw [BitSet.andNot]
  by_cases hclear : s.needClear = false
  · rw [if_pos hclear]
    refine ⟨s, rfl, ?_⟩
    rw [h.eq_empty hclear, Finset.empty_sdiff, ← h.eq_empty hclear]
    exact h
  have hneed : s.needClear = true := by simpa using hclear
  have hrange : max s.actualArrayLength (min s.actualArrayLength t.actualArrayLength) = s.actualArrayLength := by omega
  have hop : ∀ w mask : BitVec 64, ∀ k, k < 64 → (w &&& ~~~mask).getLsbD k = (!mask.getLsbD k && w.getLsbD k) :=
    isBitwise_andNot.bits
  obtain ⟨bits', hrun, hlength, hbits⟩ := @combineWords_bits s.bits t.bits _ _ (fun b m => !m && b) hop
    (show min s.actualArrayLength t.actualArrayLength ≤ s.bits.length by omega)
    (show min s.actualArrayLength t.actualArrayLength ≤ t.bits.length by omega)
  obtain ⟨b, hlast, hactual⟩ := lastWordUsed_eq (show s.actualArrayLength ≤ bits'.length by omega)
  simp only [if_neg hclear, hrange, hrun, hlast, bind, Except.bind]
  refine ⟨_, rfl, h.of_bits rfl hlength hfits h.bound ?_ ?_ hneed hactual⟩
  · intro j
    simp only [hbits, Finset.mem_sdiff, Bool.decide_and, decide_not, h.bit_eq, ht.bit_eq]
    by_cases hj : j < 64 * min s.actualArrayLength t.actualArrayLength
    · rw [if_pos hj, Bool.and_comm]
    · rw [if_neg hj]
      by_cases hmem : j ∈ S
      · have hlt := h.lt_of_mem hmem
        rw [decide_eq_false (ht.not_mem (by omega)), Bool.not_false, Bool.and_true]
      · rw [decide_eq_false hmem, Bool.false_and]
  · intro j hj
    exact h.lt_of_mem (Finset.mem_sdiff.mp hj).1

/-! ### Union and symmetric difference -/

theorem Represents.getActualArrayLength (h : Represents s S) : ∃ t, s.getActualArrayLength = .ok t ∧
    Represents t S ∧ t.isLengthActual = true := by
  rw [BitSet.getActualArrayLength]
  by_cases hexact : s.isLengthActual = true
  · rw [if_pos hexact]
    exact ⟨s, rfl, h, hexact⟩
  · obtain ⟨used, hrun, hle, hlast, hzero⟩ := usedWords_ok h.inv.fits
    have hbound := h.bound
    simp only [if_neg hexact, hrun, bind, Except.bind]
    exact ⟨_, rfl, ⟨h.inv.shrink hle hzero hlast true, h.member, lt_of_le_of_lt hle hbound⟩, rfl⟩

theorem Represents.combine {op : BitVec 64 → BitVec 64 → BitVec 64} {g : Bool → Bool → Bool} (hop : IsBitwise op g)
    (h : Represents s S) (ht : Represents t T) (hroom : t.actualArrayLength ≤ s.bitsSize) :
    ∃ bits', combineWords op t.bits 0 t.actualArrayLength s.bits = .ok bits' ∧ bits'.length = s.bits.length ∧
      ∀ j, bit bits' j = g (decide (j ∈ S)) (decide (j ∈ T)) := by
  have hsize := h.inv.size
  obtain ⟨bits', hrun, hlength, hbits⟩ :=
    combineWords_bits hop.bits (show t.actualArrayLength ≤ s.bits.length by omega) ht.inv.fits
  refine ⟨bits', hrun, hlength, ?_⟩
  intro j
  rw [hbits, h.bit_eq, ht.bit_eq]
  by_cases hj : j < 64 * t.actualArrayLength
  · rw [if_pos hj]
  · rw [if_neg hj, decide_eq_false (ht.not_mem (by omega)), hop.keeps]

theorem Represents.exists_last (h : Represents s S) (hexact : s.isLengthActual = true) (hpos : 0 < s.actualArrayLength) :
    ∃ j ∈ S, j / 64 = s.actualArrayLength - 1 := by
  obtain ⟨j, hlow, hhigh, hbit⟩ := exists_bit (h.inv.actual hexact hpos)
  exact ⟨j, (h.mem_iff j).mpr hbit, by omega⟩

theorem ne_zero_of_bit {j : Nat} (h : bit bits j = true) (hj : j / 64 = pos) : bits.getD pos 0 ≠ 0 := by
  rw [← hj]
  exact getD_ne_zero h

theorem Represents.OR (h : Represents s S) (ht : Represents t T) (hexact : t.isLengthActual = true)
    (hroom : t.actualArrayLength ≤ s.bitsSize) : ∃ s', BitSet.OR t s = .ok s' ∧ Represents s' (S ∪ T) := by
  obtain ⟨bits', hrun, hlength, hbits⟩ := h.combine isBitwise_or ht hroom
  have hsize := h.inv.size
  have hfits := h.inv.fits
  have hunion : ∀ j, bit bits' j = decide (j ∈ S ∪ T) := by
    intro j
    simp only [hbits, Finset.mem_union, Bool.decide_or, Bool.or_comm]
  have hmem : ∀ j ∈ S ∪ T, bit bits' j = true := by
    intro j hj
    rw [hunion, decide_eq_true hj]
  simp only [BitSet.OR, if_neg (show ¬ t.actualArrayLength > s.bitsSize by omega), hrun, bind, Except.bind]
  by_cases hlong : t.actualArrayLength > s.actualArrayLength
  · rw [if_pos hlong]
    refine ⟨_, rfl, h.of_bits rfl hlength (by simp only; omega) ht.bound hunion ?_ rfl ?_⟩
    · intro j hj
      rcases Finset.mem_union.mp hj with hS | hT
      · exact lt_of_lt_of_le (h.lt_of_mem hS) (by simp only; omega)
      · exact ht.lt_of_mem hT
    · intro _ hpos
      obtain ⟨j, hj, hlast⟩ := ht.exists_last hexact hpos
      exact ne_zero_of_bit (hmem j (Finset.mem_union_right S hj)) hlast
  · rw [if_neg hlong]
    refine ⟨_, rfl, h.of_bits rfl hlength hfits h.bound hunion ?_ rfl ?_⟩
    · intro j hj
      rcases Finset.mem_union.mp hj with hS | hT
      · exact h.lt_of_mem hS
      · exact lt_of_lt_of_le (ht.lt_of_mem hT) (by simp only; omega)
    · intro hactual hpos
      obtain ⟨j, hj, hlast⟩ := h.exists_last hactual hpos
      exact ne_zero_of_bit (hmem j (Finset.mem_union_left T hj)) hlast

/-- The argument of `XOR` has the receiver's last word, and the receiver's length is taken to be exact. -/
def cancelsLastWord (set s : BitSet) : Prop :=
  s.isLengthActual = true ∧ 0 < s.actualArrayLength ∧ set.actualArrayLength = s.actualArrayLength ∧
    set.bits.getD (s.actualArrayLength - 1) 0 = s.bits.getD (s.actualArrayLength - 1) 0

instance (set s : BitSet) : Decidable (cancelsLastWord set s) := by
  unfold cancelsLastWord
  infer_instance

theorem exists_bit_ne {pos : Nat} (h : bits.getD pos 0 ≠ bits'.getD pos 0) :
    ∃ j, j / 64 = pos ∧ bit bits j ≠ bit bits' j := by
  by_contra hnone
  push Not at hnone
  refine h (BitVec.eq_of_getLsbD_eq ?_)
  intro k hk
  have hdiv : (64 * pos + k) / 64 = pos := by omega
  have hmod : (64 * pos + k) % 64 = k := by omega
  have hsame := hnone (64 * pos + k) hdiv
  rwa [bit, bit, hdiv, hmod] at hsame

theorem Represents.XOR (h : Represents s S) (ht : Represents t T) (hexact : t.isLengthActual = true)
    (hroom : t.actualArrayLength ≤ s.bitsSize) (hkeeps : ¬ cancelsLastWord t s) :
    ∃ s', BitSet.XOR t s = .ok s' ∧ Represents s' (symmDiff S T) := by
  obtain ⟨bits', hrun, hlength, hbits⟩ := h.combine isBitwise_xor ht hroom
  have hsize := h.inv.size
  have hfits := h.inv.fits
  have hdiff : ∀ j, bit bits' j = decide (j ∈ symmDiff S T) := by
    intro j
    rw [hbits]
    by_cases hS : j ∈ S <;> by_cases hT : j ∈ T <;> simp [hS, hT, Finset.mem_symmDiff]
  have hmem : ∀ j ∈ symmDiff S T, bit bits' j = true := by
    intro j hj
    rw [hdiff, decide_eq_true hj]
  simp only [BitSet.XOR, if_neg (show ¬ t.actualArrayLength > s.bitsSize by omega), hrun, bind, Except.bind]
  by_cases hlong : t.actualArrayLength > s.actualArrayLength
  · rw [if_pos hlong]
    refine ⟨_, rfl, h.of_bits rfl hlength (by simp only; omega) ht.bound hdiff ?_ rfl ?_⟩
    · intro j hj
      rcases Finset.mem_symmDiff.mp hj with ⟨hS, -⟩ | ⟨hT, -⟩
      · exact lt_of_lt_of_le (h.lt_of_mem hS) (by simp only; omega)
      · exact ht.lt_of_mem hT
    · intro _ hpos
      obtain ⟨j, hj, hlast⟩ := ht.exists_last hexact hpos
      have hnot : j ∉ S := h.not_mem (by omega)
      exact ne_zero_of_bit (hmem j (Finset.mem_symmDiff.mpr (.inr ⟨hj, hnot⟩))) hlast
  · rw [if_neg hlong]
    refine ⟨_, rfl, h.of_bits rfl hlength hfits h.bound hdiff ?_ rfl ?_⟩
    · intro j hj
      rcases Finset.mem_symmDiff.mp hj with ⟨hS, -⟩ | ⟨hT, -⟩
      · exact h.lt_of_mem hS
      · exact lt_of_lt_of_le (ht.lt_of_mem hT) (by simp only; omega)
    · intro hactual hpos
      -- the last word loses all its bits only where the argument has the same one
      by_cases hsame : t.actualArrayLength = s.actualArrayLength
      · have hne : s.bits.getD (s.actualArrayLength - 1) 0 ≠ t.bits.getD (s.actualArrayLength - 1) 0 :=
          fun heq => hkeeps ⟨hactual, hpos, hsame, heq.symm⟩
        obtain ⟨j, hlast, hj⟩ := exists_bit_ne hne
        refine ne_zero_of_bit (j := j) ?_ hlast
        rw [hbits]
        rw [h.bit_eq, ht.bit_eq] at hj
        revert hj
        cases decide (j ∈ S) <;> cases decide (j ∈ T) <;> decide
      · obtain ⟨j, hj, hlast⟩ := h.exists_last hactual hpos
        have hnot : j ∉ T := ht.not_mem (by omega)
        exact ne_zero_of_bit (hmem j (Finset.mem_symmDiff.mpr (.inl ⟨hj, hnot⟩))) hlast

/-! ### Comparisons -/

theorem Represents.intersects (h : Represents s S) (ht : Represents t T) :
    BitSet.intersects t s = .ok (decide (¬ Disjoint S T)) := by
  have hmeet : ∀ count, s.actualArrayLength ≤ count ∨ t.actualArrayLength ≤ count →
      ((∃ j, 0 ≤ j ∧ j < 0 + count ∧ s.bits.getD j 0 &&& t.bits.getD j 0 ≠ 0) ↔ ¬ Disjoint S T) := by
    intro count hcount
    rw [Finset.not_disjoint_iff]
    constructor
    · rintro ⟨pos, -, -, hne⟩
      obtain ⟨k, hk, hbit⟩ : ∃ k, k < 64 ∧ (s.bits.getD pos 0 &&& t.bits.getD pos 0).getLsbD k = true := by
        by_contra hnone
        push Not at hnone
        refine hne (BitVec.eq_of_getLsbD_eq ?_)
        intro k hk
        rw [getLsbD_zero, ← Bool.not_eq_true]
        exact hnone k hk
      have hdiv : (64 * pos + k) / 64 = pos := by omega
      have hmod : (64 * pos + k) % 64 = k := by omega
      rw [BitVec.getLsbD_and, Bool.and_eq_true] at hbit
      refine ⟨64 * pos + k, (h.mem_iff _).mpr ?_, (ht.mem_iff _).mpr ?_⟩
      · rw [BitSet.member, bit, hdiv, hmod, hbit.1]
      · rw [BitSet.member, bit, hdiv, hmod, hbit.2]
    · rintro ⟨j, hS, hT⟩
      have hltS := h.lt_of_mem hS
      have hltT := ht.lt_of_mem hT
      refine ⟨j / 64, Nat.zero_le _, by omega, ?_⟩
      intro hzero
      have hbits := BitVec.getLsbD_and (x := s.bits.getD (j / 64) 0) (y := t.bits.getD (j / 64) 0) (i := j % 64)
      have hS' := (h.mem_iff j).mp hS
      have hT' := (ht.mem_iff j).mp hT
      rw [BitSet.member, bit] at hS' hT'
      rw [hzero, hS', hT', getLsbD_zero] at hbits
      cases hbits
  have hfits := h.inv.fits
  have hfits' := ht.inv.fits
  rw [BitSet.intersects]
  by_cases hle : s.actualArrayLength ≤ t.actualArrayLength
  · obtain ⟨b, hrun, hb⟩ := @meetWords_ok s.bits t.bits 0 s.actualArrayLength (by omega) (by omega)
    rw [if_pos hle, hrun, Bool.eq_iff_iff.mpr ((hb.trans (hmeet _ (.inl (le_refl _)))).trans decide_eq_true_iff.symm)]
  · obtain ⟨b, hrun, hb⟩ := @meetWords_ok s.bits t.bits 0 t.actualArrayLength (by omega) (by omega)
    rw [if_neg hle, hrun, Bool.eq_iff_iff.mpr ((hb.trans (hmeet _ (.inr (le_refl _)))).trans decide_eq_true_iff.symm)]

theorem Represents.eq_iff (h : Represents s S) (ht : Represents t T) :
    S = T ↔ ∀ pos, s.bits.getD pos 0 = t.bits.getD pos 0 := by
  constructor
  · intro heq pos
    by_contra hne
    obtain ⟨j, -, hj⟩ := exists_bit_ne hne
    rw [h.bit_eq, ht.bit_eq, heq] at hj
    exact hj rfl
  · intro hall
    ext j
    rw [h.mem_iff, ht.mem_iff, BitSet.member, BitSet.member, bit, bit, hall]

theorem sameWords_comm (h : count ≤ bits.length) (hother : count ≤ other.length) :
    sameWords bits other 0 count = sameWords other bits 0 count := by
  obtain ⟨b, hrun, hb⟩ := @sameWords_ok bits other 0 count (by omega) (by omega)
  obtain ⟨c, hrun', hc⟩ := @sameWords_ok other bits 0 count (by omega) (by omega)
  have hsame : b = c := by
    rw [Bool.eq_iff_iff, hb, hc]
    exact forall_congr' fun j => forall_congr' fun _ => forall_congr' fun _ => eq_comm
  rw [hrun, hrun', hsame]

theorem Represents.compareWords (h : Represents s S) (ht : Represents t T)
    (hle : s.actualArrayLength ≤ t.actualArrayLength) :
    (do if ← sameWords s.bits t.bits 0 s.actualArrayLength then
          zeroWords t.bits s.actualArrayLength (t.actualArrayLength - s.actualArrayLength)
        else .ok false) = (Except.ok (decide (S = T)) : Except BitSetException Bool) := by
  have hfits := h.inv.fits
  have hfits' := ht.inv.fits
  obtain ⟨b, hrun, hb⟩ := @sameWords_ok s.bits t.bits 0 s.actualArrayLength (by omega) (by omega)
  obtain ⟨c, hrest, hc⟩ :=
    @zeroWords_ok t.bits s.actualArrayLength (t.actualArrayLength - s.actualArrayLength) (by omega)
  have hiff : (b = true ∧ c = true) ↔ S = T := by
    rw [hb, hc, h.eq_iff ht]
    constructor
    · rintro ⟨hsame, hzero⟩ pos
      by_cases hpos : pos < s.actualArrayLength
      · exact hsame pos (Nat.zero_le _) (by omega)
      · rw [h.inv.unused pos (by omega)]
        by_cases hpos' : pos < t.actualArrayLength
        · exact (hzero pos (by omega) (by omega)).symm
        · exact (ht.inv.unused pos (by omega)).symm
    · intro hall
      refine ⟨fun j _ _ => hall j, ?_⟩
      intro j hlow _
      rw [← hall, h.inv.unused j hlow]
  simp only [hrun, bind, Except.bind]
  cases b with
  | true =>
    have hdecide : c = decide (S = T) := by
      rw [Bool.eq_iff_iff, decide_eq_true_iff, ← hiff, and_iff_right rfl]
    rw [if_pos rfl, hrest, hdecide]
  | false =>
    have hdecide : false = decide (S = T) := by
      symm
      rw [decide_eq_false_iff_not, ← hiff]
      exact fun hboth => Bool.false_ne_true hboth.1
    rw [if_neg Bool.false_ne_true, ← hdecide]

theorem Represents.equals (h : Represents s S) (ht : Represents t T) :
    BitSet.equals false t s = .ok (decide (S = T)) := by
  rw [BitSet.equals, if_neg Bool.false_ne_true]
  by_cases hlengths : s.isLengthActual = true ∧ t.isLengthActual = true ∧ s.actualArrayLength ≠ t.actualArrayLength
  · -- the longer one has an index that the other cannot have
    rw [if_pos hlengths]
    obtain ⟨hs, ht', hne⟩ := hlengths
    have hdiffer : S ≠ T := by
      intro heq
      rcases Nat.lt_or_gt_of_ne hne with hlt | hgt
      · obtain ⟨j, hj, hlast⟩ := ht.exists_last ht' (by omega)
        have := h.lt_of_mem (heq ▸ hj)
        omega
      · obtain ⟨j, hj, hlast⟩ := h.exists_last hs (by omega)
        have := ht.lt_of_mem (heq ▸ hj)
        omega
    rw [decide_eq_false hdiffer]
  · rw [if_neg hlengths]
    by_cases hle : s.actualArrayLength ≤ t.actualArrayLength
    · rw [if_pos hle]
      exact h.compareWords ht hle
    · have hfits := h.inv.fits
      have hfits' := ht.inv.fits
      rw [if_neg hle, sameWords_comm (by omega) hfits']
      refine (ht.compareWords h (by omega)).trans ?_
      rw [decide_eq_decide.mpr eq_comm]

end ActiveMQCpp.Decaf.BitSet
