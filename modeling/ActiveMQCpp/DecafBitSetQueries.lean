import ActiveMQCpp.DecafBitSetSlice
import ActiveMQCpp.LibBits
import Mathlib.Algebra.BigOperators.Intervals
import Mathlib.Data.Finset.Sort
import Mathlib.Order.Lattice.Nat

/-! The queries of a `BitSet` as functions of the finite set of the indexes in it. -/

namespace ActiveMQCpp.Decaf.BitSet

open MachineInt

variable {s : BitSet} {bits : Words} {i pos count : Nat} {S : Finset ℕ}

/-- The object holds exactly the indexes of `S`, and the indexes of its words are `int`s. -/
structure Represents (s : BitSet) (S : Finset ℕ) : Prop where
  inv : s.Inv
  member : ∀ i, s.member i = decide (i ∈ S)
  bound : s.actualArrayLength < 33554432

theorem Represents.lt_of_mem (h : Represents s S) (hi : i ∈ S) : i < 64 * s.actualArrayLength := by
  have hword := h.inv.lt_of_member (by rw [h.member, decide_eq_true hi])
  omega

theorem Represents.mem_iff (h : Represents s S) (i : Nat) : i ∈ S ↔ s.member i = true := by
  rw [h.member, decide_eq_true_eq]

theorem Represents.eq_empty (h : Represents s S) (hclear : s.needClear = false) : S = ∅ := by
  apply Finset.eq_empty_of_forall_notMem
  intro i hi
  have hmem := h.inv.fresh hclear i
  rw [h.member, decide_eq_true hi] at hmem
  cases hmem

/-! ### Length -/

theorem usedWords_ok : ∀ {count : Nat}, count ≤ bits.length → ∃ used, usedWords bits count = .ok used ∧ used ≤ count ∧
    (0 < used → bits.getD (used - 1) 0 ≠ 0) ∧ ∀ pos, used ≤ pos → pos < count → bits.getD pos 0 = 0 := by
  intro count
  induction count with
  | zero =>
    intro _
    exact ⟨0, rfl, le_refl 0, fun h => absurd h (Nat.lt_irrefl 0), fun pos _ h => absurd h (Nat.not_lt_zero pos)⟩
  | succ count ih =>
    intro h
    by_cases hzero : bits.getD count 0 = 0
    · obtain ⟨used, hrun, hle, hlast, hrest⟩ := ih (by omega)
      refine ⟨used, ?_, by omega, hlast, ?_⟩
      · simp only [usedWords, word_ok (show count < bits.length by omega), bind, Except.bind, if_pos hzero]
        exact hrun
      · intro pos hlow hhigh
        by_cases hpos : pos = count
        · rw [hpos, hzero]
        · exact hrest pos hlow (by omega)
    · refine ⟨count + 1, ?_, le_refl _, fun _ => hzero, fun pos hlow hhigh => by omega⟩
      simp only [usedWords, word_ok (show count < bits.length by omega), bind, Except.bind, if_neg hzero]

theorem Inv.shrink (h : s.Inv) {used : Nat} (hle : used ≤ s.actualArrayLength)
    (hzero : ∀ pos, used ≤ pos → pos < s.actualArrayLength → s.bits.getD pos 0 = 0)
    (hlast : 0 < used → s.bits.getD (used - 1) 0 ≠ 0) (flag : Bool) :
    ({ s with actualArrayLength := used, isLengthActual := flag } : BitSet).Inv := by
  refine ⟨h.size, le_trans hle h.fits, ?_, h.fresh, fun _ => hlast⟩
  intro pos hpos
  by_cases hin : pos < s.actualArrayLength
  · exact hzero pos hpos hin
  · exact h.unused pos (by omega)

theorem highestBit_spec {val : BitVec 64} : ∀ k, k < 64 → (∃ j, j ≤ k ∧ val.getLsbD j = true) →
    highestBit val k ≤ k ∧ val.getLsbD (highestBit val k) = true ∧
      ∀ j, highestBit val k < j → j ≤ k → val.getLsbD j = false := by
  intro k
  induction k with
  | zero =>
    rintro - ⟨j, hj, hbit⟩
    have hj : j = 0 := by omega
    subst hj
    exact ⟨le_refl 0, hbit, fun j hlow hhigh => by rw [highestBit] at hlow; omega⟩
  | succ k ih =>
    intro hk hsome
    have hself : (k + 1) % 64 = k + 1 := Nat.mod_eq_of_lt hk
    have htest := and_twoN_ne_zero (i := k + 1) val
    rw [hself] at htest
    by_cases hzero : val &&& twoN (k + 1) = 0
    · have hfalse : val.getLsbD (k + 1) = false := by
        rw [← htest, hzero]
        rfl
      obtain ⟨j, hj, hbit⟩ := hsome
      have hlower : ∃ j, j ≤ k ∧ val.getLsbD j = true := by
        refine ⟨j, ?_, hbit⟩
        by_contra hgt
        have heq : j = k + 1 := by omega
        rw [heq, hfalse] at hbit
        cases hbit
      obtain ⟨hle, htop, habove⟩ := ih (by omega) hlower
      rw [highestBit, if_pos hzero]
      refine ⟨by omega, htop, ?_⟩
      intro j hlow hhigh
      by_cases heq : j = k + 1
      · rw [heq, hfalse]
      · exact habove j hlow (by omega)
    · have htrue : val.getLsbD (k + 1) = true := by
        rw [← htest]
        simpa using hzero
      rw [highestBit, if_neg hzero]
      exact ⟨le_refl _, htrue, fun j hlow hhigh => by omega⟩

theorem Represents.length (h : Represents s S) : ∃ t, s.length = .ok (((S.sup (· + 1) : ℕ) : Int), t) ∧
    Represents t S := by
  obtain ⟨used, hrun, hle, hlast, hzero⟩ := usedWords_ok h.inv.fits
  have hbound := h.bound
  have hfits := h.inv.fits
  have hshrunk : Represents { s with actualArrayLength := used } S :=
    ⟨h.inv.shrink hle hzero hlast s.isLengthActual, h.member, by simp only; omega⟩
  refine ⟨{ s with actualArrayLength := used }, ?_, hshrunk⟩
  by_cases hnone : used = 0
  · have hempty : S.sup (· + 1) = 0 := by
      rw [← Nat.le_zero]
      apply Finset.sup_le
      intro i hi
      have := hshrunk.lt_of_mem hi
      simp only at this
      omega
    simp only [BitSet.length, hrun, bind, Except.bind, if_pos hnone, hempty]
    rfl
  · have hword : s.bits.getD (used - 1) 0 ≠ 0 := hlast (by omega)
    obtain ⟨i, hlow, hhigh, hbit⟩ := exists_bit hword
    have hpos : i / 64 = used - 1 := by omega
    have hsome : ∃ j, j ≤ 63 ∧ (s.bits.getD (used - 1) 0).getLsbD j = true := by
      refine ⟨i % 64, by omega, ?_⟩
      rw [← hpos]
      exact hbit
    obtain ⟨hk, htop, habove⟩ := highestBit_spec 63 (by decide) hsome
    have hsup : S.sup (· + 1) = 64 * (used - 1) + highestBit (s.bits.getD (used - 1) 0) 63 + 1 := by
      apply le_antisymm
      · apply Finset.sup_le
        intro j hj
        have hin := hshrunk.lt_of_mem hj
        simp only at hin
        by_contra hgt
        have hlastWord : j / 64 = used - 1 := by omega
        have hfalse := habove (j % 64) (by omega) (by omega)
        have hmem := (h.mem_iff j).mp hj
        rw [BitSet.member, bit, hlastWord, hfalse] at hmem
        cases hmem
      · have hmem : 64 * (used - 1) + highestBit (s.bits.getD (used - 1) 0) 63 ∈ S := by
          rw [h.mem_iff, BitSet.member, bit]
          have hdiv : (64 * (used - 1) + highestBit (s.bits.getD (used - 1) 0) 63) / 64 = used - 1 := by omega
          have hmod : (64 * (used - 1) + highestBit (s.bits.getD (used - 1) 0) 63) % 64
              = highestBit (s.bits.getD (used - 1) 0) 63 := by omega
          rw [hdiv, hmod]
          exact htop
        exact Finset.le_sup (f := (· + 1)) hmem
    have hvalue : toInt32 (shiftOffset (used - 1) + highestBit (s.bits.getD (used - 1) 0) 63 + 1)
        = ((S.sup (· + 1) : ℕ) : Int) := by
      rw [shiftOffset_eq (by omega), toInt32_of_range (by omega) (by omega), hsup]
      push_cast
      ring
    simp only [BitSet.length, hrun, bind, Except.bind, if_neg hnone,
      word_ok (show used - 1 < s.bits.length by omega), hvalue]

/-! ### Cardinality -/

theorem pop_eq {x : BitVec 64} (hx : x.toNat < 2 ^ 32) : pop x = Popcount.count 32 x.toNat := by
  have hlow : ∀ n : Nat, n &&& 63 = n % 64 := fun n => Nat.and_two_pow_sub_one_eq_mod n 6
  have hthirtytwo : (0x0000003f#32).toNat = 63 := rfl
  rw [pop, BitVec.toNat_and, BitVec.toNat_setWidth, hthirtytwo, hlow, Nat.mod_mod_of_dvd _ (by decide),
    Bits.toNat_parallel (by decide) hx (by decide) (by decide) (by decide) rfl rfl rfl rfl]

theorem pop_halves (w : BitVec 64) :
    pop (w &&& 0xffffffff#64) + pop (w >>> 32) = ((Finset.range 64).filter fun k => w.getLsbD k = true).card := by
  have hlow : (w &&& 0xffffffff#64).toNat = w.toNat % 2 ^ 32 := by
    rw [BitVec.toNat_and]
    exact Nat.and_two_pow_sub_one_eq_mod w.toNat 32
  have hhigh : (w >>> 32).toNat = w.toNat / 2 ^ 32 := Bits.toNat_shift w 32
  have hlt := w.isLt
  rw [pop_eq (by rw [hlow]; omega), pop_eq (by rw [hhigh]; omega), hlow, hhigh, ← Popcount.count_add 32 32,
    Popcount.count_eq_sum_testBit, Finset.card_filter, ← List.sum_toFinset _ (List.nodup_range), List.toFinset_range]
  apply Finset.sum_congr rfl
  intro k _
  rw [BitVec.getLsbD]
  cases w.toNat.testBit k <;> rfl

theorem countWords_ok : ∀ {pos count : Nat}, pos + count ≤ bits.length → countWords bits pos count
    = .ok ((Finset.range (64 * count)).filter fun i => bit bits (64 * pos + i) = true).card := by
  intro pos count
  induction count generalizing pos with
  | zero =>
    intro _
    rfl
  | succ count ih =>
    intro h
    have hword : ((Finset.range 64).filter fun k => (bits.getD pos 0).getLsbD k = true).card
        = ((Finset.range 64).filter fun i => bit bits (64 * pos + i) = true).card := by
      congr 1
      apply Finset.filter_congr
      intro k hk
      have hk := Finset.mem_range.mp hk
      have hdiv : (64 * pos + k) / 64 = pos := by omega
      have hmod : (64 * pos + k) % 64 = k := by omega
      rw [bit, hdiv, hmod]
    have hsplit : 64 * (count + 1) = 64 + 64 * count := by ring
    have hshift : ∀ i, 64 * (pos + 1) + i = 64 * pos + (64 + i) := by
      intro i
      ring
    simp only [countWords, word_ok (show pos < bits.length by omega), bind, Except.bind, @ih (pos + 1) (by omega),
      pop_halves, hword, hsplit]
    congr 1
    simp only [Finset.card_filter, Finset.sum_range_add, hshift]

theorem Represents.cardinality (h : Represents s S) : s.cardinality = .ok S.card := by
  have hsize := h.inv.size
  have hfits := h.inv.fits
  rw [BitSet.cardinality]
  cases hclear : s.needClear with
  | false =>
    have hempty := h.eq_empty hclear
    rw [if_pos rfl, hempty, Finset.card_empty]
  | true =>
    have hset : (Finset.range (64 * s.bitsSize)).filter (fun i => bit s.bits (64 * 0 + i) = true) = S := by
      ext i
      rw [Finset.mem_filter, Finset.mem_range, Nat.mul_zero, Nat.zero_add, h.mem_iff, BitSet.member]
      constructor
      · rintro ⟨-, hbit⟩
        exact hbit
      · intro hbit
        have hword := h.inv.lt_of_member hbit
        exact ⟨by omega, hbit⟩
    rw [if_neg (by decide), countWords_ok (by omega), hset]

theorem zeroWords_ok : ∀ {pos count : Nat}, pos + count ≤ bits.length →
    ∃ b, zeroWords bits pos count = .ok b ∧ (b = true ↔ ∀ j, pos ≤ j → j < pos + count → bits.getD j 0 = 0) := by
  intro pos count
  induction count generalizing pos with
  | zero =>
    intro _
    exact ⟨true, rfl, fun _ j hlow hhigh => by omega, fun _ => rfl⟩
  | succ count ih =>
    intro h
    have hword := word_ok (show pos < bits.length by omega)
    by_cases hzero : bits.getD pos 0 = 0
    · obtain ⟨b, hrun, hiff⟩ := @ih (pos + 1) (by omega)
      refine ⟨b, ?_, ?_⟩
      · simp only [zeroWords, hword, bind, Except.bind]
        rw [if_neg (not_not.mpr hzero)]
        exact hrun
      · rw [hiff]
        constructor
        · intro hall j hlow hhigh
          by_cases hj : j = pos
          · rw [hj, hzero]
          · exact hall j (by omega) (by omega)
        · intro hall j hlow hhigh
          exact hall j (by omega) (by omega)
    · refine ⟨false, ?_, ?_⟩
      · simp only [zeroWords, hword, bind, Except.bind]
        rw [if_pos hzero]
      · constructor
        · intro hfalse
          cases hfalse
        · intro hall
          exact absurd (hall pos (le_refl pos) (by omega)) hzero

theorem Represents.isEmpty (h : Represents s S) : s.isEmpty = .ok (decide (S = ∅)) := by
  have hsize := h.inv.size
  have hfits := h.inv.fits
  rw [BitSet.isEmpty]
  cases hclear : s.needClear with
  | false =>
    have hempty := h.eq_empty hclear
    rw [if_pos rfl, decide_eq_true hempty]
  | true =>
    obtain ⟨b, hrun, hiff⟩ := @zeroWords_ok s.bits 0 s.bitsSize (by omega)
    have hset : b = true ↔ S = ∅ := by
      rw [hiff]
      constructor
      · intro hall
        apply Finset.eq_empty_of_forall_notMem
        intro i hi
        have hbit := (h.mem_iff i).mp hi
        have hword := h.inv.lt_of_member hbit
        exact getD_ne_zero hbit (hall (i / 64) (Nat.zero_le _) (by omega))
      · intro hempty j _ _
        rw [getD_eq_zero_iff]
        intro i _ _
        have hmem := h.member i
        rw [hempty, BitSet.member] at hmem
        simpa using hmem
    rw [if_neg (by decide), hrun]
    congr 1
    rw [Bool.eq_iff_iff, hset, decide_eq_true_eq]

end ActiveMQCpp.Decaf.BitSet
