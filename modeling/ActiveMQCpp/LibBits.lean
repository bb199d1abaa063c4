import Mathlib.Data.BitVec
import ActiveMQCpp.LibPopcount

/-! Words bit by bit: functions that move bits, the highest and the lowest one bit, rotations, and the number
of one bits. -/

namespace ActiveMQCpp.Bits

variable {w n t : Nat} {u v : BitVec w} {f g : BitVec w → BitVec w}
variable {q : Nat → Nat}

/-- The bit `i` of the result is the bit `p i` of the word. -/
def Gathers (p : Nat → Nat) (v r : BitVec w) : Prop := ∀ i < w, r.getLsbD i = v.getLsbD (p i)

/-- The result keeps the highest one bit alone. -/
def IsHighest (v r : BitVec w) : Prop :=
  ∀ i, r.getLsbD i = true ↔ v.getLsbD i = true ∧ ∀ j, i < j → v.getLsbD j = false

/-- The result keeps the lowest one bit alone. -/
def IsLowest (v r : BitVec w) : Prop :=
  ∀ i, r.getLsbD i = true ↔ v.getLsbD i = true ∧ ∀ j < i, v.getLsbD j = false

/-! ### Functions that move bits -/

/-- The value at a word is put together from the values at its bits. -/
structure Moves (f : BitVec w → BitVec w) : Prop where
  zero : f 0#w = 0#w
  or : ∀ a b, f (a ||| b) = f a ||| f b

theorem Moves.id : Moves fun u : BitVec w => u := ⟨rfl, fun _ _ => rfl⟩

theorem Moves.and (hf : Moves f) (m : BitVec w) : Moves fun u => f u &&& m :=
  ⟨by simp [hf.zero], fun a b => by rw [hf.or, BitVec.and_or_distrib_right]⟩

theorem Moves.shl (hf : Moves f) (k : Nat) : Moves fun u => f u <<< k :=
  ⟨by simp [hf.zero], fun a b => by rw [hf.or, BitVec.shiftLeft_or_distrib]⟩

theorem Moves.shr (hf : Moves f) (k : Nat) : Moves fun u => f u >>> k :=
  ⟨by simp [hf.zero], fun a b => by rw [hf.or, BitVec.ushiftRight_or_distrib]⟩

theorem Moves.union (hf : Moves f) (hg : Moves g) : Moves fun u => f u ||| g u := by
  constructor
  · simp [hf.zero, hg.zero]
  · intro a b
    rw [hf.or, hg.or]
    ac_rfl

theorem Moves.comp (hg : Moves g) (hf : Moves f) : Moves fun u => g (f u) :=
  ⟨by rw [hf.zero, hg.zero], fun a b => by rw [hf.or, hg.or]⟩

theorem Moves.guarded (hf : Moves f) : Moves fun u => if u = 0 then 0 else f u := by
  have heq : (fun u => if u = 0 then 0 else f u) = f := by
    funext u
    split
    · next hzero => rw [hzero]; exact hf.zero.symm
    · rfl
  rwa [heq]

/-- A function that moves bits is known from the words of one bit. The induction is on the length of the word. -/
theorem Moves.gathers (hf : Moves f) (hq : ∀ j < w, q j < w ∧ q (q j) = j)
    (hbit : ∀ j < w, f (.twoPow w j) = .twoPow w (q j)) (v : BitVec w) : Gathers q v (f v) := by
  intro i hi
  have hrun : ∀ n (v : BitVec w), (∀ j, n ≤ j → v.getLsbD j = false) → (f v).getLsbD i = v.getLsbD (q i) := by
    intro n
    induction n with
    | zero =>
      intro v hv
      have hzero : v = 0#w := BitVec.eq_of_getLsbD_eq fun j _ => by simp [hv j (Nat.zero_le j)]
      rw [hzero, hf.zero, BitVec.getLsbD_zero, BitVec.getLsbD_zero]
    | succ n ih =>
      intro v hv
      by_cases hn : v.getLsbD n = true
      · have hw : n < w := BitVec.lt_of_getLsbD hn
        have hsplit : v = (v &&& ~~~.twoPow w n) ||| .twoPow w n := by
          apply BitVec.eq_of_getLsbD_eq
          intro j hj
          rcases eq_or_ne n j with rfl | hne
          · simp [hn, hj]
          · simp [hj, hne.symm]
        have hrest := ih (v &&& ~~~.twoPow w n) (by
          intro j hj
          rcases eq_or_lt_of_le hj with rfl | hlt
          · simp [hw]
          · simp [hv j hlt])
        rw [hsplit, hf.or, hbit n hw, BitVec.getLsbD_or, hrest, BitVec.getLsbD_or, BitVec.getLsbD_twoPow,
          BitVec.getLsbD_twoPow]
        have hsame : q n = i ↔ n = q i :=
          ⟨fun h => by rw [← h, (hq n hw).2], fun h => by rw [h, (hq i hi).2]⟩
        simp [hsame, (hq n hw).1, hw]
      · exact ih v fun j hj => (eq_or_lt_of_le hj).elim (fun h => by simpa [h] using hn) (hv j)
  exact hrun w v fun j hj => BitVec.getLsbD_of_ge v j hj

/-! ### The highest and the lowest one bit -/

/-- Every bit of `u` says whether one of the `n` bits of `v` from there on is one. -/
def Smeared (v : BitVec w) (n : Nat) (u : BitVec w) : Prop :=
  ∀ i, u.getLsbD i = true ↔ ∃ k < n, v.getLsbD (i + k) = true

theorem smeared_one (v : BitVec w) : Smeared v 1 v := fun i =>
  ⟨fun h => ⟨0, Nat.one_pos, h⟩, fun ⟨k, hk, h⟩ => by rwa [Nat.lt_one_iff.mp hk] at h⟩

theorem Smeared.double (h : Smeared v n u) : Smeared v (n + n) (u ||| (u >>> n)) := by
  intro i
  rw [BitVec.getLsbD_or, BitVec.getLsbD_ushiftRight, Bool.or_eq_true, h, h]
  constructor
  · rintro (⟨k, hk, hbit⟩ | ⟨k, hk, hbit⟩)
    · exact ⟨k, by omega, hbit⟩
    · exact ⟨n + k, by omega, by rwa [show i + (n + k) = n + i + k by omega]⟩
  · rintro ⟨k, hk, hbit⟩
    rcases Nat.lt_or_ge k n with hlt | hge
    · exact .inl ⟨k, hlt, hbit⟩
    · exact .inr ⟨k - n, by omega, by rwa [show n + i + (k - n) = i + k by omega]⟩

theorem Smeared.isHighest (h : Smeared v w u) : IsHighest v (u &&& ~~~(u >>> 1)) := by
  have hfar : ∀ i, u.getLsbD i = true ↔ ∃ j, i ≤ j ∧ v.getLsbD j = true := by
    intro i
    rw [h]
    constructor
    · rintro ⟨k, _, hbit⟩
      exact ⟨i + k, by omega, hbit⟩
    · rintro ⟨j, hj, hbit⟩
      have hw := BitVec.lt_of_getLsbD hbit
      exact ⟨j - i, by omega, by rwa [Nat.add_sub_of_le hj]⟩
  have hnext : ∀ i, u.getLsbD (1 + i) = false ↔ ∀ j, i < j → v.getLsbD j = false := by
    intro i
    rw [← Bool.not_eq_true, hfar]
    simp [Nat.add_comm 1 i, Nat.succ_le_iff]
  intro i
  have hcut : (u &&& ~~~(u >>> 1)).getLsbD i = true ↔ u.getLsbD i = true ∧ u.getLsbD (1 + i) = false := by
    simp only [BitVec.getLsbD_and, BitVec.getLsbD_not, BitVec.getLsbD_ushiftRight, Bool.and_eq_true,
      decide_eq_true_eq, Bool.not_eq_true']
    exact ⟨fun h => ⟨h.1, h.2.2⟩, fun h => ⟨h.1, BitVec.lt_of_getLsbD h.1, h.2⟩⟩
  rw [hcut, hfar, hnext]
  constructor
  · rintro ⟨⟨j, hj, hbit⟩, hrest⟩
    rcases eq_or_lt_of_le hj with rfl | hlt
    · exact ⟨hbit, hrest⟩
    · rw [hrest j hlt] at hbit
      contradiction
  · rintro ⟨hbit, hrest⟩
    exact ⟨⟨i, le_refl i, hbit⟩, hrest⟩

theorem isLowest_and_neg (v : BitVec w) : IsLowest v (v &&& -v) := by
  intro i
  rw [BitVec.getLsbD_and, BitVec.getLsbD_neg]
  constructor
  · intro h
    have hbit : v.getLsbD i = true := (Bool.and_eq_true _ _ ▸ h).1
    refine ⟨hbit, fun j hj => ?_⟩
    by_contra hj'
    have hex : ∃ j < i, v.getLsbD j = true := ⟨j, hj, by simpa using hj'⟩
    simp [hex, BitVec.lt_of_getLsbD hbit] at h
  · rintro ⟨hbit, hrest⟩
    have hnone : ¬∃ j < i, v.getLsbD j = true := by
      rintro ⟨j, hj, hone⟩
      rw [hrest j hj] at hone
      contradiction
    simp [hbit, hnone]

/-! ### The number of one bits -/

theorem toNat_cpop_eq_count (v : BitVec w) : v.cpop.toNat = Popcount.count w v.toNat := by
  have hrec : ∀ n, v.cpopNatRec n 0 = ((List.range n).map fun i => (v.toNat.testBit i).toNat).sum := by
    intro n
    induction n with
    | zero => simp
    | succ n ih =>
      rw [BitVec.cpopNatRec_succ, BitVec.cpopNatRec_eq, ih, List.range_succ, List.map_append, List.sum_append]
      simp [BitVec.getLsbD]
  rw [BitVec.toNat_cpop, hrec, Popcount.count_eq_sum_testBit]

theorem eq_zero_of_cpop (h : v.cpop.toNat = 0) : v = 0#w := by
  have hrec : ∀ n, v.cpopNatRec n 0 = 0 → ∀ i < n, v.getLsbD i = false := by
    intro n
    induction n with
    | zero => simp
    | succ n ih =>
      intro hn i hi
      rw [BitVec.cpopNatRec_succ, BitVec.cpopNatRec_eq] at hn
      rcases Nat.lt_succ_iff_lt_or_eq.mp hi with hlt | rfl
      · exact ih (by omega) i hlt
      · cases hbit : v.getLsbD i with
        | false => rfl
        | true => simp [hbit] at hn
  rw [BitVec.toNat_cpop] at h
  exact BitVec.eq_of_getLsbD_eq fun i hi => by rw [hrec w h i hi, BitVec.getLsbD_zero]

/-- A word below `2 ^ t` has `t` one bits just when all the lowest `t` bits are ones. -/
theorem cpop_eq_iff (ht : t ≤ w) (hv : v.toNat < 2 ^ t) : v.cpop.toNat = t ↔ v.toNat = 2 ^ t - 1 := by
  have hwide : v = (v.setWidth t).setWidth w := by
    apply BitVec.eq_of_toNat_eq
    simp [Nat.mod_eq_of_lt hv]
  have hcount : v.cpop.toNat = (v.setWidth t).cpop.toNat := by
    rw [hwide, BitVec.toNat_cpop_setWidth_eq_of_le ht, ← hwide]
  have hones : v.toNat = 2 ^ t - 1 ↔ ~~~v.setWidth t = 0#t := by
    rw [← BitVec.toNat_inj, BitVec.toNat_not, BitVec.toNat_setWidth, Nat.mod_eq_of_lt hv, BitVec.toNat_zero]
    omega
  have hnot := BitVec.toNat_cpop_not (x := v.setWidth t)
  rw [hcount, hones]
  constructor
  · intro h
    exact eq_zero_of_cpop (by rw [hnot, h, Nat.sub_self])
  · intro h
    have hle := BitVec.toNat_cpop_le (v.setWidth t)
    rw [h, BitVec.cpop_zero, BitVec.toNat_zero] at hnot
    omega

/-- Leading zeros are the zeros of the word when there are no others. -/
theorem sub_cpop_eq_clz_iff (hv : v ≠ 0#w) :
    w - v.cpop.toNat = v.clz.toNat ↔ ∃ k, 1 ≤ k ∧ k ≤ w ∧ v.toNat = 2 ^ k - 1 := by
  have hpos : 0 < w := Nat.pos_of_ne_zero fun h => by subst h; exact hv (Subsingleton.elim _ _)
  have hclz : v.clz.toNat < w := by
    have hlt := BitVec.clz_lt_iff_ne_zero.mpr hv
    rwa [BitVec.lt_def, BitVec.natCast_eq_ofNat, BitVec.toNat_ofNat, Nat.mod_eq_of_lt Nat.lt_two_pow_self] at hlt
  have hbelow := BitVec.toNat_lt_two_pow_sub_clz (x := v)
  have habove := BitVec.two_pow_sub_clz_le_toNat_of_ne_zero hpos hv
  have hle := BitVec.toNat_cpop_le v
  constructor
  · intro h
    exact ⟨w - v.clz.toNat, by omega, by omega, (cpop_eq_iff (by omega) hbelow).mp (by omega)⟩
  · rintro ⟨k, hk, hkw, hones⟩
    have htwo := Nat.two_pow_pos k
    have hcount : v.cpop.toNat = k := (cpop_eq_iff hkw (by omega)).mpr hones
    have hlow : w - 1 - v.clz.toNat < k := (Nat.pow_lt_pow_iff_right (by decide)).mp (by omega : _ < 2 ^ k)
    have hhigh : k ≤ w - v.clz.toNat := (Nat.pow_le_pow_iff_right (by decide)).mp (by omega : 2 ^ k ≤ _)
    omega

theorem toNat_clz_zero (w : Nat) : (0#w).clz.toNat = w := by
  rw [BitVec.clz_eq_iff_eq_zero.mpr rfl, BitVec.natCast_eq_ofNat, BitVec.toNat_ofNat, Nat.mod_eq_of_lt Nat.lt_two_pow_self]

theorem cpop_lowest (hv : v ≠ 0#w) : ((v &&& -v) - 1#w).cpop.toNat = v.ctz.toNat := by
  have hone := BitVec.getLsbD_true_ctz_of_ne_zero hv
  have hw := BitVec.lt_of_getLsbD hone
  have hlow : v &&& -v = .twoPow w v.ctz.toNat := by
    apply BitVec.eq_of_getLsbD_eq
    intro i hi
    rw [BitVec.getLsbD_twoPow, decide_eq_true hw, Bool.true_and, Bool.eq_iff_iff, isLowest_and_neg, decide_eq_true_eq]
    constructor
    · rintro ⟨hbit, hrest⟩
      rcases lt_trichotomy v.ctz.toNat i with hlt | heq | hgt
      · rw [hrest _ hlt] at hone
        contradiction
      · exact heq
      · rw [BitVec.getLsbD_false_of_lt_ctz hgt] at hbit
        contradiction
    · rintro rfl
      exact ⟨hone, fun j hj => BitVec.getLsbD_false_of_lt_ctz hj⟩
  have hpow : 2 ^ v.ctz.toNat < 2 ^ w := Nat.pow_lt_pow_right (by decide) hw
  have htwo := Nat.two_pow_pos v.ctz.toNat
  have hsub : ((v &&& -v) - 1#w).toNat = 2 ^ v.ctz.toNat - 1 := by
    have hunit : (1#w).toNat = 1 := by rw [BitVec.toNat_ofNat, Nat.mod_eq_of_lt (by omega)]
    have hvalue : (BitVec.twoPow w v.ctz.toNat).toNat = 2 ^ v.ctz.toNat := by
      rw [BitVec.toNat_twoPow, Nat.mod_eq_of_lt hpow]
    rw [hlow, BitVec.toNat_sub_of_le (by rw [BitVec.le_def, hunit, hvalue]; exact htwo), hunit, hvalue]
  exact (cpop_eq_iff hw.le (by omega)).mpr hsub

/-! ### Rotations -/

theorem getLsbD_shifts (v : BitVec w) (j k : Nat) {i : Nat} (hi : i < w) :
    ((v <<< j) ||| (v >>> k)).getLsbD i = (decide (j ≤ i) && v.getLsbD (i - j) || v.getLsbD (k + i)) := by
  rw [BitVec.getLsbD_or, BitVec.getLsbD_shiftLeft, BitVec.getLsbD_ushiftRight, decide_eq_true hi, Bool.true_and,
    ← decide_not]
  simp only [Nat.not_lt]

theorem gathers_shifts {j k : Nat} (hk : k < w) (hsum : j + k = 0 ∨ j + k = w) (v : BitVec w) :
    Gathers (fun i => (i + k) % w) v ((v <<< j) ||| (v >>> k)) := by
  intro i hi
  show _ = v.getLsbD ((i + k) % w)
  rw [getLsbD_shifts v j k hi, Nat.add_comm i k]
  by_cases hji : j ≤ i
  · rcases hsum with hnone | hfull
    · simp [show j = 0 by omega, show k = 0 by omega, Nat.mod_eq_of_lt hi]
    · have hindex : (k + i) % w = i - j := by
        rw [show k + i = i - j + w by omega, Nat.add_mod_right, Nat.mod_eq_of_lt (by omega)]
      rw [hindex, decide_eq_true hji, Bool.true_and, BitVec.getLsbD_of_ge v (k + i) (by omega), Bool.or_false]
  · rw [decide_eq_false hji, Bool.false_and, Bool.false_or, Nat.mod_eq_of_lt (by omega)]

theorem Gathers.inverse {p : Nat → Nat} {r s : BitVec w} (hp : Gathers p v r) (hq : Gathers q r s)
    (hpq : ∀ i < w, q i < w ∧ p (q i) = i) : s = v :=
  BitVec.eq_of_getLsbD_eq fun i hi => by rw [hq i hi, hp (q i) (hpq i hi).1, (hpq i hi).2]

theorem toNat_shift (v : BitVec w) (k : Nat) : (v >>> k).toNat = v.toNat / 2 ^ k := by
  rw [BitVec.toNat_ushiftRight, Nat.shiftRight_eq_div_pow]

theorem toNat_add_shift (k : Nat) (h : v.toNat + v.toNat / 2 ^ k < 2 ^ w) :
    (v + (v >>> k)).toNat = v.toNat + v.toNat / 2 ^ k := by
  rw [← toNat_shift] at h ⊢
  exact BitVec.toNat_add_of_lt h

open Popcount in
theorem toNat_merged {m : BitVec w} (s n : Nat) (hm : m.toNat = lowers s n) (hfit : 2 * lowers s n < 2 ^ w)
    (v : BitVec w) : ((v &&& m) + ((v >>> s) &&& m)).toNat = merged s n v.toNat := by
  have hfst : v.toNat &&& lowers s n ≤ lowers s n := Nat.and_le_right
  have hsnd : v.toNat / 2 ^ s &&& lowers s n ≤ lowers s n := Nat.and_le_right
  rw [← hm, ← BitVec.toNat_and] at hfst
  rw [← hm, ← toNat_shift, ← BitVec.toNat_and] at hsnd
  rw [BitVec.toNat_add_of_lt (by omega), BitVec.toNat_and, BitVec.toNat_and, toNat_shift, hm, merged]

open Popcount in
/-- The parallel steps do not overflow on a value of 32 bits. -/
theorem toNat_parallel {x x1 x2 x3 x4 fives threes fifteens : BitVec w} (hw : 2 ^ 32 ≤ 2 ^ w) (hx : x.toNat < 2 ^ 32)
    (hfives : fives.toNat = lowers 1 16) (hthrees : threes.toNat = lowers 2 8) (hfifteens : fifteens.toNat = lowers 4 4)
    (h1 : x1 = x - ((x >>> 1) &&& fives)) (h2 : x2 = (x1 &&& threes) + ((x1 >>> 2) &&& threes))
    (h3 : x3 = (x2 + (x2 >>> 4)) &&& fifteens) (h4 : x4 = x3 + (x3 >>> 8)) :
    (x4 + (x4 >>> 16)).toNat % 64 = count 32 x.toNat := by
  have hpairs : x1.toNat = merged 1 16 x.toNat := by
    have hle : x.toNat / 2 &&& lowers 1 16 ≤ x.toNat := le_trans Nat.and_le_left (Nat.div_le_self _ 2)
    have hmask : ((x >>> 1) &&& fives).toNat = x.toNat / 2 &&& lowers 1 16 := by
      rw [BitVec.toNat_and, toNat_shift, hfives, pow_one]
    rw [h1, BitVec.toNat_sub_of_le (by rw [BitVec.le_def, hmask]; exact hle), hmask, sub_lowers 16 _ hx]
  have hnibbles : x2.toNat = merged 2 8 x1.toNat := by
    rw [h2, toNat_merged 2 8 hthrees (lt_of_lt_of_le (by decide) hw)]
  have hsmall : x2.toNat ≤ 0x66666666 := by
    have hfst : x1.toNat &&& lowers 2 8 ≤ 0x33333333 := Nat.and_le_right
    have hsnd : x1.toNat / 2 ^ 2 &&& lowers 2 8 ≤ 0x33333333 := Nat.and_le_right
    rw [hnibbles, merged]
    omega
  have hbytes : x3.toNat = merged 4 4 x2.toNat := by
    rw [h3, BitVec.toNat_and, toNat_add_shift 4 (by omega), hfifteens, Nat.add_comm, hnibbles]
    exact and_lowers 4 _
  have hsmall' : x3.toNat ≤ 0x0f0f0f0f := by
    rw [h3, BitVec.toNat_and, hfifteens]
    exact Nat.and_le_right
  have hhalf : x4.toNat = x3.toNat + x3.toNat / 256 := by
    rw [h4, toNat_add_shift 8 (by omega)]
    rfl
  have htotal : total 8 4 x3.toNat = count 32 x.toNat := by
    calc
      _ = total 4 8 x2.toNat := by rw [hbytes]; exact total_merged 4 4 _
      _ = total 2 16 x1.toNat := by rw [hnibbles]; exact total_merged 2 8 _
      _ = total 1 32 x.toNat := by rw [hpairs]; exact total_merged 1 16 _
      _ = count 32 x.toNat := (count_eq_total 32 _).symm
  have hle := count_le 32 x.toNat
  rw [toNat_add_shift 16 (by omega), hhalf, ← htotal]
  exact fold_total (by omega) (by omega)

end ActiveMQCpp.Bits
