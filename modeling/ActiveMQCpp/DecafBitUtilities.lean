import ActiveMQCpp.LibBits

/-! The bit utilities of `Integer` and `Long`. An `int` is a word of 32 bits and a `long long` one of 64; the
conversions between signed and unsigned keep the bits. -/

namespace ActiveMQCpp.Decaf

open Bits Moves

namespace Integer

def bitCount (value : BitVec 32) : BitVec 32 :=
  if value = 0 then 0
  else
    let uvalue := value - ((value >>> 1) &&& 0x55555555#32)
    let uvalue := ((uvalue >>> 2) &&& 0x33333333#32) + (uvalue &&& 0x33333333#32)
    let uvalue := ((uvalue >>> 4) + uvalue) &&& 0x0F0F0F0F#32
    let uvalue := uvalue + (uvalue >>> 8)
    let uvalue := uvalue + (uvalue >>> 16)
    uvalue &&& 0x0000003F#32

def reverseBytes (value : BitVec 32) : BitVec 32 :=
  if value = 0 then 0
  else
    let b3 := value >>> 24
    let b2 := (value >>> 8) &&& 0xFF00#32
    let b1 := (value &&& 0xFF00#32) <<< 8
    let b0 := value <<< 24
    b0 ||| b1 ||| b2 ||| b3

def reverse (value : BitVec 32) : BitVec 32 :=
  if value = 0 then 0
  else
    let uvalue := ((value &&& 0xAAAAAAAA#32) >>> 1) ||| ((value &&& 0x55555555#32) <<< 1)
    let uvalue := ((uvalue &&& 0xCCCCCCCC#32) >>> 2) ||| ((uvalue &&& 0x33333333#32) <<< 2)
    let uvalue := ((uvalue &&& 0xF0F0F0F0#32) >>> 4) ||| ((uvalue &&& 0x0F0F0F0F#32) <<< 4)
    let uvalue := ((uvalue &&& 0xFF00FF00#32) >>> 8) ||| ((uvalue &&& 0x00FF00FF#32) <<< 8)
    (uvalue >>> 16) ||| (uvalue <<< 16)

def highestOneBit (value : BitVec 32) : BitVec 32 :=
  if value = 0 then 0
  else
    let uvalue := value ||| (value >>> 1)
    let uvalue := uvalue ||| (uvalue >>> 2)
    let uvalue := uvalue ||| (uvalue >>> 4)
    let uvalue := uvalue ||| (uvalue >>> 8)
    let uvalue := uvalue ||| (uvalue >>> 16)
    uvalue &&& ~~~(uvalue >>> 1)

def lowestOneBit (value : BitVec 32) : BitVec 32 :=
  if value = 0 then 0 else value &&& -value

-- The source spreads the bits of `value`, and then counts those of `uvalue`, the copy made before.
def numberOfLeadingZeros (value : BitVec 32) : BitVec 32 :=
  if value = 0 then 0 else bitCount (~~~value)

def numberOfTrailingZeros (value : BitVec 32) : BitVec 32 :=
  if value = 0 then 0 else bitCount ((value &&& -value) - 1)

def rotateLeft (value distance : BitVec 32) : BitVec 32 :=
  let j := distance &&& 0x1F#32
  (value <<< j.toNat) ||| (value >>> (-j &&& 0x1F#32).toNat)

def rotateRight (value distance : BitVec 32) : BitVec 32 :=
  let j := distance &&& 0x1F#32
  (value >>> j.toNat) ||| (value <<< (-j &&& 0x1F#32).toNat)

def signum (value : BitVec 32) : BitVec 32 :=
  if value = 0 then 0 else if value.toInt < 0 then -1 else 1

end Integer

namespace Long

def bitCount (value : BitVec 64) : BitVec 32 :=
  if value = 0 then 0
  else
    let uvalue := (value &&& 0x5555555555555555#64) + ((value >>> 1) &&& 0x5555555555555555#64)
    let uvalue := (uvalue &&& 0x3333333333333333#64) + ((uvalue >>> 2) &&& 0x3333333333333333#64)
    let i := ((uvalue >>> 32) + uvalue).setWidth 32
    let i := (i &&& 0x0F0F0F0F#32) + ((i >>> 4) &&& 0x0F0F0F0F#32)
    let i := (i &&& 0x00FF00FF#32) + ((i >>> 8) &&& 0x00FF00FF#32)
    (i &&& 0x0000FFFF#32) + ((i >>> 16) &&& 0x0000FFFF#32)

def highestOneBit (value : BitVec 64) : BitVec 64 :=
  if value = 0 then 0
  else
    let uvalue := value ||| (value >>> 1)
    let uvalue := uvalue ||| (uvalue >>> 2)
    let uvalue := uvalue ||| (uvalue >>> 4)
    let uvalue := uvalue ||| (uvalue >>> 8)
    let uvalue := uvalue ||| (uvalue >>> 16)
    let uvalue := uvalue ||| (uvalue >>> 32)
    uvalue &&& ~~~(uvalue >>> 1)

def lowestOneBit (value : BitVec 64) : BitVec 64 :=
  if value = 0 then 0 else value &&& (-1 * value)

def numberOfLeadingZeros (value : BitVec 64) : BitVec 32 :=
  if value = 0 then 0 else bitCount (~~~value)

def numberOfTrailingZeros (value : BitVec 64) : BitVec 32 :=
  if value = 0 then 0 else bitCount ((value &&& (-1 * value)) - 1)

def reverseBytes (value : BitVec 64) : BitVec 64 :=
  if value = 0 then 0
  else
    let b7 := value >>> 56
    let b6 := (value >>> 40) &&& 0xFF00#64
    let b5 := (value >>> 24) &&& 0xFF0000#64
    let b4 := (value >>> 8) &&& 0xFF000000#64
    let b3 := (value &&& 0xFF000000#64) <<< 8
    let b2 := (value &&& 0xFF0000#64) <<< 24
    let b1 := (value &&& 0xFF00#64) <<< 40
    let b0 := value <<< 56
    b0 ||| b1 ||| b2 ||| b3 ||| b4 ||| b5 ||| b6 ||| b7

def reverse (value : BitVec 64) : BitVec 64 :=
  if value = 0 then 0
  else
    let uvalue := ((value &&& 0x5555555555555555#64) <<< 1) ||| ((value >>> 1) &&& 0x5555555555555555#64)
    let uvalue := ((uvalue &&& 0x3333333333333333#64) <<< 2) ||| ((uvalue >>> 2) &&& 0x3333333333333333#64)
    let uvalue := ((uvalue &&& 0x0F0F0F0F0F0F0F0F#64) <<< 4) ||| ((uvalue >>> 4) &&& 0x0F0F0F0F0F0F0F0F#64)
    reverseBytes uvalue

-- The distance is cut to five bits, as in `Integer`.
def rotateLeft (value : BitVec 64) (distance : BitVec 32) : BitVec 64 :=
  let j := distance &&& 0x1F#32
  (value <<< j.toNat) ||| (value >>> (-j &&& 0x1F#32).toNat)

def rotateRight (value : BitVec 64) (distance : BitVec 32) : BitVec 64 :=
  let j := distance &&& 0x1F#32
  (value >>> j.toNat) ||| (value <<< (-j &&& 0x1F#32).toNat)

def signum (value : BitVec 64) : BitVec 32 :=
  if value = 0 then 0 else if value.toInt < 0 then -1 else 1

end Long

/-! ### The counts -/

variable {w : Nat}
variable {value : BitVec w} {zeros : BitVec 32}

theorem Integer.toNat_bitCount (value : BitVec 32) : (Integer.bitCount value).toNat = value.cpop.toNat := by
  rw [toNat_cpop_eq_count]
  by_cases hzero : value = 0
  · subst hzero
    decide
  · have hlow : ∀ n : Nat, n &&& 63 = n % 64 := fun n => Nat.and_two_pow_sub_one_eq_mod n 6
    have hmask : (0x0000003F#32).toNat = 63 := rfl
    rw [Integer.bitCount, if_neg hzero, BitVec.toNat_and, hmask, hlow, BitVec.add_comm (_ &&& 0x33333333#32),
      BitVec.add_comm ((_ : BitVec 32) >>> 4), toNat_parallel (le_refl _) value.isLt (by decide) (by decide) (by decide) rfl rfl rfl rfl]

open Popcount in
theorem Long.toNat_bitCount (value : BitVec 64) : (Long.bitCount value).toNat = value.cpop.toNat := by
  rw [toNat_cpop_eq_count, count_eq_total]
  by_cases hzero : value = 0
  · subst hzero
    decide
  · obtain ⟨x1, h1⟩ : ∃ y, (value &&& 0x5555555555555555#64) + ((value >>> 1) &&& 0x5555555555555555#64) = y := ⟨_, rfl⟩
    obtain ⟨x2, h2⟩ : ∃ y, (x1 &&& 0x3333333333333333#64) + ((x1 >>> 2) &&& 0x3333333333333333#64) = y := ⟨_, rfl⟩
    obtain ⟨i, hi⟩ : ∃ y, ((x2 >>> 32) + x2).setWidth 32 = y := ⟨_, rfl⟩
    have hpairs : x1.toNat = merged 1 32 value.toNat := by
      rw [← h1, toNat_merged 1 32 (by decide) (by decide)]
    have hnibbles : x2.toNat = merged 2 16 x1.toNat := by
      rw [← h2, toNat_merged 2 16 (by decide) (by decide)]
    -- No field of four bits overflows when the two halves are added.
    have hhalves : merged 2 16 x1.toNat = merged 2 8 x1.toNat + 2 ^ 32 * merged 2 8 (x1.toNat / 2 ^ 32) := by
      have hmask : lowers 2 16 = lowers 2 8 + 2 ^ 32 * lowers 2 8 := by decide
      have hlow : lowers 2 8 < 2 ^ 32 := by decide
      rw [merged, hmask, and_fields hlow, and_fields hlow, Nat.div_div_eq_div_mul, Nat.mul_comm (2 ^ 2),
        ← Nat.div_div_eq_div_mul, merged, merged]
      ring
    have hbound : ∀ y, merged 2 8 y ≤ 0x66666666 := by
      intro y
      have hfst : y &&& lowers 2 8 ≤ 0x33333333 := Nat.and_le_right
      have hsnd : y / 2 ^ 2 &&& lowers 2 8 ≤ 0x33333333 := Nat.and_le_right
      rw [merged]
      omega
    have hsum : i.toNat = merged 2 8 (x1.toNat / 2 ^ 32) + merged 2 8 x1.toNat := by
      have hfst := hbound x1.toNat
      have hsnd := hbound (x1.toNat / 2 ^ 32)
      rw [← hi, BitVec.toNat_setWidth, BitVec.toNat_add, toNat_shift, hnibbles, hhalves]
      omega
    have hlast : ∀ y, merged 16 1 y = total 32 1 (merged 16 1 y) := by
      intro y
      have hfst : y &&& lowers 16 1 ≤ 0xFFFF := Nat.and_le_right
      have hsnd : y / 2 ^ 16 &&& lowers 16 1 ≤ 0xFFFF := Nat.and_le_right
      rw [total, total, Nat.mod_eq_of_lt, Nat.add_zero]
      rw [merged]
      omega
    rw [Long.bitCount, if_neg hzero]
    simp only [h1, h2, hi]
    calc
      _ = merged 16 1 (merged 8 2 (merged 4 4 i.toNat)) := by
        rw [toNat_merged 16 1 (by decide) (by decide), toNat_merged 8 2 (by decide) (by decide),
          toNat_merged 4 4 (by decide) (by decide)]
      _ = total 16 2 (merged 8 2 (merged 4 4 i.toNat)) := (hlast _).trans (total_merged 16 1 _)
      _ = total 8 4 (merged 4 4 i.toNat) := total_merged 8 2 _
      _ = total 4 8 i.toNat := total_merged 4 4 _
      _ = total 2 16 (x1.toNat / 2 ^ 32) + total 2 16 x1.toNat := by
        rw [hsum]
        exact total_merged_add (le_refl 2) 8 _ _
      _ = total 2 32 x1.toNat := by
        rw [Nat.add_comm]
        exact (total_add 2 16 16 _).symm
      _ = total 1 64 value.toNat := by
        rw [hpairs]
        exact total_merged 1 32 _

/-! ### The bits -/

theorem moves_exchange (s : Nat) (upper lower : BitVec w) :
    Moves fun u => ((u &&& upper) >>> s) ||| ((u &&& lower) <<< s) :=
  ((id.and upper).shr s).union ((id.and lower).shl s)

theorem moves_exchange' (s : Nat) (lower : BitVec w) : Moves fun u => ((u &&& lower) <<< s) ||| ((u >>> s) &&& lower) :=
  ((id.and lower).shl s).union ((id.shr s).and lower)

theorem Integer.gathers_reverse (value : BitVec 32) : Gathers (fun i => 31 - i) value (Integer.reverse value) := by
  have hmoves : Moves Integer.reverse := (((id.shr 16).union (id.shl 16)).comp
    ((moves_exchange 8 0xFF00FF00#32 0x00FF00FF#32).comp ((moves_exchange 4 0xF0F0F0F0#32 0x0F0F0F0F#32).comp
      ((moves_exchange 2 0xCCCCCCCC#32 0x33333333#32).comp (moves_exchange 1 0xAAAAAAAA#32 0x55555555#32))))).guarded
  exact hmoves.gathers (by decide) (by decide +kernel) value

theorem Integer.gathers_reverseBytes (value : BitVec 32) :
    Gathers (fun i => 8 * (3 - i / 8) + i % 8) value (Integer.reverseBytes value) := by
  have hmoves : Moves Integer.reverseBytes := ((((id.shl 24).union ((id.and 0xFF00#32).shl 8)).union
    ((id.shr 8).and 0xFF00#32)).union (id.shr 24)).guarded
  exact hmoves.gathers (by decide) (by decide +kernel) value

theorem Long.moves_reverseBytes : Moves Long.reverseBytes :=
  ((((((((id.shl 56).union ((id.and 0xFF00#64).shl 40)).union ((id.and 0xFF0000#64).shl 24)).union
    ((id.and 0xFF000000#64).shl 8)).union ((id.shr 8).and 0xFF000000#64)).union
    ((id.shr 24).and 0xFF0000#64)).union ((id.shr 40).and 0xFF00#64)).union (id.shr 56)).guarded

theorem Long.gathers_reverseBytes (value : BitVec 64) :
    Gathers (fun i => 8 * (7 - i / 8) + i % 8) value (Long.reverseBytes value) :=
  Long.moves_reverseBytes.gathers (by decide) (by decide +kernel) value

theorem Long.gathers_reverse (value : BitVec 64) : Gathers (fun i => 63 - i) value (Long.reverse value) := by
  have hmoves : Moves Long.reverse := (Long.moves_reverseBytes.comp ((moves_exchange' 4 0x0F0F0F0F0F0F0F0F#64).comp
    ((moves_exchange' 2 0x3333333333333333#64).comp (moves_exchange' 1 0x5555555555555555#64)))).guarded
  exact hmoves.gathers (by decide) (by decide +kernel) value

theorem Integer.isHighest_highestOneBit (value : BitVec 32) : IsHighest value (Integer.highestOneBit value) := by
  by_cases hzero : value = 0
  · rw [Integer.highestOneBit, if_pos hzero, hzero]
    simp [IsHighest]
  · have h2 : Smeared value 2 _ := (smeared_one value).double
    have h4 : Smeared value 4 _ := h2.double
    have h8 : Smeared value 8 _ := h4.double
    have h16 : Smeared value 16 _ := h8.double
    have h32 : Smeared value 32 _ := h16.double
    rw [Integer.highestOneBit, if_neg hzero]
    exact h32.isHighest

theorem Long.isHighest_highestOneBit (value : BitVec 64) : IsHighest value (Long.highestOneBit value) := by
  by_cases hzero : value = 0
  · rw [Long.highestOneBit, if_pos hzero, hzero]
    simp [IsHighest]
  · have h2 : Smeared value 2 _ := (smeared_one value).double
    have h4 : Smeared value 4 _ := h2.double
    have h8 : Smeared value 8 _ := h4.double
    have h16 : Smeared value 16 _ := h8.double
    have h32 : Smeared value 32 _ := h16.double
    have h64 : Smeared value 64 _ := h32.double
    rw [Long.highestOneBit, if_neg hzero]
    exact h64.isHighest

/-! ### Rotations -/

theorem toNat_five (distance : BitVec 32) : (distance &&& 0x1F#32).toNat = distance.toNat % 32 := by
  rw [BitVec.toNat_and]
  exact Nat.and_two_pow_sub_one_eq_mod distance.toNat 5

theorem toNat_neg_five (distance : BitVec 32) :
    (-(distance &&& 0x1F#32) &&& 0x1F#32).toNat = (32 - distance.toNat % 32) % 32 := by
  rw [toNat_five, BitVec.toNat_neg, toNat_five]
  omega

theorem toInt_mod (distance : BitVec 32) : distance.toInt % 64 = (distance.toNat % 64 : ℕ) := by
  rw [BitVec.toInt_eq_toNat_cond]
  split
  · omega
  · omega

/-- The bit that a rotation to the left by `distance` moves to `i`, in a word of `w` bits. -/
def fromRight (w : Nat) (distance : BitVec 32) (i : Nat) : Nat := (((i : Int) - distance.toInt) % w).toNat

/-- The bit that a rotation to the right by `distance` moves to `i`. -/
def fromLeft (w : Nat) (distance : BitVec 32) (i : Nat) : Nat := (((i : Int) + distance.toInt) % w).toNat

theorem Integer.gathers_rotateLeft (value distance : BitVec 32) :
    Gathers (fromRight 32 distance) value (Integer.rotateLeft value distance) := by
  have hmod := toInt_mod distance
  have hshift := gathers_shifts (j := distance.toNat % 32) (k := (32 - distance.toNat % 32) % 32) (by omega)
    (by omega) value
  intro i hi
  have hindex : fromRight 32 distance i = (i + (32 - distance.toNat % 32) % 32) % 32 := by
    rw [fromRight]
    omega
  rw [Integer.rotateLeft, toNat_five, toNat_neg_five, hshift i hi, hindex]

theorem Integer.gathers_rotateRight (value distance : BitVec 32) :
    Gathers (fromLeft 32 distance) value (Integer.rotateRight value distance) := by
  have hmod := toInt_mod distance
  have hshift := gathers_shifts (j := (32 - distance.toNat % 32) % 32) (k := distance.toNat % 32) (by omega)
    (by omega) value
  intro i hi
  have hindex : fromLeft 32 distance i = (i + distance.toNat % 32) % 32 := by
    rw [fromLeft]
    omega
  rw [Integer.rotateRight, toNat_five, toNat_neg_five, BitVec.or_comm, hshift i hi, hindex]

theorem inverse_of_gathers {u v r : BitVec w} {distance : BitVec 32} (hl : Gathers (fromRight w distance) v u)
    (hr : Gathers (fromLeft w distance) u r) : r = v := by
  apply hl.inverse hr
  intro i hi
  have hnonneg := Int.emod_nonneg ((i : Int) + distance.toInt) (by omega : (w : Int) ≠ 0)
  have hlt := Int.emod_lt_of_pos ((i : Int) + distance.toInt) (by omega : (0 : Int) < w)
  refine ⟨by rw [fromLeft]; omega, ?_⟩
  rw [fromRight, fromLeft, Int.toNat_of_nonneg hnonneg, Int.emod_sub_emod, add_sub_cancel_right,
    Int.emod_eq_of_lt (by omega) (by omega), Int.toNat_natCast]

section

variable {value : BitVec 64} {distance : BitVec 32}
variable {i n : Nat}

theorem Long.getLsbD_rotateLeft (hi : i < 64) : (Long.rotateLeft value distance).getLsbD i =
    (decide (distance.toNat % 32 ≤ i) && value.getLsbD (i - distance.toNat % 32) ||
      value.getLsbD ((32 - distance.toNat % 32) % 32 + i)) := by
  rw [Long.rotateLeft, toNat_five, toNat_neg_five, getLsbD_shifts _ _ _ hi]

theorem Long.getLsbD_rotateRight (hi : i < 64) : (Long.rotateRight value distance).getLsbD i =
    (decide ((32 - distance.toNat % 32) % 32 ≤ i) && value.getLsbD (i - (32 - distance.toNat % 32) % 32) ||
      value.getLsbD (distance.toNat % 32 + i)) := by
  rw [Long.rotateRight, toNat_five, toNat_neg_five, BitVec.or_comm, getLsbD_shifts _ _ _ hi]

theorem Long.getLsbD_congr (hhalves : ∀ i < 32, value.getLsbD i = value.getLsbD (i + 32)) {m : Nat} (hm : m < 64)
    (hn : n < 64) (hmn : m % 32 = n % 32) : value.getLsbD m = value.getLsbD n := by
  have hfold : ∀ i < 64, value.getLsbD i = value.getLsbD (i % 32) := by
    intro i hi
    rcases Nat.lt_or_ge i 32 with hlt | hge
    · rw [Nat.mod_eq_of_lt hlt]
    · rw [hhalves (i % 32) (by omega), show i % 32 + 32 = i by omega]
  rw [hfold m hm, hfold n hn, hmn]

theorem Long.getLsbD_shifts_of_halves (hhalves : ∀ i < 32, value.getLsbD i = value.getLsbD (i + 32)) {j k : Nat}
    (hi : i < 64) (hj : j < 32) (hk : k < 32) (hsum : (j + k) % 32 = 0) (hn : n < 64) (hindex : n % 32 = (k + i) % 32) :
    (decide (j ≤ i) && value.getLsbD (i - j) || value.getLsbD (k + i)) = value.getLsbD n := by
  by_cases hji : j ≤ i
  · rw [decide_eq_true hji, Bool.true_and, Long.getLsbD_congr hhalves (show i - j < 64 by omega) hn (by omega)]
    rcases Nat.lt_or_ge (k + i) 64 with hlt | hge
    · rw [Long.getLsbD_congr hhalves hlt hn hindex.symm, Bool.or_self]
    · rw [BitVec.getLsbD_of_ge value _ hge, Bool.or_false]
  · rw [decide_eq_false hji, Bool.false_and, Bool.false_or]
    exact Long.getLsbD_congr hhalves (by omega) hn hindex.symm

theorem Long.gathers_rotateLeft (hhalves : ∀ i < 32, value.getLsbD i = value.getLsbD (i + 32)) :
    Gathers (fromRight 64 distance) value (Long.rotateLeft value distance) := by
  intro i hi
  have hmod := toInt_mod distance
  rw [Long.getLsbD_rotateLeft hi]
  apply Long.getLsbD_shifts_of_halves hhalves hi
  all_goals try rw [fromRight]
  all_goals omega

theorem Long.gathers_rotateRight (hhalves : ∀ i < 32, value.getLsbD i = value.getLsbD (i + 32)) :
    Gathers (fromLeft 64 distance) value (Long.rotateRight value distance) := by
  intro i hi
  have hmod := toInt_mod distance
  rw [Long.getLsbD_rotateRight hi]
  apply Long.getLsbD_shifts_of_halves hhalves hi
  all_goals try rw [fromLeft]
  all_goals omega

/-- The five bits of the distance rotate a word of 64 bits rightly by a multiple of 64 alone, or when it makes no
difference which half a bit comes from. -/
theorem Long.rotations_iff : (Gathers (fromRight 64 distance) value (Long.rotateLeft value distance) ∧
    Gathers (fromLeft 64 distance) value (Long.rotateRight value distance) ∧
    Long.rotateRight (Long.rotateLeft value distance) distance = value) ↔
    distance.toInt % 64 = 0 ∨ ∀ i < 32, value.getLsbD i = value.getLsbD (i + 32) := by
  have hmod := toInt_mod distance
  constructor
  · rintro ⟨hl, hr, -⟩
    by_cases hzero : distance.toInt % 64 = 0
    · exact .inl hzero
    · refine .inr fun i hi => ?_
      by_cases hfive : distance.toNat % 32 = 0
      · have hbit := hl i (by omega)
        rw [Long.getLsbD_rotateLeft (by omega), hfive, show fromRight 64 distance i = i + 32 by rw [fromRight]; omega] at hbit
        simpa using hbit
      · -- The two bits of one place in both halves come together in both results.
        have hbitl := hl (i + distance.toNat % 32) (by omega)
        have hbitr := hr (i + (32 - distance.toNat % 32)) (by omega)
        rw [Long.getLsbD_rotateLeft (by omega), decide_eq_true (by omega), Bool.true_and, Nat.add_sub_cancel,
          show (32 - distance.toNat % 32) % 32 + (i + distance.toNat % 32) = i + 32 by omega] at hbitl
        rw [Long.getLsbD_rotateRight (by omega), decide_eq_true (by omega), Bool.true_and,
          show i + (32 - distance.toNat % 32) - (32 - distance.toNat % 32) % 32 = i by omega,
          show distance.toNat % 32 + (i + (32 - distance.toNat % 32)) = i + 32 by omega, hbitl] at hbitr
        have hcase : fromRight 64 distance (i + distance.toNat % 32) = i ∧
            fromLeft 64 distance (i + (32 - distance.toNat % 32)) = i + 32 ∨
            fromRight 64 distance (i + distance.toNat % 32) = i + 32 ∧
            fromLeft 64 distance (i + (32 - distance.toNat % 32)) = i := by
          rw [fromRight, fromLeft]
          omega
        rcases hcase with ⟨hfst, hsnd⟩ | ⟨hfst, hsnd⟩
        · rwa [hfst, hsnd] at hbitr
        · rw [hfst, hsnd] at hbitr
          exact hbitr.symm
  · rintro (hzero | hhalves)
    · have hfive : distance.toNat % 32 = 0 := by omega
      have hleft : ∀ v : BitVec 64, Long.rotateLeft v distance = v := by
        intro v
        rw [Long.rotateLeft, toNat_five, toNat_neg_five, hfive]
        simp
      have hright : ∀ v : BitVec 64, Long.rotateRight v distance = v := by
        intro v
        rw [Long.rotateRight, toNat_five, toNat_neg_five, hfive]
        simp
      refine ⟨fun i hi => ?_, fun i hi => ?_, by rw [hleft, hright]⟩
      · rw [hleft, show fromRight 64 distance i = i by rw [fromRight]; omega]
      · rw [hright, show fromLeft 64 distance i = i by rw [fromLeft]; omega]
    · have hleft : Gathers (fromRight 64 distance) value (Long.rotateLeft value distance) :=
        Long.gathers_rotateLeft hhalves
      have hrotated : ∀ i < 32, (Long.rotateLeft value distance).getLsbD i
          = (Long.rotateLeft value distance).getLsbD (i + 32) := by
        intro i hi
        rw [hleft i (by omega), hleft (i + 32) (by omega)]
        apply Long.getLsbD_congr hhalves
        all_goals simp only [fromRight]
        all_goals omega
      exact ⟨hleft, Long.gathers_rotateRight hhalves, inverse_of_gathers hleft (Long.gathers_rotateRight hrotated)⟩

end

/-! ### All of them -/

theorem leadingZeros_iff (hw : 0 < w) (hzero : value = 0 → zeros = 0)
    (hzeros : value ≠ 0 → zeros.toNat = (~~~value).cpop.toNat) :
    zeros.toNat = value.clz.toNat ↔ ∃ k, 1 ≤ k ∧ k ≤ w ∧ value.toNat = 2 ^ k - 1 := by
  by_cases hvalue : value = 0
  · have hclz := toNat_clz_zero w
    rw [hzero hvalue, hvalue]
    constructor
    · intro h
      exact absurd (h.trans hclz) hw.ne
    · rintro ⟨k, hk, _, hones⟩
      have htwo : 2 ^ 1 ≤ 2 ^ k := Nat.pow_le_pow_right (by decide) hk
      rw [BitVec.ofNat_eq_ofNat, BitVec.toNat_zero] at hones
      omega
  · rw [hzeros hvalue, BitVec.toNat_cpop_not]
    exact sub_cpop_eq_clz_iff hvalue

theorem trailingZeros_iff (hw : 0 < w) (hzero : value = 0 → zeros = 0)
    (hzeros : value ≠ 0 → zeros.toNat = ((value &&& -value) - 1#w).cpop.toNat) :
    zeros.toNat = value.ctz.toNat ↔ value ≠ 0 := by
  by_cases hvalue : value = 0
  · have hclz := toNat_clz_zero w
    have hreverse : (0#w).reverse = 0#w := BitVec.reverse_eq_zero_iff.mpr rfl
    rw [hzero hvalue, hvalue, BitVec.ctz_eq_reverse_clz]
    refine ⟨fun h => absurd (h.trans ?_) hw.ne, fun h => absurd rfl h⟩
    rw [BitVec.ofNat_eq_ofNat, hreverse, hclz]
  · rw [hzeros hvalue, cpop_lowest hvalue]
    exact ⟨fun _ => hvalue, fun _ => rfl⟩

/-- The utilities that take one word and are right for every word. -/
structure BitByBit (value : BitVec w) (bitCount : BitVec 32) (highest lowest reversed reversedBytes : BitVec w)
    (sign : BitVec 32) : Prop where
  bitCount : bitCount.toNat = value.cpop.toNat
  highestOneBit : IsHighest value highest
  lowestOneBit : IsLowest value lowest
  reverse : Gathers (fun i => w - 1 - i) value reversed
  reverseBytes : Gathers (fun i => 8 * (w / 8 - 1 - i / 8) + i % 8) value reversedBytes
  signum : sign.toInt = value.toInt.sign

theorem toInt_signum (value : BitVec w) :
    (if value = 0 then 0 else if value.toInt < 0 then -1 else 1 : BitVec 32).toInt = value.toInt.sign := by
  split
  · next hzero => simp [hzero]
  · next hzero =>
    have hne : value.toInt ≠ 0 := fun h => hzero (BitVec.eq_of_toInt_eq (by simpa using h))
    split
    · next hneg =>
      rw [Int.sign_eq_neg_one_of_neg hneg]
      decide
    · next hneg =>
      rw [Int.sign_eq_one_of_pos (by omega)]
      decide

theorem Integer.bitByBit (value : BitVec 32) : BitByBit value (Integer.bitCount value) (Integer.highestOneBit value)
    (Integer.lowestOneBit value) (Integer.reverse value) (Integer.reverseBytes value) (Integer.signum value) where
  bitCount := Integer.toNat_bitCount value
  highestOneBit := Integer.isHighest_highestOneBit value
  lowestOneBit := by
    rw [Integer.lowestOneBit, show (if value = 0 then 0 else value &&& -value) = value &&& -value by
      split <;> simp_all]
    exact isLowest_and_neg value
  reverse := Integer.gathers_reverse value
  reverseBytes := Integer.gathers_reverseBytes value
  signum := toInt_signum value

theorem Long.bitByBit (word : BitVec 64) : BitByBit word (Long.bitCount word) (Long.highestOneBit word)
    (Long.lowestOneBit word) (Long.reverse word) (Long.reverseBytes word) (Long.signum word) where
  bitCount := Long.toNat_bitCount word
  highestOneBit := Long.isHighest_highestOneBit word
  lowestOneBit := by
    rw [Long.lowestOneBit, neg_one_mul, show (if word = 0 then 0 else word &&& -word) = word &&& -word by
      split <;> simp_all]
    exact isLowest_and_neg word
  reverse := Long.gathers_reverse word
  reverseBytes := Long.gathers_reverseBytes word
  signum := toInt_signum word

/-- The utilities of both classes equal their definitions bit by bit, but for the leading zeros, the trailing zeros
of zero and the rotations of a `Long`. -/
theorem bitUtilities_iff (value distance : BitVec 32) (word : BitVec 64) :
    (BitByBit value (Integer.bitCount value) (Integer.highestOneBit value) (Integer.lowestOneBit value)
      (Integer.reverse value) (Integer.reverseBytes value) (Integer.signum value) ∧
    BitByBit word (Long.bitCount word) (Long.highestOneBit word) (Long.lowestOneBit word) (Long.reverse word)
      (Long.reverseBytes word) (Long.signum word) ∧
    Gathers (fromRight 32 distance) value (Integer.rotateLeft value distance) ∧
    Gathers (fromLeft 32 distance) value (Integer.rotateRight value distance) ∧
    Integer.rotateRight (Integer.rotateLeft value distance) distance = value) ∧
    ((Integer.numberOfLeadingZeros value).toNat = value.clz.toNat ↔ ∃ k, 1 ≤ k ∧ k ≤ 32 ∧ value.toNat = 2 ^ k - 1) ∧
    ((Long.numberOfLeadingZeros word).toNat = word.clz.toNat ↔ ∃ k, 1 ≤ k ∧ k ≤ 64 ∧ word.toNat = 2 ^ k - 1) ∧
    ((Integer.numberOfTrailingZeros value).toNat = value.ctz.toNat ↔ value ≠ 0) ∧
    ((Long.numberOfTrailingZeros word).toNat = word.ctz.toNat ↔ word ≠ 0) ∧
    ((Gathers (fromRight 64 distance) word (Long.rotateLeft word distance) ∧
      Gathers (fromLeft 64 distance) word (Long.rotateRight word distance) ∧
      Long.rotateRight (Long.rotateLeft word distance) distance = word) ↔
      distance.toInt % 64 = 0 ∨ ∀ i < 32, word.getLsbD i = word.getLsbD (i + 32)) := by
  have hleft := Integer.gathers_rotateLeft value distance
  refine ⟨⟨Integer.bitByBit value, Long.bitByBit word, hleft, Integer.gathers_rotateRight value distance,
    inverse_of_gathers hleft (Integer.gathers_rotateRight _ distance)⟩, ?_, ?_, ?_, ?_, Long.rotations_iff⟩
  · exact leadingZeros_iff (by decide) (fun h => by rw [Integer.numberOfLeadingZeros, if_pos h])
      fun h => by rw [Integer.numberOfLeadingZeros, if_neg h, Integer.toNat_bitCount]
  · exact leadingZeros_iff (by decide) (fun h => by rw [Long.numberOfLeadingZeros, if_pos h])
      fun h => by rw [Long.numberOfLeadingZeros, if_neg h, Long.toNat_bitCount]
  · exact trailingZeros_iff (by decide) (fun h => by rw [Integer.numberOfTrailingZeros, if_pos h])
      fun h => by rw [Integer.numberOfTrailingZeros, if_neg h, Integer.toNat_bitCount]; rfl
  · exact trailingZeros_iff (by decide) (fun h => by rw [Long.numberOfTrailingZeros, if_pos h])
      fun h => by rw [Long.numberOfTrailingZeros, if_neg h, Long.toNat_bitCount, neg_one_mul]; rfl

/-- Two has thirty leading zeros, and thirty-one zeros. Half a rotation of a `Long` is none. -/
theorem not_bitUtilities : (Integer.numberOfLeadingZeros 2#32).toNat = 31 ∧ (2#32).clz.toNat = 30 ∧
    (Integer.numberOfTrailingZeros 0#32).toNat = 0 ∧ (0#32).ctz.toNat = 32 ∧ Long.rotateLeft 1#64 32#32 = 1#64 ∧
    ¬Gathers (fromRight 64 32#32) 1#64 (Long.rotateLeft 1#64 32#32) := by
  have hrotated : Long.rotateLeft 1#64 32#32 = 1#64 := by decide
  refine ⟨by decide, by decide, by decide, by decide +kernel, hrotated, fun h => ?_⟩
  have hbit := h 0 (by decide)
  rw [hrotated] at hbit
  revert hbit
  decide

end ActiveMQCpp.Decaf
