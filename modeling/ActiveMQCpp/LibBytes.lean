import Mathlib.Data.List.Basic
import Mathlib.Data.List.Induction
import Mathlib.Tactic.IntervalCases

/-! Big-endian byte strings of machine words. A word is cut into its bytes with the most significant
byte first, and put together again by shifting the accumulated word one byte to the left. -/

namespace ActiveMQCpp.Bytes

variable {w : Nat}

/-- What holds of all bytes of a string is decided on the string, not on all bytes there are. -/
instance (priority := high) decidableForallMem (bytes : List UInt8) (p : UInt8 → Prop) [DecidablePred p] :
    Decidable (∀ c ∈ bytes, p c) :=
  List.decidableBAll p bytes

instance (priority := high) decidableForallMemOption (byte : Option UInt8) (p : UInt8 → Prop)
    [DecidablePred p] : Decidable (∀ c ∈ byte, p c) :=
  decidable_of_iff (∀ c ∈ byte.toList, p c) (forall_congr' fun c => by rw [Option.mem_toList, Option.mem_def])

/-- Byte `i` of a word, counted from the least significant one. -/
def byteAt {w : Nat} (v : BitVec w) (i : Nat) : UInt8 := ⟨(v >>> (8 * i)).setWidth 8⟩

/-- The `n` low bytes of a word, the most significant byte first. -/
def bytesBE {w : Nat} (v : BitVec w) : Nat → List UInt8
  | 0 => []
  | n + 1 => byteAt v n :: bytesBE v n

/-- Shift one more byte into a word. -/
def pushByte {w : Nat} (acc : BitVec w) (b : UInt8) : BitVec w :=
  (acc <<< 8) ||| b.toBitVec.setWidth w

/-- The word a big-endian byte string stands for. -/
def ofBytesBE (w : Nat) (bs : List UInt8) : BitVec w := bs.foldl pushByte 0

@[simp] theorem length_bytesBE (v : BitVec w) (n : Nat) : (bytesBE v n).length = n := by
  induction n with
  | zero => rfl
  | succ n ih => simp [bytesBE, ih]

theorem toNat_byteAt (v : BitVec w) (i : Nat) : (byteAt v i).toNat = v.toNat / 2 ^ (8 * i) % 256 := by
  show ((v >>> (8 * i)).setWidth 8).toNat = _
  rw [BitVec.toNat_setWidth, BitVec.toNat_ushiftRight, Nat.shiftRight_eq_div_pow]

theorem getLsbD_byteAt (v : BitVec w) (i j : Nat) :
    (byteAt v i).toBitVec.getLsbD j = (decide (j < 8) && v.getLsbD (8 * i + j)) := by
  simp [byteAt, BitVec.getLsbD_setWidth, BitVec.getLsbD_ushiftRight]

theorem getLsbD_pushByte (acc : BitVec w) (b : UInt8) (j : Nat) : (pushByte acc b).getLsbD j
      = (decide (j < w) && if j < 8 then b.toBitVec.getLsbD j else acc.getLsbD (j - 8)) := by
  simp only [pushByte, BitVec.getLsbD_or, BitVec.getLsbD_shiftLeft, BitVec.getLsbD_setWidth]
  by_cases hw : j < w
  · by_cases h8 : j < 8
    · simp [hw, h8]
    · have hb : b.toBitVec.getLsbD j = false := BitVec.getLsbD_of_ge _ _ (by omega)
      simp [hw, h8, hb]
  · simp [hw]

/-- Bits of a word after `bytesBE` has been shifted in: below the pushed bytes they are the bits of
the cut word, above them those of the accumulator. -/
theorem getLsbD_foldl_bytesBE (v acc : BitVec w) (n j : Nat) (hj : j < w) :
    ((bytesBE v n).foldl pushByte acc).getLsbD j
      = if j < 8 * n then v.getLsbD j else acc.getLsbD (j - 8 * n) := by
  induction n generalizing acc with
  | zero => simp [bytesBE]
  | succ n ih =>
    rw [bytesBE, List.foldl_cons, ih]
    by_cases hlow : j < 8 * n
    · have hmid : j < 8 * (n + 1) := by omega
      simp only [hlow, hmid, if_true]
    · rw [if_neg hlow, getLsbD_pushByte, getLsbD_byteAt]
      by_cases hmid : j < 8 * (n + 1)
      · have hin : j - 8 * n < 8 := by omega
        have hidx : 8 * n + (j - 8 * n) = j := by omega
        have hwd : j - 8 * n < w := by omega
        simp [hmid, hin, hidx, hwd]
      · have hin : ¬ j - 8 * n < 8 := by omega
        have hidx : j - 8 * n - 8 = j - 8 * (n + 1) := by omega
        have hwd : j - 8 * n < w := by omega
        simp [hmid, hin, hidx, hwd]

theorem ofBytesBE_bytesBE {n : Nat} (v : BitVec w) (hw : w ≤ 8 * n) : ofBytesBE w (bytesBE v n) = v := by
  apply BitVec.eq_of_getLsbD_eq
  intro j hj
  rw [ofBytesBE, getLsbD_foldl_bytesBE v 0 n j hj, if_pos (by omega)]

theorem byteAt_pushByte_zero (acc : BitVec w) (b : UInt8) (hw : 8 ≤ w) : byteAt (pushByte acc b) 0 = b := by
  apply UInt8.toBitVec_inj.mp
  apply BitVec.eq_of_getLsbD_eq
  intro j hj
  have hjw : j < w := by omega
  have hlow : 8 * 0 + j < 8 := by omega
  rw [getLsbD_byteAt, getLsbD_pushByte, if_pos hlow, Nat.mul_zero, Nat.zero_add]
  simp only [hj, hjw, decide_true, Bool.true_and]

theorem byteAt_pushByte_succ (acc : BitVec w) (b : UInt8) (i : Nat) (hw : 8 * (i + 2) ≤ w) :
    byteAt (pushByte acc b) (i + 1) = byteAt acc i := by
  apply UInt8.toBitVec_inj.mp
  apply BitVec.eq_of_getLsbD_eq
  intro j hj
  have hjw : 8 * (i + 1) + j < w := by omega
  have hhigh : ¬ 8 * (i + 1) + j < 8 := by omega
  have hidx : 8 * (i + 1) + j - 8 = 8 * i + j := by omega
  rw [getLsbD_byteAt, getLsbD_byteAt, getLsbD_pushByte, if_neg hhigh, hidx]
  simp [hjw]

theorem bytesBE_pushByte (acc : BitVec w) (b : UInt8) (n : Nat) (hw : 8 * (n + 1) ≤ w) :
    bytesBE (pushByte acc b) (n + 1) = bytesBE acc n ++ [b] := by
  induction n with
  | zero => rw [bytesBE, bytesBE, bytesBE, byteAt_pushByte_zero acc b (by omega), List.nil_append]
  | succ n ih => rw [bytesBE, ih (by omega), byteAt_pushByte_succ acc b n hw, bytesBE, List.cons_append]

/-- Bytes are the bytes of the word they stand for. -/
theorem bytesBE_ofBytesBE (bs : List UInt8) (hw : 8 * bs.length ≤ w) : bytesBE (ofBytesBE w bs) bs.length = bs := by
  induction bs using List.reverseRecOn with
  | nil => rfl
  | append_singleton bs b ih =>
    rw [List.length_append, List.length_singleton] at hw ⊢
    have hpush : ofBytesBE w (bs ++ [b]) = pushByte (ofBytesBE w bs) b := by
      unfold ofBytesBE
      rw [List.foldl_append]
      rfl
    rw [hpush, bytesBE_pushByte _ _ _ hw, ih (by omega)]

/-- Masking one byte of a word before shifting it down selects that byte. -/
theorem masked_byte (v : BitVec w) (i k : Nat) (mask : BitVec w) (hk : k = 8 * i)
    (hmask : mask = BitVec.ofNat w 0xFF <<< (8 * i)) :
    (⟨((v &&& mask) >>> k).setWidth 8⟩ : UInt8) = byteAt v i := by
  subst hk hmask
  apply UInt8.toBitVec_inj.mp
  apply BitVec.eq_of_getLsbD_eq
  intro j hj
  rw [getLsbD_byteAt]
  simp only [BitVec.getLsbD_setWidth, BitVec.getLsbD_ushiftRight, BitVec.getLsbD_and,
    BitVec.getLsbD_shiftLeft, BitVec.getLsbD_ofNat]
  have hbit : Nat.testBit 255 j = true := by interval_cases j <;> decide
  by_cases hw : 8 * i + j < w
  · have hjw : j < w := by omega
    simp [hw, hj, hjw, hbit]
  · have hv : v.getLsbD (8 * i + j) = false := BitVec.getLsbD_of_ge _ _ (by omega)
    simp [hv]

end ActiveMQCpp.Bytes
