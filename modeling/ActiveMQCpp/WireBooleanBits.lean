import ActiveMQCpp.WireBooleanStream

/-! The bits a `BooleanStream` holds. `Wrote s bits` says that `bits` have been written to a new stream, `Reads s
bits` that they are the next ones to be read. -/

namespace ActiveMQCpp.Wire.BooleanStream

open Codec Bytes MachineInt Decaf DataInputStream DataOutputStream List

variable {s : BooleanStream} {n : Nat} {bits : List Bool}
variable {b : Bool} {limit : Nat} {s' : BooleanStream}

/-- The most bits whose bytes are counted by a `short`. -/
def maxBits : Nat := 8 * 32767

def bitAt (data : List UInt8) (p : Nat) : Bool := (data.getD (p / 8) 0).toBitVec.getLsbD (p % 8)

theorem bitAt_append_zeros (data : List UInt8) (k p : Nat) : bitAt (data ++ List.replicate k 0) p = bitAt data p := by
  have hbyte : (data ++ List.replicate k 0).getD (p / 8) 0 = data.getD (p / 8) 0 := by
    simp only [getD_eq_getElem?_getD]
    by_cases hin : p / 8 < data.length
    · rw [List.getElem?_append_left hin]
    · rw [List.getElem?_append_right (by omega), List.getElem?_eq_none (l := data) (by omega),
        List.getElem?_replicate]
      split_ifs <;> rfl
  rw [bitAt, bitAt, hbyte]

theorem bitAt_append_left (data rest : List UInt8) (p : Nat) (h : p / 8 < data.length) :
    bitAt (data ++ rest) p = bitAt data p := by
  simp only [bitAt, getD_eq_getElem?_getD, List.getElem?_append_left h]

theorem bitAt_take (data : List UInt8) (k p : Nat) (h : p / 8 < k) : bitAt (data.take k) p = bitAt data p := by
  simp only [bitAt, getD_eq_getElem?_getD, List.getElem?_take_of_lt h]

theorem getLsbD_one_shiftLeft (k j : Nat) (hk : k < 8) (hj : j < 8) : (1#8 <<< k).getLsbD j = decide (j = k) := by
  interval_cases k <;> interval_cases j <;> rfl

theorem bitAt_orBit (data : List UInt8) (q k p : Nat) (hq : q < data.length) (hk : k < 8) :
    bitAt (orBit data q k) p = (bitAt data p || decide (p = 8 * q + k)) := by
  by_cases hp : p / 8 = q
  · subst hp
    have hbyte : (orBit data (p / 8) k).getD (p / 8) 0
        = ⟨(data.getD (p / 8) 0).toBitVec ||| (1#8 <<< k)⟩ := by
      simp [orBit, getD_eq_getElem?_getD, hq]
    have hiff : decide (p = 8 * (p / 8) + k) = decide (p % 8 = k) := by
      apply decide_eq_decide.mpr
      omega
    rw [bitAt, hbyte, BitVec.getLsbD_or, getLsbD_one_shiftLeft k _ hk (by omega), hiff, bitAt]
  · have hbyte : (orBit data q k).getD (p / 8) 0 = data.getD (p / 8) 0 := by
      simp only [orBit, getD_eq_getElem?_getD, List.getElem?_set_ne (fun h => hp h.symm)]
    rw [bitAt, hbyte, decide_eq_false (by omega), Bool.or_false, bitAt]

theorem advance_position (hn : n < maxBits) (hpos : s.arrayPos = (n / 8 : Nat)) (hbyte : s.bytePos = n % 8) :
    s.advance.arrayPos = ((n + 1) / 8 : Nat) ∧ s.advance.bytePos = (n + 1) % 8 ∧
      s.advance.data = s.data ∧ s.advance.arrayLimit = s.arrayLimit := by
  unfold maxBits at hn
  by_cases hwrap : s.bytePos + 1 ≥ 8
  · rw [advance, if_pos hwrap]
    refine ⟨?_, ?_, rfl, rfl⟩
    · show toInt16 (s.arrayPos + 1) = _
      rw [hpos, toInt16_of_range (by omega) (by omega)]
      omega
    · show 0 = _
      omega
  · rw [advance, if_neg hwrap]
    refine ⟨?_, ?_, rfl, rfl⟩
    · show s.arrayPos = _
      omega
    · show s.bytePos + 1 = _
      omega

/-- The bits written to a new stream, as long as the byte counter is in the range of a `short`. -/
structure Wrote (s : BooleanStream) (bits : List Bool) : Prop where
  limit : s.arrayLimit = ((bits.length + 7) / 8 : Nat)
  pos : s.arrayPos = (bits.length / 8 : Nat)
  byte : s.bytePos = bits.length % 8
  room : (bits.length + 7) / 8 < s.data.length
  size : s.data.length ≤ 65536
  data : ∀ p, bitAt s.data p = bits.getD p false

theorem length_new : new.data.length = 1000 := length_replicate

theorem wrote_new : Wrote new [] where
  limit := rfl
  pos := rfl
  byte := rfl
  room := by rw [length_new]; decide
  size := by rw [length_new]; decide
  data p := by
    have hzeros := bitAt_append_zeros [] 1000 p
    rw [nil_append] at hzeros
    rw [new, hzeros]
    simp [bitAt]

theorem reserve_wrote (h : Wrote s bits) (hn : bits.length < maxBits) :
    ∃ s', reserve s = .ok () s' ∧ s'.arrayLimit = ((bits.length + 1 + 7) / 8 : Nat) ∧
      s'.arrayPos = s.arrayPos ∧ s'.bytePos = s.bytePos ∧
      (bits.length + 1 + 7) / 8 < s'.data.length ∧ s'.data.length ≤ 65536 ∧
      ∀ p, bitAt s'.data p = bits.getD p false := by
  have hlimit := h.limit
  have hbyte := h.byte
  have hroom := h.room
  have hsize := h.size
  unfold maxBits at hn
  unfold reserve
  by_cases hzero : s.bytePos = 0
  · have hnext : toInt16 (s.arrayLimit + 1) = ((bits.length + 1 + 7) / 8 : Nat) := by
      rw [toInt16_of_range (by omega) (by omega)]
      omega
    have hcast : toSizeT (((bits.length + 1 + 7) / 8 : Nat) : Int) = (bits.length + 1 + 7) / 8 := by
      unfold toSizeT
      omega
    simp only [hzero, if_true, hnext, hcast]
    by_cases hfull : (bits.length + 1 + 7) / 8 ≥ s.data.length
    · have hfit : ¬ s.data.length * 2 > vectorMaxSize := by
        unfold vectorMaxSize
        omega
      simp only [hfull, if_true, resize, hfit, if_false]
      refine ⟨_, rfl, rfl, rfl, rfl, ?_, ?_, ?_⟩
      · simp only [length_append, length_take, length_replicate]
        omega
      · simp only [length_append, length_take, length_replicate]
        omega
      · intro p
        rw [take_of_length_le (by omega), bitAt_append_zeros, h.data p]
    · simp only [hfull, if_false]
      exact ⟨_, rfl, rfl, rfl, rfl, by simp only; omega, hsize, h.data⟩
  · simp only [hzero, if_false]
    refine ⟨s, rfl, ?_, rfl, rfl, ?_, hsize, h.data⟩
    · rw [hlimit]
      omega
    · omega

theorem getD_append_singleton (bits : List Bool) (b : Bool) (p : Nat) :
    (bits ++ [b]).getD p false = (bits.getD p false || (decide (p = bits.length) && b)) := by
  rcases Nat.lt_trichotomy p bits.length with hlt | heq | hgt
  · have hne : ¬ p = bits.length := by omega
    simp [getD_eq_getElem?_getD, List.getElem?_append_left hlt, hne]
  · subst heq
    simp [getD_eq_getElem?_getD]
  · have hne : ¬ p = bits.length := by omega
    have hnone : (bits ++ [b])[p]? = none := List.getElem?_eq_none (by simp; omega)
    have hnone' : bits[p]? = none := List.getElem?_eq_none (by omega)
    simp [getD_eq_getElem?_getD, hnone, hnone', hne]

theorem writeBoolean_wrote (b : Bool) (h : Wrote s bits) (hn : bits.length < maxBits) :
    ∃ s', writeBoolean b s = .ok () s' ∧ Wrote s' (bits ++ [b]) := by
  obtain ⟨s1, hreserve, hlimit, hpos, hbyte, hroom, hsize, hdata⟩ := reserve_wrote h hn
  rw [h.pos] at hpos
  rw [h.byte] at hbyte
  have hdone : ∀ data : List UInt8, data.length = s1.data.length →
      (∀ p, bitAt data p = (bits ++ [b]).getD p false) →
      Wrote ({ s1 with data := data } : BooleanStream).advance (bits ++ [b]) := by
    intro data hlen hbits
    obtain ⟨hp, hb, hd, hl⟩ := advance_position (s := { s1 with data := data }) hn hpos hbyte
    refine ⟨?_, ?_, ?_, ?_, ?_, ?_⟩
    · rw [hl, length_append]
      exact hlimit
    · rw [hp, length_append, length_singleton]
    · rw [hb, length_append, length_singleton]
    · rw [hd, length_append, hlen]
      exact hroom
    · rw [hd, hlen]
      exact hsize
    · intro p
      rw [hd, hbits p]
  cases b with
  | false =>
    refine ⟨s1.advance, ?_, hdone s1.data rfl ?_⟩
    · rw [writeBoolean, mapError_eq_ok, bind_ok hreserve]
      rfl
    · intro p
      rw [hdata p, getD_append_singleton, Bool.and_false, Bool.or_false]
  | true =>
    have hq : s1.arrayPos.toNat = bits.length / 8 := by omega
    have hset : setBit s1
        = .ok () { s1 with data := orBit s1.data s1.arrayPos.toNat s1.bytePos } := by
      rw [setBit, if_neg (by omega)]
    refine ⟨_, ?_, hdone (orBit s1.data s1.arrayPos.toNat s1.bytePos) ?_ ?_⟩
    · rw [writeBoolean, mapError_eq_ok, bind_ok hreserve, if_pos rfl, bind_ok hset]
      rfl
    · rw [orBit, length_set]
    · intro p
      rw [bitAt_orBit _ _ _ _ (by omega) (by omega), hdata p, getD_append_singleton, hq, hbyte,
        Nat.div_add_mod, Bool.and_true]

/-- The bits that the next calls of `readBoolean` return. -/
structure Reads (s : BooleanStream) (bits : List Bool) : Prop where
  start : ∃ n, s.arrayPos = (n / 8 : Nat) ∧ s.bytePos = n % 8 ∧ n + bits.length ≤ maxBits ∧
    n + bits.length ≤ 8 * s.data.length ∧ ∀ i, i < bits.length → bitAt s.data (n + i) = bits.getD i false

theorem getLsbD_eq_shift_and (b : BitVec 8) (k : Nat) : ((b >>> k) &&& 1#8 != 0#8) = b.getLsbD k := by
  have hbit : (b >>> k).getLsbD 0 = b.getLsbD k := by simp
  rw [BitVec.and_one_eq_setWidth_ofBool_getLsbD, hbit]
  cases b.getLsbD k <;> rfl

theorem readBoolean_reads (h : Reads s (b :: bits)) : ∃ s', readBoolean s = .ok b s' ∧ Reads s' bits := by
  obtain ⟨n, hpos, hbyte, hmax, hroom, hbits⟩ := h.start
  rw [length_cons] at hmax hroom
  have hn : n < maxBits := by omega
  obtain ⟨hp, hb, hd, -⟩ := advance_position hn hpos hbyte
  have hq : s.arrayPos.toNat = n / 8 := by omega
  refine ⟨s.advance, ?_, ⟨n + 1, hp, hb, by omega, by rw [hd]; omega, ?_⟩⟩
  · have hfirst := hbits 0 (by simp)
    have hget : s.data[n / 8]! = s.data.getD (n / 8) 0 := by
      rw [List.getElem!_eq_getElem?_getD, getD_eq_getElem?_getD]
      rfl
    rw [Nat.add_zero, bitAt] at hfirst
    rw [readBoolean, mapError_eq_ok, readBit, if_neg (by omega)]
    simp only [hq, hbyte, getLsbD_eq_shift_and, hget, hfirst]
    rfl
  · intro i hi
    rw [hd, show n + 1 + i = n + (i + 1) by omega, hbits (i + 1) (by simpa using hi)]
    rfl

theorem Wrote.reads_clear (h : Wrote s bits) (hn : bits.length ≤ maxBits) : Reads s.clear bits := by
  have hroom := h.room
  refine ⟨0, rfl, rfl, by omega, ?_, ?_⟩
  · show 0 + bits.length ≤ 8 * s.data.length
    omega
  · intro i _
    rw [Nat.zero_add]
    exact h.data i

/-! ### The serialized form -/

def sizeBytes (limit : Nat) : List UInt8 :=
  if limit < 64 then [UInt8.ofNat limit]
  else if limit < 256 then [0xC0, UInt8.ofNat limit]
  else 0x80 :: bytesBE (BitVec.ofNat 16 limit) 2

def marshalled (s : BooleanStream) : List UInt8 :=
  sizeBytes s.arrayLimit.toNat ++ s.data.take s.arrayLimit.toNat

theorem emits_marshalSize (h : limit ≤ 32767) : Emits (marshalSize limit) () (sizeBytes limit) := by
  have hmod : ((limit : Int) % 256).toNat = limit % 256 := by omega
  unfold marshalSize sizeBytes
  by_cases hone : limit < 64
  · rw [if_pos (by omega), if_pos hone, hmod, Nat.mod_eq_of_lt (by omega)]
    exact emits_put _
  · rw [if_neg (by omega), if_neg hone]
    by_cases htwo : limit < 256
    · rw [if_pos (by omega), if_pos htwo, hmod, Nat.mod_eq_of_lt htwo]
      exact (emits_put [0xC0]).bind (emits_put _)
    · rw [if_neg (by omega), if_neg htwo, BitVec.ofInt_natCast]
      exact (emits_put [0x80]).bind (emits_writeShort _)

theorem parses_unmarshalSize (h : limit ≤ 32767) : Parses unmarshalSize (sizeBytes limit) limit := by
  unfold sizeBytes
  by_cases hone : limit < 64
  · have hval : (UInt8.ofNat limit).toNat = limit := UInt8.toNat_ofNat_of_lt' (by show limit < 256; omega)
    have hc0 : UInt8.ofNat limit ≠ 0xC0 := fun h => by
      rw [h] at hval
      exact absurd hval (by show ¬ 192 = limit; omega)
    have h80 : UInt8.ofNat limit ≠ 0x80 := fun h => by
      rw [h] at hval
      exact absurd hval (by show ¬ 128 = limit; omega)
    rw [if_pos hone]
    refine (parses_readByte (UInt8.ofNat limit)).bind_nil ?_
    rw [if_neg hc0, if_neg h80, hval]
    exact Parses.pure _
  · rw [if_neg hone]
    by_cases htwo : limit < 256
    · have hval : (UInt8.ofNat limit).toNat = limit := UInt8.toNat_ofNat_of_lt' htwo
      rw [if_pos htwo]
      refine (parses_readByte 0xC0).bind ?_
      refine (parses_readByte (UInt8.ofNat limit)).bind_nil ?_
      rw [hval]
      exact Parses.pure _
    · have hval : (BitVec.ofNat 16 limit).toInt = limit := by
        have hnat : (BitVec.ofNat 16 limit).toNat = limit := by
          rw [BitVec.toNat_ofNat, Nat.mod_eq_of_lt (by omega)]
        rw [BitVec.toInt_eq_toNat_of_lt (by omega), hnat]
      rw [if_neg htwo]
      refine (parses_readByte 0x80).bind ?_
      refine (parses_readShort (BitVec.ofNat 16 limit)).bind_nil ?_
      rw [hval]
      exact Parses.pure _

/-- A stream whose counters are in range is marshalled and can be read from its start. -/
theorem marshal_wrote (h : Wrote s bits) (hn : bits.length ≤ maxBits) (out : List UInt8) :
    marshal (s, out) = .ok () (s.clear, out ++ marshalled s) := by
  unfold maxBits at hn
  have hlimit := h.limit
  have hroom := h.room
  have hsize := h.size
  obtain ⟨limit, hdef⟩ : ∃ limit : Nat, s.arrayLimit = limit := ⟨_, hlimit⟩
  have hnat : s.arrayLimit.toNat = limit := by omega
  have hfield : marshalSize s.arrayLimit out = .ok () (out ++ sizeBytes limit) := by
    rw [hdef]
    exact emits_marshalSize (by omega) out
  have hwrite : ∀ out, write s.data (toInt32 s.data.length) 0 s.arrayLimit out
      = .ok () (out ++ s.data.take limit) := by
    intro out
    rw [toInt32_of_range (by omega) (by omega), write]
    by_cases hzero : s.arrayLimit = 0
    · have : limit = 0 := by omega
      subst this
      simp [hzero]
    · rw [if_neg hzero, if_neg (by omega), if_neg (by omega), if_neg (by omega), if_neg (by omega), hnat]
      exact emits_put _ out
  rw [marshal, mapError_eq_ok, bind_ok (onFst_ok out (get_run s)),
    bind_ok (onSnd_ok s hfield), bind_ok (onSnd_ok s (hwrite _)), marshalled, hnat, ← append_assoc]
  exact onFst_ok _ (modify_run clear s)

/-- A marshalled stream is unmarshalled into one that reads the same bits. -/
theorem unmarshal_marshalled (h : Wrote s bits) (hn : bits.length ≤ maxBits) (t : BooleanStream) (rest : List UInt8) :
    ∃ s', unmarshal (t, marshalled s ++ rest) = .ok () (s', rest) ∧ Reads s' bits := by
  have hle := hn
  unfold maxBits at hle
  have hlimit := h.limit
  have hroom := h.room
  obtain ⟨limit, hdef⟩ : ∃ limit : Nat, s.arrayLimit = limit := ⟨_, hlimit⟩
  have hnat : s.arrayLimit.toNat = limit := by omega
  have hlen : (s.data.take limit).length = limit := by
    rw [length_take]
    omega
  have hcast : toSizeT (limit : Int) = limit := by
    unfold toSizeT
    omega
  have hfit : ¬ limit > vectorMaxSize := by
    unfold vectorMaxSize
    omega
  have hsmall : limit ≤ 32767 := by omega
  have hfield := parses_unmarshalSize hsmall (s.data.take limit ++ rest)
  have hread : readFully (limit : Int) (s.data.take limit ++ rest)
      = .ok (s.data.take limit) rest :=
    parses_readFully (by rw [hlen]) rest
  refine ⟨⟨s.data.take limit ++ (t.data.take limit ++ List.replicate (limit - t.data.length) 0).drop
    limit, limit, 0, 0⟩, ?_, ?_⟩
  · rw [unmarshal, mapError_eq_ok, marshalled, hnat, append_assoc, bind_ok (onSnd_ok t hfield),
      bind_ok (onFst_ok _ (modify_run _ t)), bind_ok (onFst_ok _ (get_run _))]
    simp only [resize, hcast, hfit, if_false]
    rw [bind_ok (onFst_ok _ (modify_run _ _)), bind_ok (onSnd_ok _ hread),
      bind_ok (onFst_ok _ (modify_run _ _)), hlen]
    exact onFst_ok _ (modify_run clear _)
  · refine ⟨0, rfl, rfl, by omega, ?_, ?_⟩
    · simp only [length_append, hlen]
      omega
    · intro i hi
      rw [Nat.zero_add]
      simp only
      rw [bitAt_append_left _ _ _ (by omega), bitAt_take _ _ _ (by omega), h.data i]

/-! ### Beyond the range of the counters -/

/-- The counters of a stream after `n` bits, in or out of range: once the byte counter has become
negative the vector is doubled at every further byte. -/
structure Counted (s : BooleanStream) (n : Nat) : Prop where
  limit : s.arrayLimit = toInt16 ((n + 7) / 8 : Nat)
  byte : s.bytePos = n % 8
  grown : 1000 * 2 ^ ((n + 7) / 8 - 32767) ≤ s.data.length
  fits : s.data.length ≤ vectorMaxSize

theorem counted_new : Counted new 0 where
  limit := rfl
  byte := rfl
  grown := by rw [length_new]; decide
  fits := by rw [length_new]; decide

/-- The doubling keeps the counter far from wrapping around a second time. -/
theorem Counted.limit_lt (h : Counted s n) : (n + 7) / 8 < 32767 + 54 := by
  by_contra hge
  have hpow : 2 ^ 54 ≤ 2 ^ ((n + 7) / 8 - 32767) := Nat.pow_le_pow_right (by decide) (by omega)
  have hgrown := h.grown
  have hfits := h.fits
  unfold vectorMaxSize at hfits
  omega

theorem reserve_counted (h : Counted s n) (hrun : reserve s = .ok () s') :
    s'.bytePos = n % 8 ∧ s'.arrayLimit = toInt16 ((n + 1 + 7) / 8 : Nat) ∧
      1000 * 2 ^ ((n + 1 + 7) / 8 - 32767) ≤ s'.data.length ∧ s'.data.length ≤ vectorMaxSize := by
  have hlimit := h.limit
  have hbyte := h.byte
  have hgrown := h.grown
  have hfits := h.fits
  have hlt := h.limit_lt
  unfold reserve at hrun
  by_cases hzero : s.bytePos = 0
  · have hnext : toInt16 (s.arrayLimit + 1) = toInt16 ((n + 1 + 7) / 8 : Nat) := by
      rw [hlimit, toInt16_add, show (n + 1 + 7) / 8 = (n + 7) / 8 + 1 by omega]
      rfl
    simp only [hzero, if_true, hnext] at hrun
    by_cases hfull : toSizeT (toInt16 ((n + 1 + 7) / 8 : Nat)) ≥ s.data.length
    · simp only [hfull, if_true, resize] at hrun
      by_cases hbig : s.data.length * 2 > vectorMaxSize
      · simp [hbig] at hrun
      · simp only [hbig, if_false] at hrun
        cases hrun
        have hlen : (s.data.take (s.data.length * 2) ++
            List.replicate (s.data.length * 2 - s.data.length) 0).length = s.data.length * 2 := by
          simp only [length_append, length_take, length_replicate]
          omega
        refine ⟨by simp only; omega, rfl, ?_, by rw [hlen]; omega⟩
        rw [hlen]
        have hpow : 2 ^ ((n + 1 + 7) / 8 - 32767) ≤ 2 ^ ((n + 7) / 8 - 32767) * 2 := by
          rw [← Nat.pow_succ]
          exact Nat.pow_le_pow_right (by decide) (by omega)
        calc
          _ ≤ 1000 * (2 ^ ((n + 7) / 8 - 32767) * 2) := Nat.mul_le_mul_left _ hpow
          _ = 1000 * 2 ^ ((n + 7) / 8 - 32767) * 2 := (Nat.mul_assoc _ _ _).symm
          _ ≤ _ := Nat.mul_le_mul_right _ hgrown
    · simp only [hfull, if_false] at hrun
      cases hrun
      have hsmall : (n + 1 + 7) / 8 ≤ 32767 := by
        by_contra hover
        apply hfull
        rw [toInt16_of_overflow (by omega) (by omega)]
        unfold vectorMaxSize at hfits
        unfold toSizeT
        omega
      refine ⟨by simp only; omega, rfl, ?_, hfits⟩
      rw [show (n + 1 + 7) / 8 - 32767 = (n + 7) / 8 - 32767 by omega]
      exact hgrown
  · simp only [hzero, if_false] at hrun
    cases hrun
    rw [show (n + 1 + 7) / 8 = (n + 7) / 8 by omega]
    exact ⟨hbyte, hlimit, hgrown, hfits⟩

theorem advance_counters (s : BooleanStream) (h : s.bytePos < 8) :
    s.advance.bytePos = (s.bytePos + 1) % 8 ∧ s.advance.data = s.data ∧
      s.advance.arrayLimit = s.arrayLimit := by
  unfold advance
  split_ifs with hwrap
  · exact ⟨by simp only; omega, rfl, rfl⟩
  · exact ⟨by simp only; omega, rfl, rfl⟩

theorem writeBoolean_counted (h : Counted s n) (hrun : writeBoolean b s = .ok () s') : Counted s' (n + 1) := by
  rw [writeBoolean, mapError_eq_ok, bind_eq_ok] at hrun
  obtain ⟨⟨⟩, s1, hreserve, hrun⟩ := hrun
  obtain ⟨hbyte, hlimit, hgrown, hfits⟩ := reserve_counted h hreserve
  have hdone : ∀ t : BooleanStream, t.bytePos = s1.bytePos → t.arrayLimit = s1.arrayLimit →
      t.data.length = s1.data.length → Counted t.advance (n + 1) := by
    intro t hb hl hd
    obtain ⟨hb', hd', hl'⟩ := advance_counters t (by omega)
    refine ⟨?_, ?_, ?_, ?_⟩
    · rw [hl', hl, hlimit]
    · rw [hb', hb, hbyte]
      omega
    · rw [hd', hd]
      exact hgrown
    · rw [hd', hd]
      exact hfits
  cases b with
  | false =>
    cases hrun
    exact hdone s1 rfl rfl rfl
  | true =>
    rw [if_pos rfl, bind_eq_ok] at hrun
    obtain ⟨⟨⟩, s2, hset, hrun⟩ := hrun
    cases hrun
    unfold setBit at hset
    split_ifs at hset
    cases hset
    exact hdone _ rfl rfl (by simp only [orBit, length_set])

/-- A stream of more than `maxBits` bits is not marshalled. -/
theorem marshal_counted_error (h : Counted s n) (hn : maxBits < n)
    (out : List UInt8) : ∀ p, marshal (s, out) ≠ .ok () p := by
  intro p hrun
  have hlimit := h.limit
  have hlt := h.limit_lt
  unfold maxBits at hn
  have hneg : s.arrayLimit < 0 := by
    rw [hlimit, toInt16_of_overflow (by omega) (by omega)]
    omega
  rw [marshal, mapError_eq_ok, bind_ok (onFst_ok out (get_run s)), bind_eq_ok] at hrun
  obtain ⟨⟨⟩, q, -, hrun⟩ := hrun
  rw [bind_eq_ok] at hrun
  obtain ⟨⟨⟩, q', hwrite, -⟩ := hrun
  obtain ⟨hwrite, -⟩ := onSnd_eq_ok.mp hwrite
  rw [write, if_neg (by omega)] at hwrite
  split_ifs at hwrite with h1 h2 h3 h4
  · cases hwrite
  · cases hwrite
  · cases hwrite
  · omega
  · omega

end ActiveMQCpp.Wire.BooleanStream
