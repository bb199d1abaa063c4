import ActiveMQCpp.DecafDataStream

/-! What the writers of `DataOutputStream` emit and the readers of `DataInputStream` parse. `readUTF` recovers the
string that `writeUTF` encoded whenever `writeUTF` returns. -/

namespace ActiveMQCpp.Decaf

open Codec Bytes MachineInt List

namespace DataOutputStream

theorem emits_put (bytes : List UInt8) : Emits (put bytes) () bytes := fun _ => rfl

theorem emits_write_all {buffer : ByteString} {n : Int} (hn : n = buffer.length) :
    Emits (write buffer n 0 n) () buffer := by
  subst hn
  intro out
  rw [write]
  by_cases hnil : (buffer.length : Int) = 0
  · have hbuffer : buffer = [] := length_eq_zero_iff.mp (by omega)
    subst hbuffer
    simp
  · rw [if_neg hnil, if_neg (by omega), if_neg (by omega), if_neg (by omega), if_neg (by omega)]
    simpa using emits_put buffer out

theorem emits_writeBoolean (value : Bool) : Emits (writeBoolean value) () [if value then 1 else 0] :=
  emits_put _

theorem emits_writeByte (value : UInt8) : Emits (writeByte value) () [value] := emits_put _

theorem emits_writeChar (value : UInt8) : Emits (writeChar value) () [value] := emits_put _

theorem emits_writeShort (v : BitVec 16) : Emits (writeShort v) () (bytesBE v 2) := by
  simp only [writeShort, bytesBE]
  rw [masked_byte v 1 8 _ rfl (by decide), masked_byte v 0 0 _ rfl (by decide)]
  exact emits_put _

theorem emits_writeUnsignedShort (v : BitVec 16) : Emits (writeUnsignedShort v) () (bytesBE v 2) := emits_writeShort v

theorem emits_writeInt (v : BitVec 32) : Emits (writeInt v) () (bytesBE v 4) := by
  simp only [writeInt, bytesBE]
  rw [masked_byte v 3 24 _ rfl (by decide), masked_byte v 2 16 _ rfl (by decide),
    masked_byte v 1 8 _ rfl (by decide), masked_byte v 0 0 _ rfl (by decide)]
  exact emits_put _

theorem emits_writeLong (v : BitVec 64) : Emits (writeLong v) () (bytesBE v 8) := by
  simp only [writeLong, bytesBE]
  rw [masked_byte v 7 56 _ rfl (by decide), masked_byte v 6 48 _ rfl (by decide),
    masked_byte v 5 40 _ rfl (by decide), masked_byte v 4 32 _ rfl (by decide),
    masked_byte v 3 24 _ rfl (by decide), masked_byte v 2 16 _ rfl (by decide),
    masked_byte v 1 8 _ rfl (by decide), masked_byte v 0 0 _ rfl (by decide)]
  exact emits_put _

theorem emits_writeFloat (bits : BitVec 32) : Emits (writeFloat bits) () (bytesBE bits 4) :=
  Emits.mapError (emits_writeInt bits)

theorem emits_writeDouble (bits : BitVec 64) : Emits (writeDouble bits) () (bytesBE bits 8) :=
  Emits.mapError (emits_writeLong bits)

end DataOutputStream

namespace DataInputStream

theorem parses_readAllData (bytes : List UInt8) : Parses (readAllData bytes.length) bytes bytes := by
  intro rest
  rw [readAllData, if_pos (by simp)]
  simp

theorem parses_readFully {bytes : List UInt8} {n : Int} (hn : n = bytes.length) :
    Parses (readFully n) bytes bytes := by
  subst hn
  intro rest
  rw [readFully]
  by_cases hnil : (bytes.length : Int) = 0
  · have hbytes : bytes = [] := length_eq_zero_iff.mp (by omega)
    subst hbytes
    simp
  · rw [if_neg hnil, if_neg (by omega), if_pos (by simp)]
    simp

theorem parses_readWord {w n : Nat} (word : List UInt8 → BitVec w) (v : BitVec w) (hw : w ≤ 8 * n)
    (hword : word (bytesBE v n) = ofBytesBE w (bytesBE v n)) :
    Parses (readWord w n word) (bytesBE v n) v := by
  have hread := parses_readAllData (bytesBE v n)
  rw [length_bytesBE] at hread
  refine hread.bind_nil ?_
  rw [hword, ofBytesBE_bytesBE v hw]
  exact Parses.pure v

theorem parses_readShort (v : BitVec 16) : Parses readShort (bytesBE v 2) v :=
  parses_readWord _ v (by decide) (by simp [bytesBE, ofBytesBE, pushByte])

theorem parses_readUnsignedShort (v : BitVec 16) : Parses readUnsignedShort (bytesBE v 2) v :=
  parses_readShort v

theorem parses_readInt (v : BitVec 32) : Parses readInt (bytesBE v 4) v :=
  parses_readWord _ v (by decide) (by
    simp [bytesBE, ofBytesBE, pushByte, BitVec.shiftLeft_or_distrib, ← BitVec.shiftLeft_add])

theorem parses_readLong (v : BitVec 64) : Parses readLong (bytesBE v 8) v :=
  parses_readWord _ v (by decide) (by
    simp [bytesBE, ofBytesBE, pushByte, BitVec.shiftLeft_or_distrib, ← BitVec.shiftLeft_add])

theorem parses_readFloat (bits : BitVec 32) : Parses readFloat (bytesBE bits 4) bits := parses_readInt bits

theorem parses_readDouble (bits : BitVec 64) : Parses readDouble (bytesBE bits 8) bits :=
  parses_readLong bits

theorem parses_readByte (b : UInt8) : Parses readByte [b] b := by
  have hread : Parses (readAllData 1) [b] [b] := parses_readAllData [b]
  exact hread.bind_nil (Parses.pure b)

theorem parses_readChar (b : UInt8) : Parses readChar [b] b := parses_readByte b

theorem parses_readBoolean (b : Bool) : Parses readBoolean [if b then 1 else 0] b := by
  have hread : Parses (readAllData 1) [if b then (1 : UInt8) else 0] [if b then 1 else 0] :=
    parses_readAllData [if b then (1 : UInt8) else 0]
  have hvalue : (([if b then (1 : UInt8) else 0])[0]! != 0) = b := by cases b <;> rfl
  refine hread.bind_nil ?_
  rw [hvalue]
  exact Parses.pure b

end DataInputStream

/-! ### What the readers accept -/

namespace DataInputStream

variable {input rest : List UInt8}
variable {n : Nat} {data : List UInt8} {v : BitVec 16} {b : UInt8}

theorem readAllData_eq_ok (h : readAllData n input = .ok data rest) : data.length = n ∧ input = data ++ rest := by
  unfold readAllData at h
  split_ifs at h with hle
  injection h with hdata hrest
  subst hdata hrest
  exact ⟨length_take_of_le hle, (take_append_drop n input).symm⟩

theorem readFully_eq_ok {size : Int} (h : readFully size input = .ok data rest) :
    (data.length : Int) = size ∧ input = data ++ rest := by
  unfold readFully at h
  split_ifs at h with hzero hneg hle
  · injection h with hdata hrest
    subst hdata hrest
    exact ⟨by rw [hzero]; rfl, rfl⟩
  · injection h with hdata hrest
    subst hdata hrest
    refine ⟨?_, (take_append_drop _ input).symm⟩
    rw [length_take]
    omega

theorem readWord_eq_ok {w : Nat} {word : List UInt8 → BitVec w} {v : BitVec w} (hw : 8 * n ≤ w)
    (hparses : ∀ v, Parses (readWord w n word) (bytesBE v n) v) (h : readWord w n word input = .ok v rest) :
    input = bytesBE v n ++ rest := by
  obtain ⟨buffer, input', hread, hvalue⟩ := bind_eq_ok.mp h
  obtain ⟨hlen, hinput⟩ := readAllData_eq_ok hread
  injection hvalue with _ hrest
  subst hlen hrest
  have hbytes : bytesBE (ofBytesBE w buffer) buffer.length = buffer := bytesBE_ofBytesBE buffer hw
  have hagain := hparses (ofBytesBE w buffer) input'
  rw [hbytes, ← hinput, h] at hagain
  injection hagain with hv _
  rw [hv, hbytes, hinput]

theorem readShort_eq_ok (h : readShort input = .ok v rest) : input = bytesBE v 2 ++ rest :=
  readWord_eq_ok (by decide) parses_readShort h

theorem readUnsignedShort_eq_ok (h : readUnsignedShort input = .ok v rest) : input = bytesBE v 2 ++ rest :=
  readWord_eq_ok (by decide) parses_readUnsignedShort h

theorem readInt_eq_ok {v : BitVec 32} (h : readInt input = .ok v rest) : input = bytesBE v 4 ++ rest :=
  readWord_eq_ok (by decide) parses_readInt h

theorem readLong_eq_ok {v : BitVec 64} (h : readLong input = .ok v rest) : input = bytesBE v 8 ++ rest :=
  readWord_eq_ok (by decide) parses_readLong h

theorem readByte_eq_ok (h : readByte input = .ok b rest) : input = b :: rest := by
  obtain ⟨buffer, input', hread, hvalue⟩ := bind_eq_ok.mp h
  obtain ⟨hlen, hinput⟩ := readAllData_eq_ok hread
  obtain ⟨c, hbuffer⟩ := length_eq_one_iff.mp hlen
  subst hbuffer
  injection hvalue with hb hrest
  subst hb hrest
  exact hinput

theorem readChar_eq_ok (h : readChar input = .ok b rest) : input = b :: rest := readByte_eq_ok h

theorem readBoolean_eq_ok {value : Bool} (h : readBoolean input = .ok value rest) :
    ∃ b : UInt8, value = (b != 0) ∧ input = b :: rest := by
  obtain ⟨buffer, input', hread, hvalue⟩ := bind_eq_ok.mp h
  obtain ⟨hlen, hinput⟩ := readAllData_eq_ok hread
  obtain ⟨c, hbuffer⟩ := length_eq_one_iff.mp hlen
  subst hbuffer
  injection hvalue with hb hrest
  subst hrest
  exact ⟨c, hb.symm, hinput⟩

theorem parses_readBoolean_byte (b : UInt8) : Parses readBoolean [b] (b != 0) := by
  refine (parses_readAllData [b]).bind_nil ?_
  exact Parses.pure _

theorem readUTF_eq_ok {value : ByteString} (h : readUTF input = .ok value rest) :
    ∃ bytes : ByteString, bytes.length < 65536 ∧ utfDecode bytes = .ok value ∧
      input = bytesBE (BitVec.ofNat 16 bytes.length) 2 ++ (bytes ++ rest) := by
  rw [readUTF, mapError_eq_ok] at h
  obtain ⟨utfLength, input', hlength, h⟩ := bind_eq_ok.mp h
  have hinput := readUnsignedShort_eq_ok hlength
  by_cases hzero : utfLength.toNat = 0
  · rw [if_pos hzero] at h
    injection h with hvalue hrest
    subst hvalue hrest
    have hword : utfLength = BitVec.ofNat 16 0 := BitVec.eq_of_toNat_eq hzero
    exact ⟨[], by decide, rfl, by rw [hinput, hword]; rfl⟩
  · rw [if_neg hzero] at h
    obtain ⟨buffer, input'', hread, h⟩ := bind_eq_ok.mp h
    obtain ⟨hlen, hinput'⟩ := readFully_eq_ok hread
    cases hdecode : utfDecode buffer with
    | error e =>
      simp only [hdecode] at h
      cases h
    | ok result =>
      simp only [hdecode] at h
      injection h with hvalue hrest
      subst hvalue hrest
      have hbound := utfLength.isLt
      have hword : BitVec.ofNat 16 buffer.length = utfLength := by
        apply BitVec.eq_of_toNat_eq
        rw [BitVec.toNat_ofNat]
        omega
      exact ⟨buffer, by omega, hdecode, by rw [hinput, hinput', hword]⟩

end DataInputStream

/-! ### Modified UTF -/

namespace DataOutputStream

variable {value : ByteString}

def utfLength (value : ByteString) : Nat := (value.map fun c => utfWidth c.toNat).sum

theorem length_utfChar (charValue : Nat) : (utfChar charValue).length = utfWidth charValue := by
  unfold utfChar utfWidth
  split_ifs <;> rfl

theorem length_utfBytes (value : ByteString) : (utfBytes value).length = utfLength value := by
  unfold utfBytes utfLength
  rw [length_flatMap]
  simp only [length_utfChar]

theorem length_le_utfLength (value : ByteString) : value.length ≤ utfLength value := by
  induction value with
  | nil => exact le_refl 0
  | cons c value ih =>
    have hwidth : 1 ≤ utfWidth c.toNat := by
      unfold utfWidth
      split_ifs <;> omega
    simp only [utfLength, map_cons, sum_cons, length_cons] at *
    omega

theorem countUTFLength_eq (value : ByteString) : countUTFLength value = toUInt32 (utfLength value) := by
  have hfold : ∀ (value : ByteString) (n : Nat),
      value.foldl (fun utfCount c => toUInt32 (utfCount + utfWidth c.toNat : Nat)) (toUInt32 n)
        = toUInt32 (n + utfLength value : Nat) := by
    intro value
    induction value with
    | nil => intro n; rfl
    | cons c value ih =>
      intro n
      have hstep : toUInt32 ((toUInt32 n + utfWidth c.toNat : Nat) : Int)
          = toUInt32 ((n + utfWidth c.toNat : Nat) : Int) := by
        unfold toUInt32
        omega
      rw [foldl_cons, hstep, ih]
      simp only [utfLength, map_cons, sum_cons, Nat.add_assoc]
  have := hfold value 0
  simpa [toUInt32, countUTFLength] using this

theorem countUTFLength_of_lt (h : utfLength value < 65536) : countUTFLength value = utfLength value := by
  rw [countUTFLength_eq, toUInt32_of_lt (by omega)]

theorem emits_writeUTF (h : utfLength value < 65536) :
    Emits (writeUTF value) () (bytesBE (BitVec.ofNat 16 (utfLength value)) 2 ++ utfBytes value) := by
  apply Emits.mapError
  intro out
  simp only [countUTFLength_of_lt h, length_utfBytes]
  rw [if_neg (by omega), if_neg (by omega)]
  refine (emits_writeUnsignedShort _).bind ?_ out
  by_cases hpos : utfLength value > 0
  · rw [if_pos hpos]
    exact emits_write_all (by rw [length_utfBytes])
  · have hnil : utfBytes value = [] := length_eq_zero_iff.mp (by rw [length_utfBytes]; omega)
    rw [if_neg hpos, hnil]
    exact Emits.pure ()

theorem writeUTF_ok_utfLength {out out' : List UInt8}
    (h : writeUTF value out = .ok () out') : utfLength value < 65536 := by
  rw [writeUTF, mapError_eq_ok] at h
  by_contra hlong
  have hcount := countUTFLength_eq value
  have hbytes := length_utfBytes value
  by_cases hbig : countUTFLength value > 65535
  · simp [hbig] at h
  · have hover : (utfBytes value).length > countUTFLength value := by
      rw [hbytes, hcount] at *
      unfold toUInt32 at *
      omega
    simp [hbig, hover] at h

end DataOutputStream

namespace DataInputStream

open DataOutputStream

theorem utfChar_two_bytes : ∀ n < 256, ¬ (n > 0 ∧ n ≤ 127) →
    ∃ a b : UInt8, utfChar n = [a, b] ∧ ¬ a < 0x80 ∧ a &&& 0xE0 = 0xC0 ∧ b &&& 0xC0 = 0x80 ∧
      a &&& 0x1C = 0 ∧ ((a &&& 0x1F) <<< 6) ||| (b &&& 0x3F) = UInt8.ofNat n := by
  intro n hn hascii
  refine ⟨UInt8.ofNat (0xc0 ||| (0x1f &&& (n >>> 6))), UInt8.ofNat (0x80 ||| (0x3f &&& n)), ?_, ?_⟩
  · rw [utfChar, if_neg hascii, if_pos (by omega)]
  · clear hascii
    revert n
    decide +kernel

theorem utfDecode_utfChar (c : UInt8) (rest : List UInt8) (result : ByteString)
    (h : utfDecode rest = .ok result) : utfDecode (utfChar c.toNat ++ rest) = .ok (c :: result) := by
  by_cases hascii : c.toNat > 0 ∧ c.toNat ≤ 127
  · have hsmall : c < 0x80 := by
      rw [UInt8.lt_iff_toNat_lt]
      show c.toNat < 128
      omega
    rw [utfChar, if_pos hascii, UInt8.ofNat_toNat, singleton_append, utfDecode.eq_def]
    simp only [if_pos hsmall, h]
  · obtain ⟨a, b, hbytes, hhigh, hlead, hcont, hlow, hvalue⟩ :=
      utfChar_two_bytes c.toNat c.toNat_lt hascii
    rw [hbytes, cons_append, singleton_append, utfDecode.eq_def]
    simp only [if_neg hhigh, if_pos hlead, hcont, hlow, ne_eq, not_true_eq_false, if_false, h, hvalue, UInt8.ofNat_toNat]

theorem utfDecode_utfBytes (value : ByteString) : utfDecode (utfBytes value) = .ok value := by
  induction value with
  | nil => rfl
  | cons c value ih =>
    rw [utfBytes, flatMap_cons]
    exact utfDecode_utfChar c _ value ih

theorem parses_readUTF {value : ByteString} (h : utfLength value < 65536) :
    Parses readUTF (bytesBE (BitVec.ofNat 16 (utfLength value)) 2 ++ utfBytes value) value := by
  have hlen : (BitVec.ofNat 16 (utfLength value)).toNat = utfLength value := by
    rw [BitVec.toNat_ofNat]
    exact Nat.mod_eq_of_lt h
  apply Parses.mapError
  refine (parses_readUnsignedShort _).bind ?_
  rw [hlen]
  by_cases hzero : utfLength value = 0
  · have hbytes : utfBytes value = [] := length_eq_zero_iff.mp (by rw [length_utfBytes, hzero])
    have hvalue : value = [] :=
      length_eq_zero_iff.mp (by have := length_le_utfLength value; omega)
    rw [if_pos hzero, hbytes, hvalue]
    exact Parses.pure []
  · rw [if_neg hzero]
    have hread : Parses (readFully (utfLength value)) (utfBytes value) (utfBytes value) :=
      parses_readFully (by rw [length_utfBytes])
    refine hread.bind_nil ?_
    rw [utfDecode_utfBytes]
    exact Parses.pure value

end DataInputStream

end ActiveMQCpp.Decaf
