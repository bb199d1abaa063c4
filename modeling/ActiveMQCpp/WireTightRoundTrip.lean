import ActiveMQCpp.WireTightMarshal

/-! What the tight encoding of a list of string and long fields transfers. Each field has a list of bits that phase
one records and a list of bytes that phase two writes; the three phases are shown to agree on both, field by field. -/

namespace ActiveMQCpp.Wire

open Codec Bytes MachineInt Decaf BooleanStream

variable {value : ByteString} {s : BooleanStream} {written more : List Bool} {field : FieldValue}
  {fields : List FieldValue}
variable {s' : BooleanStream} {size : Int} {out out' : List UInt8}

/-- The characters that `tightMarshalString1` accepts as ASCII. -/
def isOnlyAscii (value : ByteString) : Bool := value.all fun c => decide (0 < c.toNat ∧ c.toNat ≤ 127)

theorem scanChar_eq (n : Nat) (b : Bool) (c : UInt8) :
    scanChar (toInt32 n, b) c = (toInt32 (n + DataOutputStream.utfWidth c.toNat : Nat),
      b && decide (0 < c.toNat ∧ c.toNat ≤ 127)) := by
  have hlt : c.toNat < 256 := c.toNat_lt
  have hnat : c.toBitVec.toNat = c.toNat := rfl
  have hadd : ∀ k : Nat, toInt32 (toInt32 n + k) = toInt32 (n + k : Nat) := by
    intro k
    rw [toInt32_add, Nat.cast_add]
  by_cases hascii : 0 < c.toNat ∧ c.toNat ≤ 127
  · have hsigned : c.toBitVec.toInt = c.toNat := by
      rw [BitVec.toInt_eq_toNat_of_lt (by omega), hnat]
    have hwidth : DataOutputStream.utfWidth c.toNat = 1 := if_pos hascii
    simp only [scanChar, hsigned]
    rw [if_pos (by omega), hwidth, decide_eq_true hascii, Bool.and_true, ← hadd]
    rfl
  · have hsigned : c.toBitVec.toInt < 1 := by
      rw [BitVec.toInt_eq_toNat_cond, hnat]
      split_ifs <;> omega
    have hwidth : DataOutputStream.utfWidth c.toNat = 2 := by
      rw [DataOutputStream.utfWidth, if_neg hascii, if_pos (by omega)]
    simp only [scanChar]
    rw [if_neg (by omega), if_neg (by omega), hwidth, decide_eq_false hascii, Bool.and_false, ← hadd]
    rfl

/-- The scan computes the length of the modified UTF-8 encoding, as an `int`. -/
theorem foldl_scanChar (value : ByteString) (n : Nat) (b : Bool) : value.foldl scanChar (toInt32 n, b)
      = (toInt32 (n + DataOutputStream.utfLength value : Nat), b && isOnlyAscii value) := by
  induction value generalizing n b with
  | nil => simp [DataOutputStream.utfLength, isOnlyAscii]
  | cons c value ih =>
    rw [List.foldl_cons, scanChar_eq, ih]
    simp only [DataOutputStream.utfLength, List.map_cons, List.sum_cons, isOnlyAscii, List.all_cons,
      Bool.and_assoc, Nat.add_assoc]

theorem utfLength_of_isOnlyAscii (h : isOnlyAscii value = true) :
    DataOutputStream.utfLength value = value.length := by
  induction value with
  | nil => rfl
  | cons c value ih =>
    rw [isOnlyAscii, List.all_cons, Bool.and_eq_true, decide_eq_true_iff] at h
    have hwidth : DataOutputStream.utfWidth c.toNat = 1 := if_pos h.1
    have htail := ih h.2
    rw [DataOutputStream.utfLength] at htail
    rw [DataOutputStream.utfLength, List.map_cons, List.sum_cons, hwidth, htail, List.length_cons,
      Nat.add_comm]

/-! ### The bits and the bytes of a field -/

/-- The widths of `tightMarshalLong1`. -/
def longBits (value : BitVec 64) : Bool × Bool :=
  if value = 0 then (false, false)
  else if value &&& 0xFFFFFFFFFFFF0000#64 = 0 then (false, true)
  else if value &&& 0xFFFFFFFF00000000#64 = 0 then (true, false)
  else (true, true)

def longBytes (value : BitVec 64) : List UInt8 :=
  match longBits value with
  | (false, false) => []
  | (false, true) => bytesBE (value.setWidth 16) 2
  | (true, false) => bytesBE (value.setWidth 32) 4
  | (true, true) => bytesBE value 8

def stringBytes (value : ByteString) : List UInt8 :=
  if isOnlyAscii value then bytesBE (BitVec.ofNat 16 value.length) 2 ++ value
  else bytesBE (BitVec.ofNat 16 (DataOutputStream.utfLength value)) 2 ++ DataOutputStream.utfBytes value

namespace FieldValue

def bits : FieldValue → List Bool
  | string [] => [false]
  | string (c :: value) => [true, isOnlyAscii (c :: value)]
  | long value => [(longBits value).1, (longBits value).2]

def bytes : FieldValue → List UInt8
  | string [] => []
  | string (c :: value) => stringBytes (c :: value)
  | long value => longBytes value

/-- The strings whose encoding is counted by an `unsigned short`. -/
def Encodable : FieldValue → Prop
  | string value => DataOutputStream.utfLength value < 65536
  | long _ => True

/-- The strings whose length survives: an ASCII string has to be counted by a `short`. -/
def Transferable : FieldValue → Prop
  | string value => DataOutputStream.utfLength value < 65536 ∧
      (isOnlyAscii value = true → value.length < 32768)
  | long _ => True

end FieldValue

def fieldBits (fields : List FieldValue) : List Bool := fields.flatMap FieldValue.bits

def fieldBytes (fields : List FieldValue) : List UInt8 := fields.flatMap FieldValue.bytes

/-! ### Phase one -/

theorem writeBoolean_two (b b' : Bool) (h : Wrote s written) (hn : written.length + 2 ≤ maxBits) :
    ∃ s' s'', writeBoolean b s = .ok () s' ∧ writeBoolean b' s' = .ok () s'' ∧
      Wrote s'' (written ++ [b, b']) := by
  obtain ⟨s', hrun, hwrote⟩ := writeBoolean_wrote b h (by omega)
  obtain ⟨s'', hrun', hwrote'⟩ := writeBoolean_wrote b' hwrote (by simp; omega)
  refine ⟨s', s'', hrun, hrun', ?_⟩
  rwa [List.append_assoc] at hwrote'

theorem tightMarshalString1_nil (s : BooleanStream) : tightMarshalString1 [] s = mapError catchExceptionConvert
      (do writeBoolean false; pure 0) s := rfl

theorem tightMarshalString1_cons (c : UInt8) (value : ByteString) (s : BooleanStream) :
    tightMarshalString1 (c :: value) s = mapError catchExceptionConvert (do
      writeBoolean true
      if toInt32 (DataOutputStream.utfLength (c :: value)) ≥ 0x10000 then
        throw (.thrown .ioException
          "BaseDataStreamMarshaller::tightMarshalString1 - Encountered a String value that is too long to encode.")
      else
        writeBoolean (isOnlyAscii (c :: value))
        pure (toInt32 (toInt32 (DataOutputStream.utfLength (c :: value)) + 2))) s := by
  have hfold := foldl_scanChar (c :: value) 0 true
  rw [Nat.zero_add, Bool.true_and] at hfold
  have hzero : toInt32 (0 : Nat) = 0 := rfl
  rw [hzero] at hfold
  have hcons : ((c :: value) != []) = true := rfl
  simp only [tightMarshalString1, hcons, hfold, if_true]

theorem tightMarshalLong1_eq (value : BitVec 64) (s : BooleanStream) :
    tightMarshalLong1 value s = mapError catchExceptionConvert (do
      writeBoolean (longBits value).1
      writeBoolean (longBits value).2
      pure ((longBytes value).length : Int)) s := by
  unfold tightMarshalLong1 longBytes longBits
  split_ifs <;> simp only [List.length_nil, length_bytesBE] <;> rfl

/-- A phase one that returns has recorded the bits of the field. -/
theorem tightMarshal1_wrote (h : Wrote s written) (hn : written.length + field.bits.length ≤ maxBits)
    (hrun : field.tightMarshal1 s = .ok size s') : Wrote s' (written ++ field.bits) := by
  match field, hn, hrun with
  | .string [], hn, hrun =>
    rw [FieldValue.tightMarshal1, tightMarshalString1_nil, mapError_eq_ok] at hrun
    obtain ⟨t, hbit, hwrote⟩ := writeBoolean_wrote false h (Nat.lt_of_succ_le hn)
    rw [bind_ok hbit] at hrun
    cases hrun
    exact hwrote
  | .string (c :: value), hn, hrun =>
    rw [FieldValue.tightMarshal1, tightMarshalString1_cons, mapError_eq_ok] at hrun
    obtain ⟨t, t', hbit, hbit', hwrote⟩ :=
      writeBoolean_two true (isOnlyAscii (c :: value)) h (by simpa [FieldValue.bits] using hn)
    rw [bind_ok hbit] at hrun
    split_ifs at hrun
    · simp at hrun
    · rw [bind_ok hbit', pure_run] at hrun
      injection hrun with _ hstate
      subst hstate
      exact hwrote
  | .long value, hn, hrun =>
    rw [FieldValue.tightMarshal1, tightMarshalLong1_eq, mapError_eq_ok] at hrun
    obtain ⟨t, t', hbit, hbit', hwrote⟩ :=
      writeBoolean_two (longBits value).1 (longBits value).2 h (by simpa [FieldValue.bits] using hn)
    rw [bind_ok hbit, bind_ok hbit'] at hrun
    cases hrun
    exact hwrote

theorem length_stringBytes (value : ByteString) :
    (stringBytes value).length = DataOutputStream.utfLength value + 2 := by
  unfold stringBytes
  split_ifs with hascii
  · rw [List.length_append, length_bytesBE, utfLength_of_isOnlyAscii hascii, Nat.add_comm]
  · rw [List.length_append, length_bytesBE, DataOutputStream.length_utfBytes, Nat.add_comm]

/-- Phase one returns for every encodable field and predicts the length of its bytes. -/
theorem tightMarshal1_ok (h : Wrote s written) (hn : written.length + field.bits.length ≤ maxBits)
    (hfield : field.Encodable) :
    ∃ s', field.tightMarshal1 s = .ok (field.bytes.length : Int) s' := by
  match field, hn, hfield with
  | .string [], hn, _ =>
    obtain ⟨t, hbit, -⟩ := writeBoolean_wrote false h (Nat.lt_of_succ_le hn)
    refine ⟨t, ?_⟩
    rw [FieldValue.tightMarshal1, tightMarshalString1_nil, mapError_eq_ok, bind_ok hbit]
    rfl
  | .string (c :: value), hn, hutf =>
    obtain ⟨t, t', hbit, hbit', -⟩ :=
      writeBoolean_two true (isOnlyAscii (c :: value)) h (by simpa [FieldValue.bits] using hn)
    rw [FieldValue.Encodable] at hutf
    refine ⟨t', ?_⟩
    rw [FieldValue.tightMarshal1, tightMarshalString1_cons, mapError_eq_ok, bind_ok hbit,
      toInt32_of_range (by omega) (by omega), if_neg (by omega), bind_ok hbit',
      toInt32_of_range (by omega) (by omega), FieldValue.bytes, length_stringBytes]
    rfl
  | .long value, hn, _ =>
    obtain ⟨t, t', hbit, hbit', -⟩ :=
      writeBoolean_two (longBits value).1 (longBits value).2 h (by simpa [FieldValue.bits] using hn)
    refine ⟨t', ?_⟩
    rw [FieldValue.tightMarshal1, tightMarshalLong1_eq, mapError_eq_ok, bind_ok hbit, bind_ok hbit']
    rfl

/-- The counters, in or out of range, after a phase one that returns. -/
theorem tightMarshal1_counted {n : Nat} (h : Counted s n) (hrun : field.tightMarshal1 s = .ok size s') :
    Counted s' (n + field.bits.length) := by
  match field, hrun with
  | .string [], hrun =>
    rw [FieldValue.tightMarshal1, tightMarshalString1_nil, mapError_eq_ok, bind_eq_ok] at hrun
    obtain ⟨⟨⟩, t, hbit, hrun⟩ := hrun
    cases hrun
    exact writeBoolean_counted h hbit
  | .string (c :: value), hrun =>
    rw [FieldValue.tightMarshal1, tightMarshalString1_cons, mapError_eq_ok, bind_eq_ok] at hrun
    obtain ⟨⟨⟩, t, hbit, hrun⟩ := hrun
    split_ifs at hrun
    · simp at hrun
    · rw [bind_eq_ok] at hrun
      obtain ⟨⟨⟩, t', hbit', hrun⟩ := hrun
      rw [pure_run] at hrun
      injection hrun with _ hstate
      subst hstate
      exact writeBoolean_counted (writeBoolean_counted h hbit) hbit'
  | .long value, hrun =>
    rw [FieldValue.tightMarshal1, tightMarshalLong1_eq, mapError_eq_ok, bind_eq_ok] at hrun
    obtain ⟨⟨⟩, t, hbit, hrun⟩ := hrun
    rw [bind_eq_ok] at hrun
    obtain ⟨⟨⟩, t', hbit', hrun⟩ := hrun
    cases hrun
    exact writeBoolean_counted (writeBoolean_counted h hbit) hbit'

/-! ### Phase two -/

theorem onFst_readBoolean {b : Bool} (h : Reads s (b :: more)) :
    ∃ s', Reads s' more ∧ ∀ data : List UInt8, onFst BooleanStream.readBoolean (s, data) = .ok b (s', data) := by
  obtain ⟨s', hrun, hreads⟩ := readBoolean_reads h
  exact ⟨s', hreads, fun data => onFst_ok data hrun⟩

theorem emits_writeBytes (h : value.length < 2147483648) : Emits (DataOutputStream.writeBytes value) () value := by
  apply Emits.mapError
  by_cases hnil : value.length = 0
  · rw [if_pos hnil, List.length_eq_zero_iff.mp hnil]
    exact Emits.pure ()
  · rw [if_neg hnil, toInt32_of_range (by omega) (by omega)]
    exact DataOutputStream.emits_write_all rfl

theorem tightMarshal2_reads (h : Reads s (field.bits ++ more)) (hfield : field.Encodable) : ∃ s', Reads s' more ∧
      ∀ out, field.tightMarshal2 (s, out) = .ok () (s', out ++ field.bytes) := by
  match field, h, hfield with
  | .string [], h, _ =>
    obtain ⟨s', hreads, hbit⟩ := onFst_readBoolean h
    refine ⟨s', hreads, ?_⟩
    intro out
    rw [FieldValue.tightMarshal2, tightMarshalString2, mapError_eq_ok, bind_ok (hbit out),
      FieldValue.bytes, List.append_nil]
    rfl
  | .string (c :: value), h, hutf =>
    obtain ⟨t, hreads, hbit⟩ := onFst_readBoolean h
    obtain ⟨s', hreads', hbit'⟩ := onFst_readBoolean hreads
    rw [FieldValue.Encodable] at hutf
    refine ⟨s', hreads', ?_⟩
    intro out
    rw [FieldValue.tightMarshal2, tightMarshalString2, mapError_eq_ok, bind_ok (hbit out), if_pos rfl,
      bind_ok (hbit' out), FieldValue.bytes, stringBytes]
    by_cases hascii : isOnlyAscii (c :: value) = true
    · have hlen := utfLength_of_isOnlyAscii hascii
      rw [if_pos hascii, if_pos hascii, bind_ok (onSnd_ok s' (DataOutputStream.emits_writeShort _ out)),
        onSnd_ok s' (emits_writeBytes (by omega) _), List.append_assoc]
    · rw [if_neg hascii, if_neg hascii, onSnd_ok s' (DataOutputStream.emits_writeUTF hutf out)]
  | .long value, h, _ =>
    obtain ⟨t, hreads, hbit⟩ := onFst_readBoolean h
    obtain ⟨s', hreads', hbit'⟩ := onFst_readBoolean hreads
    refine ⟨s', hreads', ?_⟩
    intro out
    rw [FieldValue.tightMarshal2, tightMarshalLong2, mapError_eq_ok, bind_ok (hbit out),
      FieldValue.bytes, longBytes]
    rcases hbits : longBits value with ⟨_ | _, _ | _⟩
    · rw [hbits] at hbit'
      rw [if_neg Bool.false_ne_true, bind_ok (hbit' out), List.append_nil]
      rfl
    · rw [hbits] at hbit'
      rw [if_neg Bool.false_ne_true, bind_ok (hbit' out), if_pos rfl,
        onSnd_ok s' (DataOutputStream.emits_writeShort _ out)]
    · rw [hbits] at hbit'
      rw [if_pos rfl, bind_ok (hbit' out), if_neg Bool.false_ne_true,
        onSnd_ok s' (DataOutputStream.emits_writeInt _ out)]
    · rw [hbits] at hbit'
      rw [if_pos rfl, bind_ok (hbit' out), if_pos rfl,
        onSnd_ok s' (DataOutputStream.emits_writeLong _ out)]

/-! ### The receiving side -/

theorem parses_readAsciiString (h : value.length < 32768) :
    Parses readAsciiString (bytesBE (BitVec.ofNat 16 value.length) 2 ++ value) value := by
  have hsize : (BitVec.ofNat 16 value.length).toInt = value.length := by
    have hnat : (BitVec.ofNat 16 value.length).toNat = value.length := by
      rw [BitVec.toNat_ofNat, Nat.mod_eq_of_lt (by omega)]
    rw [BitVec.toInt_eq_toNat_of_lt (by omega), hnat]
  apply Parses.mapError
  refine (DataInputStream.parses_readShort _).bind ?_
  rw [hsize]
  by_cases hnil : (value.length : Int) > 0
  · rw [if_pos hnil]
    exact DataInputStream.parses_readFully rfl
  · rw [if_neg hnil, List.length_eq_zero_iff.mp (show value.length = 0 by omega)]
    exact Parses.pure _

/-- A string read by `readAsciiString` is counted by a `short`, whatever the input. -/
theorem length_readAsciiString {input rest : List UInt8}
    (h : readAsciiString input = .ok value rest) : value.length < 32768 := by
  rw [readAsciiString, mapError_eq_ok, bind_eq_ok] at h
  obtain ⟨size, input', -, h⟩ := h
  have hsize : size.toInt < 32768 := BitVec.toInt_lt
  split_ifs at h with hpos
  · rw [DataInputStream.readFully, if_neg (by omega), if_neg (by omega)] at h
    split_ifs at h
    injection h with hvalue _
    rw [← hvalue, List.length_take]
    omega
  · rw [pure_run] at h
    injection h with hvalue _
    rw [← hvalue]
    decide

theorem setWidth_of_and_mask {value mask : BitVec 64} {w : Nat} (h : value &&& mask = 0)
    (hmask : ∀ i, w ≤ i → i < 64 → mask.getLsbD i = true) :
    (value.setWidth w).setWidth 64 = value := by
  apply BitVec.eq_of_getLsbD_eq
  intro i hi
  rw [BitVec.getLsbD_setWidth, BitVec.getLsbD_setWidth]
  by_cases hlow : i < w
  · simp [hi, hlow]
  · have hbit : (value &&& mask).getLsbD i = false := by rw [h]; simp
    rw [BitVec.getLsbD_and, hmask i (by omega) hi, Bool.and_true] at hbit
    simp [hlow, hbit]

theorem longBits_spec (value : BitVec 64) : (longBits value = (false, false) → value = 0) ∧
      (longBits value = (false, true) → (value.setWidth 16).setWidth 64 = value) ∧
      (longBits value = (true, false) → (value.setWidth 32).setWidth 64 = value) := by
  unfold longBits
  split_ifs with hzero hshort hint
  · exact ⟨fun _ => hzero, by simp, by simp⟩
  · refine ⟨by simp, fun _ => setWidth_of_and_mask hshort ?_, by simp⟩
    decide
  · refine ⟨by simp, by simp, fun _ => setWidth_of_and_mask hint ?_⟩
    decide
  · exact ⟨by simp, by simp, by simp⟩

theorem tightUnmarshal_string (s : BooleanStream) (input : List UInt8) (value : ByteString)
    (p : BooleanStream × List UInt8) (h : tightUnmarshalString (s, input) = .ok value p) :
    FieldType.string.tightUnmarshal (s, input) = .ok (.string value) p := by
  rw [FieldType.tightUnmarshal, bind_ok h]
  rfl

theorem tightUnmarshal_long (s : BooleanStream) (input : List UInt8) (value : BitVec 64)
    (p : BooleanStream × List UInt8) (h : tightUnmarshalLong (s, input) = .ok value p) :
    FieldType.long.tightUnmarshal (s, input) = .ok (.long value) p := by
  rw [FieldType.tightUnmarshal, bind_ok h]
  rfl

/-- The receiver follows the same bits and consumes exactly the bytes of the field. -/
theorem tightUnmarshal_reads (h : Reads s (field.bits ++ more)) (hfield : field.Transferable) : ∃ s', Reads s' more ∧
      ∀ rest, field.type.tightUnmarshal (s, field.bytes ++ rest) = .ok field (s', rest) := by
  match field, h, hfield with
  | .string [], h, _ =>
    obtain ⟨s', hreads, hbit⟩ := onFst_readBoolean h
    refine ⟨s', hreads, ?_⟩
    intro rest
    apply tightUnmarshal_string
    rw [tightUnmarshalString, mapError_eq_ok, bind_ok (hbit _)]
    rfl
  | .string (c :: value), h, hfield =>
    obtain ⟨t, hreads, hbit⟩ := onFst_readBoolean h
    obtain ⟨s', hreads', hbit'⟩ := onFst_readBoolean hreads
    obtain ⟨hutf, hshort⟩ := hfield
    refine ⟨s', hreads', ?_⟩
    intro rest
    apply tightUnmarshal_string
    rw [tightUnmarshalString, mapError_eq_ok, bind_ok (hbit _), if_pos rfl, bind_ok (hbit' _),
      FieldValue.bytes, stringBytes]
    by_cases hascii : isOnlyAscii (c :: value) = true
    · rw [if_pos hascii, if_pos hascii, onSnd_ok s' (parses_readAsciiString (hshort hascii) rest)]
    · rw [if_neg hascii, if_neg hascii, onSnd_ok s' (DataInputStream.parses_readUTF hutf rest)]
  | .long value, h, _ =>
    obtain ⟨t, hreads, hbit⟩ := onFst_readBoolean h
    obtain ⟨s', hreads', hbit'⟩ := onFst_readBoolean hreads
    obtain ⟨hzero, hshort, hint⟩ := longBits_spec value
    refine ⟨s', hreads', ?_⟩
    intro rest
    apply tightUnmarshal_long
    rw [tightUnmarshalLong, mapError_eq_ok, bind_ok (hbit _), FieldValue.bytes, longBytes]
    rcases hbits : longBits value with ⟨_ | _, _ | _⟩
    · rw [hbits] at hbit'
      rw [if_neg Bool.false_ne_true, bind_ok (hbit' _), if_neg Bool.false_ne_true, hzero hbits]
      rfl
    · rw [hbits] at hbit'
      rw [if_neg Bool.false_ne_true, bind_ok (hbit' _), if_pos rfl,
        bind_ok (onSnd_ok s' (DataInputStream.parses_readUnsignedShort _ rest)), hshort hbits]
      rfl
    · rw [hbits] at hbit'
      rw [if_pos rfl, bind_ok (hbit' _), if_neg Bool.false_ne_true,
        bind_ok (onSnd_ok s' (DataInputStream.parses_readInt _ rest)), hint hbits]
      rfl
    · rw [hbits] at hbit'
      rw [if_pos rfl, bind_ok (hbit' _), if_pos rfl,
        onSnd_ok s' (DataInputStream.parses_readLong _ rest)]

/-- Whatever the payload, a receiver that gets a value follows the bits, and no ASCII string it gets
is longer than a `short` can count. -/
theorem tightUnmarshal_ok {field : FieldValue} {s : BooleanStream} {more : List Bool}
    {input : List UInt8} {p : BooleanStream × List UInt8} (h : Reads s (field.bits ++ more))
    (hrun : field.type.tightUnmarshal (s, input) = .ok field p) :
    Reads p.1 more ∧ ∀ value, field = .string value → isOnlyAscii value = true → value.length < 32768 := by
  match field, h, hrun with
  | .string [], h, hrun =>
    obtain ⟨s', hreads, hbit⟩ := onFst_readBoolean h
    rw [FieldValue.type, FieldType.tightUnmarshal, tightUnmarshalString, bind_eq_ok] at hrun
    obtain ⟨value, p', hread, hrun⟩ := hrun
    rw [mapError_eq_ok, bind_ok (hbit input)] at hread
    cases hread
    cases hrun
    refine ⟨hreads, ?_⟩
    rintro value heq -
    cases heq
    decide
  | .string (c :: tail), h, hrun =>
    obtain ⟨t, hreads, hbit⟩ := onFst_readBoolean h
    obtain ⟨s', hreads', hbit'⟩ := onFst_readBoolean hreads
    rw [FieldValue.type, FieldType.tightUnmarshal, tightUnmarshalString, bind_eq_ok] at hrun
    obtain ⟨value, p', hread, hrun⟩ := hrun
    rw [mapError_eq_ok, bind_ok (hbit input), if_pos rfl, bind_ok (hbit' input)] at hread
    cases hrun
    by_cases hascii : isOnlyAscii (c :: tail) = true
    · rw [if_pos hascii] at hread
      obtain ⟨hread, hstate⟩ := onSnd_eq_ok.mp hread
      refine ⟨by rw [hstate]; exact hreads', ?_⟩
      rintro value heq -
      cases heq
      exact length_readAsciiString hread
    · rw [if_neg hascii] at hread
      obtain ⟨-, hstate⟩ := onSnd_eq_ok.mp hread
      refine ⟨by rw [hstate]; exact hreads', ?_⟩
      rintro value heq hascii'
      cases heq
      exact absurd hascii' hascii
  | .long value, h, hrun =>
    obtain ⟨t, hreads, hbit⟩ := onFst_readBoolean h
    obtain ⟨s', hreads', hbit'⟩ := onFst_readBoolean hreads
    refine ⟨?_, by rintro value' heq -; cases heq⟩
    rw [FieldValue.type, FieldType.tightUnmarshal, tightUnmarshalLong, bind_eq_ok] at hrun
    obtain ⟨value', p', hread, hrun⟩ := hrun
    rw [mapError_eq_ok, bind_ok (hbit input)] at hread
    cases hrun
    have hstate : p.1 = s' := by
      rcases hbits : longBits value with ⟨_ | _, _ | _⟩
      · rw [hbits] at hbit' hread
        rw [if_neg Bool.false_ne_true, bind_ok (hbit' _), if_neg Bool.false_ne_true] at hread
        cases hread
        rfl
      · rw [hbits] at hbit' hread
        rw [if_neg Bool.false_ne_true, bind_ok (hbit' _), if_pos rfl, bind_eq_ok] at hread
        obtain ⟨short, q, hread, hdone⟩ := hread
        cases hdone
        exact (onSnd_eq_ok.mp hread).2
      · rw [hbits] at hbit' hread
        rw [if_pos rfl, bind_ok (hbit' _), if_neg Bool.false_ne_true, bind_eq_ok] at hread
        obtain ⟨int, q, hread, hdone⟩ := hread
        cases hdone
        exact (onSnd_eq_ok.mp hread).2
      · rw [hbits] at hbit' hread
        rw [if_pos rfl, bind_ok (hbit' _), if_pos rfl] at hread
        exact (onSnd_eq_ok.mp hread).2
    rw [hstate]
    exact hreads'

/-! ### Lists of fields -/

theorem tightMarshalFields1_ok (hfields : ∀ field ∈ fields, field.Encodable) :
    ∀ {s : BooleanStream} {written : List Bool}, Wrote s written →
      written.length + (fieldBits fields).length ≤ maxBits →
      ∃ sizes s', tightMarshalFields1 fields s = .ok sizes s' ∧
        Wrote s' (written ++ fieldBits fields) ∧ sizes.sum = ((fieldBytes fields).length : Int) := by
  induction fields with
  | nil =>
    intro s written h _
    refine ⟨[], s, rfl, ?_, rfl⟩
    rwa [fieldBits, List.flatMap_nil, List.append_nil]
  | cons field fields ih =>
    intro s written h hn
    rw [fieldBits, List.flatMap_cons, List.length_append] at hn
    obtain ⟨s1, hrun⟩ := tightMarshal1_ok h (by omega) (hfields field List.mem_cons_self)
    have hwrote := tightMarshal1_wrote h (by omega) hrun
    obtain ⟨sizes, s2, hrest, hwrote', hsum⟩ :=
      ih (fun f hf => hfields f (List.mem_cons_of_mem _ hf)) hwrote (by
        rw [List.length_append, Nat.add_assoc]
        exact hn)
    refine ⟨field.bytes.length :: sizes, s2, ?_, ?_, ?_⟩
    · rw [tightMarshalFields1, bind_ok hrun, bind_ok hrest]
      rfl
    · rwa [List.append_assoc] at hwrote'
    · rw [List.sum_cons, hsum, fieldBytes, fieldBytes, List.flatMap_cons, List.length_append,
        Nat.cast_add]

theorem tightMarshalFields1_counted : ∀ {s s' : BooleanStream} {n : Nat} {sizes : List Int}, Counted s n →
      tightMarshalFields1 fields s = .ok sizes s' → Counted s' (n + (fieldBits fields).length) := by
  induction fields with
  | nil =>
    intro s s' n sizes h hrun
    cases hrun
    exact h
  | cons field fields ih =>
    intro s s' n sizes h hrun
    rw [tightMarshalFields1, bind_eq_ok] at hrun
    obtain ⟨size, s1, hone, hrun⟩ := hrun
    rw [bind_eq_ok] at hrun
    obtain ⟨sizes', s2, hrest, hdone⟩ := hrun
    cases hdone
    have hcounted := ih (tightMarshal1_counted h hone) hrest
    rwa [Nat.add_assoc, ← List.length_append] at hcounted

theorem tightMarshalFields1_wrote :
    ∀ {s s' : BooleanStream} {written : List Bool} {sizes : List Int}, Wrote s written →
      written.length + (fieldBits fields).length ≤ maxBits →
      tightMarshalFields1 fields s = .ok sizes s' → Wrote s' (written ++ fieldBits fields) := by
  induction fields with
  | nil =>
    intro s s' written sizes h _ hrun
    cases hrun
    rwa [fieldBits, List.flatMap_nil, List.append_nil]
  | cons field fields ih =>
    intro s s' written sizes h hn hrun
    rw [fieldBits, List.flatMap_cons, List.length_append] at hn
    rw [tightMarshalFields1, bind_eq_ok] at hrun
    obtain ⟨size, s1, hone, hrun⟩ := hrun
    rw [bind_eq_ok] at hrun
    obtain ⟨sizes', s2, hrest, hdone⟩ := hrun
    cases hdone
    have hwrote := ih (tightMarshal1_wrote h (by omega) hone) (by
      rw [List.length_append, Nat.add_assoc]
      exact hn) hrest
    rwa [List.append_assoc] at hwrote

theorem tightMarshalFields2_reads (hfields : ∀ field ∈ fields, field.Encodable) :
    ∀ {s : BooleanStream} (out : List UInt8), Reads s (fieldBits fields) →
      ∃ s', tightMarshalFields2 fields (s, out) = .ok () (s', out ++ fieldBytes fields) := by
  induction fields with
  | nil =>
    intro s out _
    refine ⟨s, ?_⟩
    rw [fieldBytes, List.flatMap_nil, List.append_nil]
    rfl
  | cons field fields ih =>
    intro s out h
    obtain ⟨s1, hreads, hrun⟩ := tightMarshal2_reads h (hfields field List.mem_cons_self)
    obtain ⟨s2, hrest⟩ := ih (fun f hf => hfields f (List.mem_cons_of_mem _ hf)) (out ++ field.bytes) hreads
    refine ⟨s2, ?_⟩
    rw [tightMarshalFields2, bind_ok (hrun out), hrest, List.append_assoc]
    rfl

theorem tightUnmarshalFields_reads (hfields : ∀ field ∈ fields, field.Transferable) :
    ∀ {s : BooleanStream} (rest : List UInt8), Reads s (fieldBits fields) →
      ∃ s', tightUnmarshalFields (fields.map FieldValue.type) (s, fieldBytes fields ++ rest)
        = .ok fields (s', rest) := by
  induction fields with
  | nil =>
    intro s rest _
    exact ⟨s, rfl⟩
  | cons field fields ih =>
    intro s rest h
    obtain ⟨s1, hreads, hrun⟩ := tightUnmarshal_reads h (hfields field List.mem_cons_self)
    obtain ⟨s2, hrest⟩ := ih (fun f hf => hfields f (List.mem_cons_of_mem _ hf)) rest hreads
    refine ⟨s2, ?_⟩
    rw [List.map_cons, tightUnmarshalFields, fieldBytes, List.flatMap_cons, List.append_assoc,
      bind_ok (hrun _)]
    exact (bind_ok hrest).trans rfl

theorem tightUnmarshalFields_ok : ∀ {s : BooleanStream} {input : List UInt8} {p : BooleanStream × List UInt8},
      Reads s (fieldBits fields) →
      tightUnmarshalFields (fields.map FieldValue.type) (s, input) = .ok fields p →
      ∀ value, FieldValue.string value ∈ fields → isOnlyAscii value = true → value.length < 32768 := by
  induction fields with
  | nil =>
    intro s input p _ _ value hmem
    cases hmem
  | cons field fields ih =>
    intro s input p h hrun value hmem hascii
    rw [List.map_cons, tightUnmarshalFields, bind_eq_ok] at hrun
    obtain ⟨field', ⟨s1, input'⟩, hone, hrun⟩ := hrun
    rw [bind_eq_ok] at hrun
    obtain ⟨fields', p2, hrest, hdone⟩ := hrun
    cases hdone
    obtain ⟨hreads, hshort⟩ := tightUnmarshal_ok h hone
    rcases List.mem_cons.mp hmem with heq | htail
    · exact hshort value heq.symm hascii
    · exact ih hreads hrest value htail hascii

/-! ### The loose encoding -/

theorem looseMarshal_emits {field : FieldValue} (hfield : field.Encodable) :
    ∃ bytes, Emits field.looseMarshal () bytes ∧ Parses field.type.looseUnmarshal bytes field := by
  match field, hfield with
  | .string [], _ =>
    refine ⟨[0] ++ [], ?_, ?_⟩
    · exact Emits.mapError (h := catchExceptionConvert)
        ((DataOutputStream.emits_put [0]).bind (Emits.pure ()))
    · refine Parses.bind_nil ?_ (Parses.pure _)
      exact Parses.mapError ((DataInputStream.parses_readBoolean false).bind (Parses.pure []))
  | .string (c :: value), hutf =>
    rw [FieldValue.Encodable] at hutf
    refine ⟨[1] ++ (bytesBE (BitVec.ofNat 16 (DataOutputStream.utfLength (c :: value))) 2
      ++ DataOutputStream.utfBytes (c :: value)), ?_, ?_⟩
    · exact Emits.mapError
        ((DataOutputStream.emits_put [1]).bind (DataOutputStream.emits_writeUTF hutf))
    · refine Parses.bind_nil ?_ (Parses.pure _)
      exact Parses.mapError
        ((DataInputStream.parses_readBoolean true).bind (DataInputStream.parses_readUTF hutf))
  | .long value, _ =>
    refine ⟨bytesBE value 8, ?_, ?_⟩
    · exact Emits.mapError (h := catchExceptionConvert) (DataOutputStream.emits_writeLong value)
    · exact Parses.bind_nil (Parses.mapError (DataInputStream.parses_readLong value)) (Parses.pure _)

theorem looseMarshalFields_emits (hfields : ∀ field ∈ fields, field.Encodable) :
    ∃ bytes, Emits (looseMarshalFields fields) () bytes ∧
      Parses (looseUnmarshalFields (fields.map FieldValue.type)) bytes fields := by
  induction fields with
  | nil => exact ⟨[], Emits.pure (), Parses.pure []⟩
  | cons field fields ih =>
    obtain ⟨bytes, hemits, hparses⟩ := looseMarshal_emits (hfields field List.mem_cons_self)
    obtain ⟨bytes', hemits', hparses'⟩ := ih fun f hf => hfields f (List.mem_cons_of_mem _ hf)
    refine ⟨bytes ++ bytes', hemits.bind hemits', ?_⟩
    exact hparses.bind (hparses'.bind_nil (Parses.pure _))

/-- A loose string that is written is counted by an `unsigned short`. -/
theorem looseMarshalString_utfLength
    (h : looseMarshalString value out = .ok () out') : DataOutputStream.utfLength value < 65536 := by
  rw [looseMarshalString, mapError_eq_ok, bind_eq_ok] at h
  obtain ⟨⟨⟩, out1, -, h⟩ := h
  rcases value with _ | ⟨c, value⟩
  · decide
  · exact DataOutputStream.writeUTF_ok_utfLength h

theorem looseMarshalFields_utfLength (h : looseMarshalFields fields out = .ok () out') :
    ∀ value, FieldValue.string value ∈ fields → DataOutputStream.utfLength value < 65536 := by
  induction fields generalizing out with
  | nil =>
    intro value hmem
    cases hmem
  | cons field fields ih =>
    intro value hmem
    rw [looseMarshalFields, bind_eq_ok] at h
    obtain ⟨⟨⟩, out1, hone, hrest⟩ := h
    rcases List.mem_cons.mp hmem with rfl | htail
    · exact looseMarshalString_utfLength hone
    · exact ih hrest value htail

/-! ### The transfer as a whole -/

/-- Phase one, the boolean stream, phase two and the receiver, one after the other: the payload is as
long as predicted, and the receiver gets the fields and consumes exactly what was sent. -/
def TightRoundTrip (fields : List FieldValue) : Prop :=
  ∃ sizes recorded header opened payload closed,
    tightMarshalFields1 fields BooleanStream.new = .ok sizes recorded ∧
    BooleanStream.marshal (recorded, []) = .ok () (opened, header) ∧
    tightMarshalFields2 fields (opened, header) = .ok () (closed, header ++ payload) ∧
    (payload.length : Int) = sizes.sum ∧
    ∀ rest, ∃ s, tightDecode (fields.map FieldValue.type) (BooleanStream.new, header ++ payload ++ rest)
      = .ok fields (s, rest)

def LooseRoundTrip (fields : List FieldValue) : Prop :=
  ∃ payload, looseMarshalFields fields [] = .ok () payload ∧
    ∀ rest, looseUnmarshalFields (fields.map FieldValue.type) (payload ++ rest) = .ok fields rest

/-- The bits a field takes: an empty string takes one, every other field two. -/
def FieldValue.bitCount : FieldValue → Nat
  | string [] => 1
  | _ => 2

/-- The lists that survive: every string does, and the boolean stream is counted by a `short`. -/
structure Transferable (fields : List FieldValue) : Prop where
  field : ∀ field ∈ fields, field.Transferable
  bits : (fields.map FieldValue.bitCount).sum ≤ maxBits

theorem length_fieldBits (fields : List FieldValue) :
    (fieldBits fields).length = (fields.map FieldValue.bitCount).sum := by
  have hone : ∀ field : FieldValue, field.bits.length = field.bitCount := by
    rintro ((_ | ⟨c, value⟩) | value) <;> rfl
  rw [fieldBits, List.length_flatMap]
  simp only [hone]

theorem Transferable.encodable (h : Transferable fields) : ∀ field ∈ fields, field.Encodable := by
  rintro (value | value) hmem
  · exact (h.field _ hmem).1
  · trivial

theorem Transferable.tightRoundTrip (h : Transferable fields) : TightRoundTrip fields := by
  have hbits := h.bits
  rw [← length_fieldBits] at hbits
  obtain ⟨sizes, recorded, hphase1, hwrote, hsum⟩ :=
    tightMarshalFields1_ok h.encodable wrote_new (by simpa using hbits)
  rw [List.nil_append] at hwrote
  have hmarshal := marshal_wrote hwrote hbits []
  rw [List.nil_append] at hmarshal
  obtain ⟨closed, hphase2⟩ := tightMarshalFields2_reads h.encodable (marshalled recorded)
    (hwrote.reads_clear hbits)
  refine ⟨sizes, recorded, marshalled recorded, recorded.clear, fieldBytes fields, closed, hphase1,
    hmarshal, hphase2, hsum.symm, ?_⟩
  intro rest
  obtain ⟨received, hunmarshal, hreads⟩ :=
    unmarshal_marshalled hwrote hbits BooleanStream.new (fieldBytes fields ++ rest)
  obtain ⟨s, hdecode⟩ := tightUnmarshalFields_reads h.field rest hreads
  refine ⟨s, ?_⟩
  rw [tightDecode, List.append_assoc, bind_ok hunmarshal, hdecode]

theorem Transferable.looseRoundTrip (h : Transferable fields) : LooseRoundTrip fields := by
  obtain ⟨payload, hemits, hparses⟩ := looseMarshalFields_emits h.encodable
  refine ⟨payload, ?_, hparses⟩
  rw [hemits [], List.nil_append]

theorem TightRoundTrip.length_fieldBits_le (h : TightRoundTrip fields) : (fieldBits fields).length ≤ maxBits := by
  obtain ⟨sizes, recorded, header, opened, payload, closed, hphase1, hmarshal, -⟩ := h
  have hcounted := tightMarshalFields1_counted counted_new hphase1
  rw [Nat.zero_add] at hcounted
  by_contra hmany
  exact marshal_counted_error hcounted (by omega) [] _ hmarshal

theorem TightRoundTrip.length_ascii (h : TightRoundTrip fields) :
    ∀ value, FieldValue.string value ∈ fields → isOnlyAscii value = true → value.length < 32768 := by
  have hbits := h.length_fieldBits_le
  obtain ⟨sizes, recorded, header, opened, payload, closed, hphase1, hmarshal, -, -, hdecode⟩ := h
  have hwrote := tightMarshalFields1_wrote wrote_new (by simpa using hbits) hphase1
  rw [List.nil_append] at hwrote
  have hheader := marshal_wrote hwrote hbits []
  rw [hmarshal] at hheader
  cases hheader
  obtain ⟨s, hrun⟩ := hdecode []
  obtain ⟨received, hunmarshal, hreads⟩ :=
    unmarshal_marshalled hwrote hbits BooleanStream.new (payload ++ [])
  rw [List.nil_append, tightDecode, List.append_assoc, bind_ok hunmarshal] at hrun
  exact tightUnmarshalFields_ok hreads hrun

/-- A list is transferred by both encodings exactly when every encoded string is counted by an
`unsigned short`, every ASCII string by a `short` and the bits by the boolean stream. -/
theorem roundTrip_iff_transferable (fields : List FieldValue) :
    TightRoundTrip fields ∧ LooseRoundTrip fields ↔ Transferable fields := by
  constructor
  · rintro ⟨htight, payload, hloose, -⟩
    have hutf := looseMarshalFields_utfLength hloose
    refine ⟨?_, by rw [← length_fieldBits]; exact htight.length_fieldBits_le⟩
    rintro (value | value) hmem
    · exact ⟨hutf value hmem, htight.length_ascii value hmem⟩
    · trivial
  · intro h
    exact ⟨h.tightRoundTrip, h.looseRoundTrip⟩

theorem isOnlyAscii_replicate (n : Nat) : isOnlyAscii (List.replicate n 0x61) = true := by
  rw [isOnlyAscii, List.all_eq_true]
  intro c hmem
  rw [List.eq_of_mem_replicate hmem]
  decide

/-- Phase one accepts an ASCII string of 32768 characters, and the string is not transferred: its
length is read back as a negative `short`. -/
theorem roundTrip_ascii_32768_fails :
    (∃ sizes s, tightMarshalFields1 [.string (List.replicate 32768 0x61)] BooleanStream.new = .ok sizes s) ∧
      ¬ (TightRoundTrip [.string (List.replicate 32768 0x61)] ∧
        LooseRoundTrip [.string (List.replicate 32768 0x61)]) := by
  constructor
  · have hencodable : ∀ field ∈ [FieldValue.string (List.replicate 32768 0x61)], field.Encodable := by
      rintro field hmem
      rw [List.mem_singleton.mp hmem, FieldValue.Encodable,
        utfLength_of_isOnlyAscii (isOnlyAscii_replicate _), List.length_replicate]
      decide
    have hbits : ([] : List Bool).length +
        (fieldBits [.string (List.replicate 32768 0x61)]).length ≤ maxBits := by
      rw [length_fieldBits]
      decide
    obtain ⟨sizes, s, hrun, -⟩ := tightMarshalFields1_ok hencodable wrote_new hbits
    exact ⟨sizes, s, hrun⟩
  · rintro ⟨htight, -⟩
    have hshort := htight.length_ascii _ List.mem_cons_self (isOnlyAscii_replicate _)
    rw [List.length_replicate] at hshort
    exact absurd hshort (by decide)

end ActiveMQCpp.Wire
