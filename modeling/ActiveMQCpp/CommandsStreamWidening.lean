import ActiveMQCpp.CommandsStreamRoundTrip

/-! Integers that are read from a stream message with a wider type than they were written with, or as text. -/

namespace ActiveMQCpp.Commands

open Codec Bytes MachineInt Decaf Wire DataInputStream StreamMessage

/-- An integer as it is written to the message. -/
inductive IntegerValue where
  | byte (value : UInt8)
  | short (value : BitVec 16)
  | int (value : BitVec 32)
  deriving DecidableEq

namespace IntegerValue

def written : IntegerValue → StreamValue
  | byte value => .byte value
  | short value => .short value
  | int value => .int value

def own : IntegerValue → ReadOp
  | byte _ => .byte
  | short _ => .short
  | int _ => .int

def wider : IntegerValue → List ReadOp
  | byte _ => [.short, .unsignedShort, .int, .long]
  | short _ => [.int, .long]
  | int _ => [.long]

/-- `Byte::parseByte`, `Short::parseShort` and `Integer::parseInt`, as numbers. -/
def parse (text : ByteString) : IntegerValue → Except Failure Int
  | byte _ => (Byte.parseByte text).map fun value => value.toNat
  | short _ => (Short.parseShort text).map BitVec.toInt
  | int _ => Integer.parseInt text

end IntegerValue

def StreamValue.number : StreamValue → Option Int
  | .byte value => some value.toNat
  | .short value => some value.toInt
  | .unsignedShort value => some value.toNat
  | .int value => some value.toInt
  | .long value => some value.toInt
  | _ => none

section

variable {Z : Zip} (C : Conversions)
variable {vs : List StreamValue} {m : StreamMessage Z}
variable {w : Nat}

/-- The wider reads return the number that the read of its own type returns, and the text that `readString` returns
stands for it. -/
def ConversionsAgree (v : IntegerValue) (m : StreamMessage Z) : Prop :=
  ∃ value n, (v.own.run C m).1 = .value value ∧ value.number = some n ∧
    (∀ op ∈ v.wider, ∃ value', (op.run C m).1 = .value value' ∧ value'.number = some n) ∧
    ∃ text, (ReadOp.string.run C m).1 = .value (.string text) ∧ v.parse text = .ok n

/-! ### What the reads return -/

theorem parses_widenedByte (w : Nat) (value : UInt8) :
    Parses (Read.widenedByte w) [value] (value.toBitVec.signExtend w) :=
  (parses_readByte value).bind_nil (Parses.pure _)

theorem toInt_signExtend_byte (value : UInt8) (hw : 8 ≤ w) :
    (value.toBitVec.signExtend w).toInt = value.toBitVec.toInt := by
  rw [BitVec.toInt_signExtend_of_le hw]

theorem toInt_toBitVec_eq_iff (value : UInt8) : value.toBitVec.toInt = value.toNat ↔ value < 128 := by
  have hlt := value.toNat_lt
  rw [UInt8.lt_iff_toNat_lt, BitVec.toInt_eq_toNat_cond]
  simp only [UInt8.toNat_toBitVec]
  split_ifs with hsmall
  · exact iff_of_true rfl (by simp; omega)
  · refine iff_of_false ?_ (by simp; omega)
    push_cast
    omega

theorem toNat_of_toInt {v : BitVec w} {n : Nat} (h : v.toInt = n) : v.toNat = n := by
  rw [BitVec.toInt_eq_toNat_cond] at h
  split_ifs at h with hsmall
  · exact Int.ofNat_inj.mp h
  · have hlt : (v.toNat : Int) < ((2 ^ w : Nat) : Int) := Int.ofNat_lt.mpr v.isLt
    omega

theorem run_wider_byte {value : UInt8} (h : Agrees ⟨.byte value :: vs, none⟩ m) :
    (ReadOp.short.run C m).1 = .value (.short (value.toBitVec.signExtend 16)) ∧
    (ReadOp.unsignedShort.run C m).1 = .value (.unsignedShort (value.toBitVec.signExtend 16)) ∧
    (ReadOp.int.run C m).1 = .value (.int (value.toBitVec.signExtend 32)) ∧
    (ReadOp.long.run C m).1 = .value (.long (value.toBitVec.signExtend 64)) := by
  have hcall : ∀ {w : Nat} (f : BitVec w → ReadResult) {texts : ReadTexts}
      {table : PrimitiveType → Option (DataIn (BitVec w))}, table .byte = some (Read.widenedByte w) →
      (ReadResult.ofCall f (reading (readTyped texts table) m)).1
        = f (value.toBitVec.signExtend w) := by
    intro w f texts table htable
    have hparses : Parses (readTyped texts table) (StreamValue.byte value).encoding (value.toBitVec.signExtend w) :=
      parses_readTyped .byte htable (parses_widenedByte w value)
    rw [ofCall_reading f hparses h.readOnly h.position_cons]
  exact ⟨hcall _ rfl, hcall _ rfl, hcall _ rfl, hcall _ rfl⟩

theorem run_wider_short {value : BitVec 16} (h : Agrees ⟨.short value :: vs, none⟩ m) :
    (ReadOp.int.run C m).1 = .value (.int (value.signExtend 32)) ∧
    (ReadOp.long.run C m).1 = .value (.long (value.signExtend 64)) := by
  have hcall : ∀ {w : Nat} (f : BitVec w → ReadResult) {texts : ReadTexts}
      {table : PrimitiveType → Option (DataIn (BitVec w))},
      table .short = some (do return (← readShort).signExtend w) →
      (ReadResult.ofCall f (reading (readTyped texts table) m)).1 = f (value.signExtend w) := by
    intro w f texts table htable
    have hparses : Parses (readTyped texts table) (StreamValue.short value).encoding (value.signExtend w) :=
      parses_readTyped .short htable
        ((parses_readShort value).bind_nil (Parses.pure (value.signExtend w)))
    rw [ofCall_reading f hparses h.readOnly h.position_cons]
  exact ⟨hcall _ rfl, hcall _ rfl⟩

theorem run_wider_int {value : BitVec 32} (h : Agrees ⟨.int value :: vs, none⟩ m) :
    (ReadOp.long.run C m).1 = .value (.long (value.signExtend 64)) := by
  have hparses : Parses Read.long (StreamValue.int value).encoding (value.signExtend 64) :=
    parses_readTyped .integer rfl
      ((parses_readInt value).bind_nil (Parses.pure (value.signExtend 64)))
  show (ReadResult.ofCall (fun v => .value (.long v)) (reading Read.long m)).1 = _
  rw [ofCall_reading _ hparses h.readOnly h.position_cons]

theorem run_string_integer {v : IntegerValue} (h : Agrees ⟨v.written :: vs, none⟩ m) :
    ∃ n, v.written.number = some n ∧ (ReadOp.string.run C m).1 = .value (.string (Long.toString n)) ∧
      v.parse (Long.toString n) = .ok n := by
  have hcall : ∀ {text : ByteString}, Parses (Read.string C) v.written.encoding text →
      (ReadOp.string.run C m).1 = .value (.string text) := by
    intro text hparses
    show (ReadResult.ofCall (fun s => .value (.string s)) (reading (Read.string C) m)).1 = _
    rw [ofCall_reading _ hparses h.readOnly h.position_cons]
  cases v with
  | byte value =>
    have hlt := value.toNat_lt
    refine ⟨value.toNat, rfl, hcall (parses_readTyped .byte rfl
      ((parses_readByte value).bind_nil (Parses.pure _))), ?_⟩
    have hback : (UInt8.ofNat (((value.toNat : Int) % 256).toNat)) = value := by
      have hmod : ((value.toNat : Int) % 256).toNat = value.toNat := by omega
      rw [hmod, UInt8.ofNat_toNat]
    show (Byte.parseByte (Long.toString (value.toNat : Int))).map (fun value => (value.toNat : Int)) = _
    rw [Byte.parseByte, Integer.parseInt_toString (by omega)]
    show (if ((UInt8.ofNat (((value.toNat : Int) % 256).toNat)).toNat : Int) ≠ value.toNat then _ else _ :
      Except Failure UInt8).map _ = _
    rw [hback, if_neg (by simp)]
    rfl
  | short value =>
    have hlow := BitVec.le_toInt value
    have hhigh := BitVec.toInt_lt (x := value)
    norm_num at hlow hhigh
    refine ⟨value.toInt, rfl, hcall (parses_readTyped .short rfl
      ((parses_readShort value).bind_nil (Parses.pure _))), ?_⟩
    show (Short.parseShort (Long.toString value.toInt)).map BitVec.toInt = _
    rw [Short.parseShort, Integer.parseInt_toString_int (by omega) (by omega)]
    show (if (BitVec.ofInt 16 value.toInt).toInt ≠ value.toInt then _ else _ : Except Failure (BitVec 16)).map _ = _
    rw [BitVec.ofInt_toInt, if_neg (by simp)]
    rfl
  | int value =>
    have hlow := BitVec.le_toInt value
    have hhigh := BitVec.toInt_lt (x := value)
    norm_num at hlow hhigh
    exact ⟨value.toInt, rfl, hcall (parses_readTyped .integer rfl
      ((parses_readInt value).bind_nil (Parses.pure _))),
      Integer.parseInt_toString_int hlow hhigh⟩

/-! ### Where they agree -/

/-- The conversions agree except for a byte whose sign bit is set. -/
theorem conversionsAgree_iff {v : IntegerValue} {vs : List StreamValue} {m : StreamMessage Z}
    (h : Agrees ⟨v.written :: vs, none⟩ m) :
    ConversionsAgree C v m ↔ ∀ value, v = .byte value → value < 128 := by
  have hown : (v.own.run C m).1 = .value v.written := by
    have haccepts : v.own.accepts v.written := by cases v <;> trivial
    have hrun := run_value C haccepts (by cases v <;> trivial) h.readOnly h.position_cons
    rw [hrun]
  obtain ⟨n, hnumber, hstring, hparse⟩ := run_string_integer C h
  constructor
  · rintro ⟨value, k, hvalue, hk, hwider, -⟩ byte rfl
    have hsame : value = (IntegerValue.byte byte).written := by
      injection hvalue.symm.trans hown
    subst hsame
    obtain ⟨value', hshort, hnumber'⟩ := hwider .short (by simp [IntegerValue.wider])
    rw [(run_wider_byte C h).1] at hshort
    injection hshort with hshort
    subst hshort
    have hsign := Option.some.inj (hnumber'.trans hk.symm)
    rw [toInt_signExtend_byte byte (by decide)] at hsign
    exact (toInt_toBitVec_eq_iff byte).mp hsign
  · intro hsmall
    refine ⟨v.written, n, hown, hnumber, ?_, Long.toString n, hstring, hparse⟩
    cases v with
    | byte value =>
      have hn : n = value.toNat := (Option.some.inj hnumber).symm
      have hsign := (toInt_toBitVec_eq_iff value).mpr (hsmall value rfl)
      obtain ⟨hshort, hunsigned, hint, hlong⟩ := run_wider_byte C h
      have hwide : ∀ w, 8 ≤ w → (value.toBitVec.signExtend w).toInt = n := by
        intro w hw
        rw [toInt_signExtend_byte value hw, hsign, hn]
      intro op hop
      simp only [IntegerValue.wider, List.mem_cons, List.not_mem_nil, or_false] at hop
      rcases hop with rfl | rfl | rfl | rfl
      · exact ⟨_, hshort, congrArg some (hwide 16 (by decide))⟩
      · refine ⟨_, hunsigned, ?_⟩
        have hnat := toNat_of_toInt ((hwide 16 (by decide)).trans hn)
        show some (((value.toBitVec.signExtend 16).toNat : Nat) : Int) = some n
        rw [hnat, hn]
      · exact ⟨_, hint, congrArg some (hwide 32 (by decide))⟩
      · exact ⟨_, hlong, congrArg some (hwide 64 (by decide))⟩
    | short value =>
      have hn : n = value.toInt := (Option.some.inj hnumber).symm
      obtain ⟨hint, hlong⟩ := run_wider_short C h
      intro op hop
      simp only [IntegerValue.wider, List.mem_cons, List.not_mem_nil, or_false] at hop
      rcases hop with rfl | rfl
      · exact ⟨_, hint, by rw [hn]; exact congrArg some (BitVec.toInt_signExtend_of_le (by decide))⟩
      · exact ⟨_, hlong, by rw [hn]; exact congrArg some (BitVec.toInt_signExtend_of_le (by decide))⟩
    | int value =>
      have hn : n = value.toInt := (Option.some.inj hnumber).symm
      have hlong := run_wider_int C h
      intro op hop
      simp only [IntegerValue.wider, List.mem_singleton] at hop
      subst hop
      exact ⟨_, hlong, by rw [hn]; exact congrArg some (BitVec.toInt_signExtend_of_le (by decide))⟩

end

/-- A short and a byte that are the only value of their message. -/
theorem conversionsAgree_short_byte :
    ConversionsAgree noConversions (.short 40000) (StreamMessage.stored (Z := Zip.storing) none [.short 40000]) ∧
      ConversionsAgree noConversions (.byte 100) (stored (Z := Zip.storing) none [.byte 100]) :=
  ⟨(conversionsAgree_iff noConversions (v := .short 40000)
      (agrees_stored Zip.storing_lossless none [.short 40000])).mpr (by intro value h; cases h),
    (conversionsAgree_iff noConversions (v := .byte 100)
      (agrees_stored Zip.storing_lossless none [.byte 100])).mpr (by intro value h; cases h; decide)⟩

/-- The byte 200 is read as the short -56. -/
theorem byte_read_with_sign :
    let m : StreamMessage Zip.storing := stored none [.byte 200]
    (ReadOp.byte.run noConversions m).1 = .value (.byte 200) ∧
      (ReadOp.short.run noConversions m).1 = .value (.short (-56)) ∧
      ¬ ConversionsAgree noConversions (.byte 200) m := by
  refine ⟨rfl, rfl, ?_⟩
  rintro ⟨value, n, hvalue, hn, hwider, -⟩
  obtain ⟨value', hshort, hn'⟩ := hwider .short (by simp [IntegerValue.wider])
  have hvalue' : StreamValue.byte 200 = value := by injection hvalue
  have hshort' : StreamValue.short (-56) = value' := by injection hshort
  subst hvalue' hshort'
  have hsame := Option.some.inj (hn.trans hn'.symm)
  exact absurd hsame (by decide)

end ActiveMQCpp.Commands
