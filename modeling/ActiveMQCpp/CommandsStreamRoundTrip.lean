import ActiveMQCpp.CommandsStreamMessage

/-! A stream message as a sequence of values. The abstract cursor says what the reads of a message return. The message
refines the cursor for the values whose texts and arrays are shorter than `2^31` bytes. -/

namespace ActiveMQCpp.Commands

open Codec Bytes MachineInt Decaf Wire BodyOut DataInputStream DataOutputStream List StreamMessage

inductive StreamValue where
  | boolean (value : Bool)
  | byte (value : UInt8)
  | char (value : UInt8)
  | short (value : BitVec 16)
  | unsignedShort (value : BitVec 16)
  | int (value : BitVec 32)
  | long (value : BitVec 64)
  | float (bits : BitVec 32)
  | double (bits : BitVec 64)
  | string (value : ByteString)
  | bytes (value : ByteString)
  deriving DecidableEq

namespace StreamValue

variable {Z : Zip}

def write : StreamValue → StreamMessage.M Z Unit
  | boolean value => StreamMessage.writeBoolean value
  | byte value => StreamMessage.writeByte value
  | char value => StreamMessage.writeChar value
  | short value => StreamMessage.writeShort value
  | unsignedShort value => StreamMessage.writeUnsignedShort value
  | int value => StreamMessage.writeInt value
  | long value => StreamMessage.writeLong value
  | float bits => StreamMessage.writeFloat bits
  | double bits => StreamMessage.writeDouble bits
  | string value => StreamMessage.writeString value
  | bytes value => StreamMessage.writeBytes value

/-- Its length is an `int`. -/
def Short : StreamValue → Prop
  | string value => value.length < 2147483648
  | bytes value => value.length < 2147483648
  | _ => True

def Writable : StreamValue → Prop
  | bytes value => 0 ≤ toInt32 value.length
  | _ => True

def arrays : StreamValue → List (List UInt8)
  | boolean value => [[PrimitiveType.boolean.toByte], [if value then 1 else 0]]
  | byte value => [[PrimitiveType.byte.toByte], [value]]
  | char value => [[PrimitiveType.char.toByte], [value]]
  | short value => [[PrimitiveType.short.toByte], bytesBE value 2]
  | unsignedShort value => [[PrimitiveType.short.toByte], bytesBE value 2]
  | int value => [[PrimitiveType.integer.toByte], bytesBE value 4]
  | long value => [[PrimitiveType.long.toByte], bytesBE value 8]
  | float bits => [[PrimitiveType.float.toByte], bytesBE bits 4]
  | double bits => [[PrimitiveType.double.toByte], bytesBE bits 8]
  | string value =>
    let size := toInt32 value.length
    if size ≤ 8191 then
      [[PrimitiveType.string.toByte], bytesBE (BitVec.ofInt 16 size) 2, value.take size.toNat]
    else [[PrimitiveType.bigString.toByte], bytesBE (BitVec.ofInt 32 size) 4, value.take size.toNat]
  | bytes value =>
    let size := toInt32 value.length
    [[PrimitiveType.byteArray.toByte], bytesBE (BitVec.ofInt 32 size) 4, value.take size.toNat]

def encoding (v : StreamValue) : List UInt8 := v.arrays.flatten

end StreamValue

/-! ### Writing -/

namespace BodyOut

variable {Z : Zip}
variable {size : Int}

@[simp] theorem write_nil : (write [] : EStateM Failure (BodyOut Z) Unit) = pure () := by
  funext out
  rw [write, bind_ok (get_run _), if_pos rfl]

theorem call_write_prefix {value : ByteString} (hsize : size = toInt32 value.length) (hpos : 0 ≤ size) :
    (call (DataOutputStream.write value size 0 size) : EStateM Failure (BodyOut Z) Unit)
      = write (value.take size.toNat) := by
  have hle : size ≤ value.length := hsize ▸ toInt32_le (Int.natCast_nonneg _)
  refine call_of_emits fun output => ?_
  rw [DataOutputStream.write]
  by_cases hzero : size = 0
  · rw [if_pos hzero, hzero, pure_run, Int.toNat_zero, take_zero, append_nil]
  · rw [if_neg hzero, if_neg (by omega), if_neg (by omega), if_neg (by omega), if_neg (by omega)]
    rw [Int.toNat_zero, drop_zero]
    rfl

theorem call_write_negative (value : ByteString) (hneg : size < 0) (out : BodyOut Z) :
    ∃ e, call (DataOutputStream.write value size 0 size) out = .error e out := by
  rw [call, DataOutputStream.write, if_neg (by omega), if_pos hneg, throw_run]
  exact ⟨_, rfl⟩

theorem write_write (xs ys : List UInt8) :
    (do write xs; write ys : EStateM Failure (BodyOut Z) Unit) = [xs, ys].forM write := by
  simp [forM_cons]

theorem write_write_write (xs ys zs : List UInt8) :
    (do write xs; write ys; write zs : EStateM Failure (BodyOut Z) Unit) = [xs, ys, zs].forM write := by
  simp [forM_cons]

end BodyOut

namespace StreamMessage

variable {Z : Zip}
variable {m m' : StreamMessage Z} {out : BodyOut Z} {value : ByteString}
variable {w : EStateM Failure (BodyOut Z) Unit} {out' : BodyOut Z}

def openedOut (m : StreamMessage Z) : StreamMessage Z :=
  match m.dataOut with
  | some _ => m
  | none =>
    { m with compressed := m.compressed || m.usesCompression
             dataOut := some (BodyOut.fresh m.usesCompression) }

theorem openedOut_of_some (h : m.dataOut = some out) : m.openedOut = m := by
  rw [openedOut, h]

theorem exists_dataOut_openedOut (m : StreamMessage Z) : ∃ out, m.openedOut.dataOut = some out := by
  unfold openedOut
  cases hout : m.dataOut with
  | none => exact ⟨_, rfl⟩
  | some out => exact ⟨out, hout⟩

theorem initializeWriting_run (h : m.readOnlyBody = false) : initializeWriting m = .ok () m.openedOut := by
  rw [initializeWriting, bind_ok (get_run _), if_neg (by rw [h]; exact Bool.false_ne_true), openedOut]
  cases hout : m.dataOut with
  | none => rfl
  | some out => rfl

theorem writing_eq_ok (h : m.readOnlyBody = false) :
    writing w m = .ok () m' ↔ ∃ out out', m.openedOut.dataOut = some out ∧ w out = .ok () out' ∧
      m' = { m.openedOut with dataOut := some out' } := by
  obtain ⟨out, hout⟩ := exists_dataOut_openedOut m
  rw [writing, bind_ok (initializeWriting_run h), onDataOut, hout]
  simp only
  cases hw : w out with
  | ok u out' => simp [hw, eq_comm]
  | error e out' => simp [hw]

theorem writing_congr {w' : EStateM Failure (BodyOut Z) Unit}
    (h : ∀ out out', w out = .ok () out' ↔ w' out = .ok () out')
    (hm : m.readOnlyBody = false) : writing w m = .ok () m' ↔ writing w' m = .ok () m' := by
  simp only [writing_eq_ok hm, h]

theorem typed_eq {type : PrimitiveType} {value : DataOut Unit} {bytes : List UInt8} (h : Emits value () bytes) :
    (typed type value : EStateM Failure (BodyOut Z) Unit) = [[type.toByte], bytes].forM write := by
  rw [typed, call_of_emits (emits_writeByte _), call_of_emits h,
    write_write]

theorem writeString_bytes (value : ByteString) : (if toInt32 value.length > 0 then
        call (write value (toInt32 value.length) 0 (toInt32 value.length))
      else pure () : EStateM Failure (BodyOut Z) Unit)
      = BodyOut.write (value.take (toInt32 value.length).toNat) := by
  by_cases hpos : toInt32 value.length > 0
  · rw [if_pos hpos, BodyOut.call_write_prefix rfl (by omega)]
  · rw [if_neg hpos, show (toInt32 value.length).toNat = 0 by omega, take_zero, write_nil]

theorem writeString16_eq_ok (h : toInt32 value.length ≤ 8191) : writeString16 value out = .ok () out' ↔
      (do write (bytesBE (BitVec.ofInt 16 (toInt32 value.length)) 2)
          BodyOut.write (value.take (toInt32 value.length).toNat)) out = .ok () out' := by
  rw [writeString16, mapError_eq_ok]
  rw [if_neg (by omega), writeString_bytes, call_of_emits (emits_writeShort _)]

theorem writeString32_eq_ok : writeString32 value out = .ok () out' ↔
      (do write (bytesBE (BitVec.ofInt 32 (toInt32 value.length)) 4)
          BodyOut.write (value.take (toInt32 value.length).toNat)) out = .ok () out' := by
  have hlt := toInt32_lt value.length
  rw [writeString32, mapError_eq_ok]
  rw [if_neg (by omega), writeString_bytes, call_of_emits (emits_writeInt _)]

theorem writeString_eq_ok (hm : m.readOnlyBody = false) : writeString value m = .ok () m' ↔
      writing ((StreamValue.string value).arrays.forM write) m = .ok () m' := by
  refine writing_congr (fun out out' => ?_) hm
  rw [mapError_eq_ok, StreamValue.arrays]
  by_cases hshort : toInt32 value.length ≤ 8191
  · rw [if_pos (show toInt32 value.length ≤ 32767 / 4 by omega)]
    simp only [if_pos hshort]
    rw [← write_write_write, call_of_emits (emits_writeByte _)]
    simp only [bind_eq_ok (m := write _), writeString16_eq_ok hshort]
  · rw [if_neg (show ¬ toInt32 value.length ≤ 32767 / 4 by omega)]
    simp only [if_neg hshort]
    rw [← write_write_write, call_of_emits (emits_writeByte _)]
    simp only [bind_eq_ok (m := write _), writeString32_eq_ok]

theorem writeBytes_eq_ok (hpos : 0 ≤ toInt32 value.length) : writeBytes value m = .ok () m' ↔
      writing ((StreamValue.bytes value).arrays.forM write) m = .ok () m' := by
  rw [writeBytes, StreamValue.arrays]
  simp only
  rw [call_of_emits (emits_writeByte _),
    call_of_emits (emits_writeInt _), call_write_prefix rfl hpos,
    write_write_write]

theorem writeBytes_ne_ok (hm : m.readOnlyBody = false)
    (hneg : toInt32 value.length < 0) : writeBytes value m ≠ .ok () m' := by
  rw [writeBytes, ne_eq, writing_eq_ok hm]
  simp only [bind_eq_ok]
  rintro ⟨out, out', -, ⟨-, out₁, -, -, out₂, -, hlast⟩, -⟩
  obtain ⟨e, herror⟩ := call_write_negative value hneg out₂
  rw [herror] at hlast
  cases hlast

end StreamMessage

namespace StreamValue

variable {Z : Zip}

theorem write_eq_ok {v : StreamValue} {m m' : StreamMessage Z} (hm : m.readOnlyBody = false) :
    v.write m = .ok () m' ↔ v.Writable ∧ StreamMessage.writing (v.arrays.forM BodyOut.write) m = .ok () m' := by
  cases v with
  | boolean value =>
    simp only [Writable, true_and, arrays, write, StreamMessage.writeBoolean,
      StreamMessage.typed_eq (DataOutputStream.emits_writeBoolean value)]
  | byte value =>
    simp only [Writable, true_and, arrays, write, StreamMessage.writeByte,
      StreamMessage.typed_eq (DataOutputStream.emits_writeByte value)]
  | char value =>
    simp only [Writable, true_and, arrays, write, StreamMessage.writeChar,
      StreamMessage.typed_eq (DataOutputStream.emits_writeChar value)]
  | short value =>
    simp only [Writable, true_and, arrays, write, StreamMessage.writeShort,
      StreamMessage.typed_eq (DataOutputStream.emits_writeShort value)]
  | unsignedShort value =>
    simp only [Writable, true_and, arrays, write, StreamMessage.writeUnsignedShort,
      StreamMessage.typed_eq (DataOutputStream.emits_writeUnsignedShort value)]
  | int value =>
    simp only [Writable, true_and, arrays, write, StreamMessage.writeInt,
      StreamMessage.typed_eq (DataOutputStream.emits_writeInt value)]
  | long value =>
    simp only [Writable, true_and, arrays, write, StreamMessage.writeLong,
      StreamMessage.typed_eq (DataOutputStream.emits_writeLong value)]
  | float bits =>
    simp only [Writable, true_and, arrays, write, StreamMessage.writeFloat,
      StreamMessage.typed_eq (DataOutputStream.emits_writeFloat bits)]
  | double bits =>
    simp only [Writable, true_and, arrays, write, StreamMessage.writeDouble,
      StreamMessage.typed_eq (DataOutputStream.emits_writeDouble bits)]
  | string value =>
    simp only [Writable, true_and]
    exact StreamMessage.writeString_eq_ok hm
  | bytes value =>
    by_cases hpos : 0 ≤ toInt32 value.length
    · simp only [Writable, hpos, true_and]
      exact StreamMessage.writeBytes_eq_ok hpos
    · have hne : StreamMessage.writeBytes value m ≠ .ok () m' :=
        StreamMessage.writeBytes_ne_ok hm (by omega)
      simp only [Writable, hpos, false_and, iff_false]
      exact hne

end StreamValue

namespace StreamMessage

variable {Z : Zip}
variable {vs : List StreamValue} {m m' : StreamMessage Z}
variable {out : BodyOut Z}

theorem forM_write_eq_ok (hm : m.readOnlyBody = false) (hout : m.dataOut = some out) :
    vs.forM StreamValue.write m = .ok () m' ↔ (∀ v ∈ vs, v.Writable) ∧
      ∃ out', (vs.flatMap StreamValue.arrays).forM write out = .ok () out' ∧
        m' = { m with dataOut := some out' } := by
  induction vs generalizing m out with
  | nil =>
    have hself : { m with dataOut := some out } = m := by rw [← hout]
    constructor
    · intro h
      cases h
      exact ⟨by simp, out, rfl, hself.symm⟩
    · rintro ⟨-, out', hnil, rfl⟩
      cases hnil
      rw [hself]
      rfl
  | cons v vs ih =>
    rw [forM_cons_eq_ok]
    simp only [StreamValue.write_eq_ok hm, writing_eq_ok hm, openedOut_of_some hout, hout, flatMap_cons,
      forM_append_eq_ok, forall_mem_cons]
    constructor
    · rintro ⟨t, ⟨hv, o, o', rfl', hone, rfl⟩, hrest⟩
      cases rfl'
      obtain ⟨hvs, out', hmore, rfl⟩ := (ih (m := { m with dataOut := some o' }) hm rfl).mp hrest
      exact ⟨⟨hv, hvs⟩, out', ⟨o', hone, hmore⟩, rfl⟩
    · rintro ⟨⟨hv, hvs⟩, out', ⟨o', hone, hmore⟩, rfl⟩
      refine ⟨{ m with dataOut := some o' }, ⟨hv, out, o', rfl, hone, rfl⟩, ?_⟩
      exact (ih (m := { m with dataOut := some o' }) hm rfl).mpr ⟨hvs, out', hmore, rfl⟩

theorem forM_write_openedOut (hvs : vs ≠ []) (hm : m.readOnlyBody = false) :
    vs.forM StreamValue.write m = .ok () m' ↔ vs.forM StreamValue.write m.openedOut = .ok () m' := by
  obtain ⟨out, hout⟩ := exists_dataOut_openedOut m
  have hopen : m.openedOut.readOnlyBody = false := by
    unfold openedOut
    split <;> exact hm
  cases vs with
  | nil => exact absurd rfl hvs
  | cons v vs =>
    simp only [forM_cons_eq_ok, StreamValue.write_eq_ok hm, StreamValue.write_eq_ok hopen, writing_eq_ok hm,
      writing_eq_ok hopen, openedOut_of_some hout]

def store (connection : Option Connection) (vs : List StreamValue) : EStateM.Result Failure (StreamMessage Z) Unit :=
  (do vs.forM StreamValue.write; reset) (new connection)

/-- What the byte array of a message receives for the values written to it. -/
def receivedFor (Z : Zip) (connection : Option Connection) (vs : List StreamValue) : List (List UInt8) :=
  BodyOut.received Z (connection.any Connection.useCompression) (vs.flatMap StreamValue.arrays)

def Storable (Z : Zip) (connection : Option Connection) (vs : List StreamValue) : Prop :=
  vs ≠ [] → ByteArrayOutputStream.Fits ((receivedFor Z connection vs).map List.length)

def stored (connection : Option Connection) (vs : List StreamValue) : StreamMessage Z :=
  { content := if vs = [] then [] else (receivedFor Z connection vs).flatten
    compressed := vs ≠ [] && connection.any Connection.useCompression
    readOnlyBody := true
    connection := connection }

theorem reset_eq_ok (hout : m.dataOut = some out) (hcontent : m.content = []) :
    reset m = .ok () m' ↔ ∃ out', close out = .ok () out' ∧
      m' = { m with content := out'.bytesOut.bytes, dataOut := none, dataIn := none, remainingBytes := -1,
                    readOnlyBody := true } := by
  rw [reset, mapError_eq_ok, bind_run, storeContent, hout]
  simp only
  cases hclose : close out with
  | error e out' => simp
  | ok u out' =>
    have hbytes : (if out'.bytesOut.bytes.length > 0 then out'.bytesOut.bytes else m.content)
        = out'.bytesOut.bytes := by
      split_ifs with hpos
      · rfl
      · have hnil : out'.bytesOut.bytes = [] := length_eq_zero_iff.mp (by omega)
        rw [hcontent, hnil]
    simp only [hbytes, modify_run, EStateM.Result.ok.injEq, true_and, exists_eq_left', eq_comm]

/-- Storing returns exactly when no array is refused and the byte array can hold the values. -/
theorem store_eq_ok {connection : Option Connection} : store connection vs = .ok () m ↔
      (∀ v ∈ vs, v.Writable) ∧ Storable Z connection vs ∧ m = stored connection vs := by
  rw [store, bind_eq_ok]
  by_cases hvs : vs = []
  · subst hvs
    constructor
    · rintro ⟨⟨⟩, t, hnil, hreset⟩
      cases hnil
      cases hreset
      exact ⟨by simp, fun h => absurd rfl h, rfl⟩
    · rintro ⟨-, -, rfl⟩
      exact ⟨(), _, rfl, rfl⟩
  · have hopen : (new connection : StreamMessage Z).openedOut
        = { connection := connection, compressed := connection.any Connection.useCompression,
            dataOut := some (fresh (connection.any Connection.useCompression)) } := rfl
    have hclosed := @write_close_iff Z (connection.any Connection.useCompression)
      (vs.flatMap StreamValue.arrays)
    constructor
    · rintro ⟨⟨⟩, t, hwrites, hreset⟩
      rw [forM_write_openedOut hvs rfl, hopen, forM_write_eq_ok rfl rfl] at hwrites
      obtain ⟨hwritable, out, hout, rfl⟩ := hwrites
      obtain ⟨out', hclose, rfl⟩ := (reset_eq_ok rfl rfl).mp hreset
      obtain ⟨hfits, hbytes⟩ := hclosed.mp ⟨out, out', hout, hclose, rfl⟩
      refine ⟨hwritable, fun _ => hfits, ?_⟩
      simp only [stored, if_false, receivedFor, ← hbytes, hvs, ne_eq, not_false_eq_true, decide_true, Bool.true_and]
    · rintro ⟨hwritable, hfits, rfl⟩
      obtain ⟨out, out', hout, hclose, hbytes⟩ := hclosed.mpr ⟨hfits hvs, rfl⟩
      refine ⟨(), { connection := connection, compressed := connection.any Connection.useCompression,
                    dataOut := some out }, ?_, ?_⟩
      · rw [forM_write_openedOut hvs rfl, hopen, forM_write_eq_ok rfl rfl]
        exact ⟨hwritable, out, hout, rfl⟩
      · refine (reset_eq_ok rfl rfl).mpr ⟨out', hclose, ?_⟩
        simp only [stored, if_false, receivedFor, hbytes, hvs, ne_eq, not_false_eq_true, decide_true, Bool.true_and]

theorem opened_stored (hZ : Z.Lossless) (connection : Option Connection) (vs : List StreamValue) :
    (stored connection vs : StreamMessage Z).opened = some (vs.flatMap StreamValue.encoding) := by
  have hflatten : (vs.flatMap StreamValue.arrays).flatten = vs.flatMap StreamValue.encoding := by
    induction vs with
    | nil => rfl
    | cons v vs ih => rw [flatMap_cons, flatMap_cons, flatten_append, ih, StreamValue.encoding]
  by_cases hvs : vs = []
  · subst hvs
    rfl
  · rw [← hflatten]
    cases huse : connection.any Connection.useCompression with
    | false => simp [opened, stored, receivedFor, received, huse, hvs]
    | true =>
      simp only [opened, stored, receivedFor, received, huse, hvs, ne_eq, not_false_eq_true, decide_true,
        Bool.and_true, if_true, if_false]
      exact hZ _

end StreamMessage

/-! ### The abstract cursor -/

inductive ReadOp where
  | boolean | byte | char | short | unsignedShort | int | long | float | double | string
  | bytes (length : Nat)
  deriving DecidableEq

/-- What a read returns: a value, the result and the bytes of a `readBytes`, the end of the stream, or
another exception. -/
inductive ReadResult where
  | value (v : StreamValue)
  | piece (result : Int) (bytes : ByteString)
  | eof
  | failed (e : Failure)
  deriving DecidableEq

/-- The read that matches a value; a byte array is read by `readBytes` alone. -/
def ReadOp.accepts : ReadOp → StreamValue → Prop
  | .boolean, .boolean _ => True
  | .byte, .byte _ => True
  | .char, .char _ => True
  | .short, .short _ => True
  | .unsignedShort, .unsignedShort _ => True
  | .int, .int _ => True
  | .long, .long _ => True
  | .float, .float _ => True
  | .double, .double _ => True
  | .string, .string _ => True
  | _, _ => False

def ReadOp.isBytes : ReadOp → Bool
  | .bytes _ => true
  | _ => false

/-- The values still to be read and what is left of the byte array whose reading has begun. -/
structure Cursor where
  values : List StreamValue
  array : Option ByteString

namespace Cursor

/-- A read that matches what comes next. A byte array that has been read to its end is closed by the
`readBytes` that returns -1; a read of another type need not wait for it. -/
inductive Step : Cursor → ReadOp → ReadResult → Cursor → Prop
  | value {op : ReadOp} {v : StreamValue} {vs : List StreamValue} {array : Option ByteString}
      (haccepts : op.accepts v) (harray : array = none ∨ array = some []) :
      Step ⟨v :: vs, array⟩ op (.value v) ⟨vs, array⟩
  | eof {op : ReadOp} {array : Option ByteString}
      (harray : array = none ∨ array = some [] ∧ op.isBytes = false) : Step ⟨[], array⟩ op .eof ⟨[], array⟩
  | first {length : Nat} {bytes : ByteString} {vs : List StreamValue} (hlength : length < 2147483648) :
      Step ⟨.bytes bytes :: vs, none⟩ (.bytes length) (.piece (bytes.take length).length (bytes.take length))
        ⟨vs, some (bytes.drop length)⟩
  | next {length : Nat} {bytes : ByteString} {vs : List StreamValue} (hlength : length < 2147483648)
      (hbytes : bytes ≠ []) :
      Step ⟨vs, some bytes⟩ (.bytes length) (.piece (bytes.take length).length (bytes.take length))
        ⟨vs, some (bytes.drop length)⟩
  | done {length : Nat} {vs : List StreamValue} (hlength : length < 2147483648) :
      Step ⟨vs, some []⟩ (.bytes length) (.piece (-1) []) ⟨vs, none⟩

inductive Run : Cursor → List ReadOp → List ReadResult → Prop
  | nil {c : Cursor} : Run c [] []
  | cons {c c' : Cursor} {op : ReadOp} {result : ReadResult} {ops : List ReadOp} {results : List ReadResult}
      (hstep : Step c op result c') (hrun : Run c' ops results) : Run c (op :: ops) (result :: results)

end Cursor

/-! ### Reading -/

section Reading

variable {Z : Zip} (C : Conversions)
variable {α : Type} {read : DataIn α} {bytes rest input tail : List UInt8} {a : α} {value text : ByteString}
  {m : StreamMessage Z} {op : ReadOp} {v : StreamValue} {c : Cursor} {vs : List StreamValue} {most : Nat}
variable {texts : ReadTexts} {table : PrimitiveType → Option (DataIn α)} {n : Int} {c' : Cursor} {result : ReadResult}
  {type : PrimitiveType}

/-- How a call ends, and the message it leaves behind. -/
def ReadResult.ofCall {α : Type} (f : α → ReadResult) :
    EStateM.Result Failure (StreamMessage Z) α → ReadResult × StreamMessage Z
  | .ok a m => (f a, m)
  | .error (.thrown (.cms .messageEOFException) _) m => (.eof, m)
  | .error e m => (.failed e, m)

def ReadOp.run : ReadOp → StreamMessage Z → ReadResult × StreamMessage Z
  | .boolean, m => ReadResult.ofCall (fun b => .value (.boolean b)) (StreamMessage.readBoolean C m)
  | .byte, m => ReadResult.ofCall (fun b => .value (.byte b)) (StreamMessage.readByte m)
  | .char, m => ReadResult.ofCall (fun c => .value (.char c)) (StreamMessage.readChar m)
  | .short, m => ReadResult.ofCall (fun v => .value (.short v)) (StreamMessage.readShort m)
  | .unsignedShort, m => ReadResult.ofCall (fun v => .value (.unsignedShort v)) (StreamMessage.readUnsignedShort m)
  | .int, m => ReadResult.ofCall (fun v => .value (.int v)) (StreamMessage.readInt m)
  | .long, m => ReadResult.ofCall (fun v => .value (.long v)) (StreamMessage.readLong m)
  | .float, m => ReadResult.ofCall (fun v => .value (.float v)) (StreamMessage.readFloat C m)
  | .double, m => ReadResult.ofCall (fun v => .value (.double v)) (StreamMessage.readDouble C m)
  | .string, m => ReadResult.ofCall (fun s => .value (.string s)) (StreamMessage.readString C m)
  | .bytes length, m => ReadResult.ofCall (fun r => .piece r.1 r.2) (StreamMessage.readBytes length m)

def runAll : List ReadOp → StreamMessage Z → List ReadResult
  | [], _ => []
  | op :: ops, m => (op.run C m).1 :: runAll ops (op.run C m).2

/-- The writes return, and after the reset every matching sequence of reads returns what was written. -/
def RoundTrips (Z : Zip) (connection : Option Connection) (vs : List StreamValue) : Prop :=
  ∃ m : StreamMessage Z, StreamMessage.store connection vs = .ok () m ∧
    ∀ ops results, Cursor.Run ⟨vs, none⟩ ops results → runAll C ops m = results

/-- The bytes behind the reading position. -/
def StreamMessage.position (m : StreamMessage Z) : Option (List UInt8) := m.dataIn.getD m.opened

/-- The message stands where the cursor stands. -/
structure Agrees (c : Cursor) (m : StreamMessage Z) : Prop where
  readOnly : m.readOnlyBody = true
  position : m.position = some (c.array.getD [] ++ c.values.flatMap StreamValue.encoding)
  remaining : m.remainingBytes = (c.array.map fun bytes => (bytes.length : Int)).getD (-1)

namespace StreamMessage

variable {m : StreamMessage Z} {input : List UInt8} {α : Type}

theorem initializeReading_run (hread : m.readOnlyBody = true) (hpos : m.position = some input) :
    initializeReading m = .ok () { m with dataIn := some (some input) } := by
  rw [initializeReading, bind_ok (get_run _), if_neg (by simp [hread])]
  unfold position at hpos
  cases hin : m.dataIn with
  | none =>
    rw [hin, Option.getD_none] at hpos
    rw [if_pos rfl, set_run, hpos]
  | some opened =>
    rw [hin, Option.getD_some] at hpos
    subst hpos
    rw [if_neg (by simp), pure_run, ← hin]

theorem onDataIn_run (read : DataIn α) (m : StreamMessage Z) (input : List UInt8) :
    onDataIn read { m with dataIn := some (some input) } = match read input with
      | .ok a rest => .ok a { m with dataIn := some (some rest) }
      | .error e rest => .error e { m with dataIn := some (some rest) } := by
  cases hread : read input <;> simp only [onDataIn, hread]

theorem reading_run {read : DataIn α} (hread : m.readOnlyBody = true) (hpos : m.position = some input) :
    reading read m = match read input with
      | .ok a rest => .ok a { m with dataIn := some (some rest) }
      | .error e rest => .error e { m with dataIn := some (some rest) } := by
  rw [reading, bind_ok (initializeReading_run hread hpos), onDataIn_run]

end StreamMessage

theorem ofByte?_toByte (type : PrimitiveType) : PrimitiveType.ofByte? type.toByte = some type := by
  cases type <;> rfl

theorem parses_readTyped (type : PrimitiveType) (htable : table type = some read)
    (h : Parses read bytes a) : Parses (readTyped texts table) (type.toByte :: bytes) a := by
  intro rest
  rw [cons_append, readTyped, ofByte?_toByte, Option.bind_some, htable]
  simp only [h rest]

theorem parses_readStringBytes (hn : n = value.length) : Parses (readStringBytes n) value value := by
  unfold readStringBytes
  by_cases hpos : n > 0
  · rw [if_pos hpos]
    exact parses_readFully hn
  · have hnil : value = [] := length_eq_zero_iff.mp (by omega)
    rw [if_neg hpos, hnil]
    exact Parses.pure []

theorem encoding_string_eq (value : ByteString) : (StreamValue.string value).encoding
      = if toInt32 value.length ≤ 8191 then
          PrimitiveType.string.toByte ::
            (bytesBE (BitVec.ofInt 16 (toInt32 value.length)) 2 ++ value.take (toInt32 value.length).toNat)
        else
          PrimitiveType.bigString.toByte ::
            (bytesBE (BitVec.ofInt 32 (toInt32 value.length)) 4 ++ value.take (toInt32 value.length).toNat) := by
  rw [StreamValue.encoding, StreamValue.arrays]
  generalize toInt32 value.length = size
  split_ifs <;> simp

theorem encoding_bytes_eq (value : ByteString) :
    (StreamValue.bytes value).encoding = PrimitiveType.byteArray.toByte ::
      (bytesBE (BitVec.ofInt 32 (toInt32 value.length)) 4 ++ value.take (toInt32 value.length).toNat) := by
  rw [StreamValue.encoding, StreamValue.arrays]
  generalize toInt32 value.length = size
  simp

theorem encoding_string (h : value.length < 2147483648) : (StreamValue.string value).encoding
      = if value.length ≤ 8191 then
          PrimitiveType.string.toByte :: (bytesBE (BitVec.ofInt 16 value.length) 2 ++ value)
        else PrimitiveType.bigString.toByte :: (bytesBE (BitVec.ofInt 32 value.length) 4 ++ value) := by
  have hsize : toInt32 value.length = value.length := toInt32_of_range (by omega) (by omega)
  rw [encoding_string_eq, hsize, Int.toNat_natCast, take_length]
  by_cases hshort : value.length ≤ 8191
  · rw [if_pos hshort, if_pos (by omega)]
  · rw [if_neg hshort, if_neg (by omega)]

theorem encoding_bytes (h : value.length < 2147483648) : (StreamValue.bytes value).encoding
      = PrimitiveType.byteArray.toByte :: (bytesBE (BitVec.ofInt 32 value.length) 4 ++ value) := by
  have hsize : toInt32 value.length = value.length := toInt32_of_range (by omega) (by omega)
  rw [encoding_bytes_eq, hsize, Int.toNat_natCast, take_length]

theorem toInt_ofInt_length {w : Nat} {n : Nat} (h : (n : Int) < 2 ^ (w - 1)) (hw : 0 < w) :
    (BitVec.ofInt w n).toInt = n := by
  rw [BitVec.toInt_ofInt]
  refine Int.bmod_eq_of_le ?_ ?_
  · have : (0 : Int) ≤ ((2 ^ w : Nat) : Int) / 2 := by positivity
    omega
  · obtain ⟨k, rfl⟩ : ∃ k, w = k + 1 := ⟨w - 1, by omega⟩
    rw [Nat.add_sub_cancel] at h
    push_cast
    rw [pow_succ]
    omega

theorem parses_string (h : value.length < 2147483648) :
    Parses (Read.string C) (StreamValue.string value).encoding value := by
  rw [encoding_string h]
  split_ifs with hshort
  · refine parses_readTyped .string rfl (Parses.mapError ?_)
    refine (parses_readShort _).bind (parses_readStringBytes ?_)
    exact toInt_ofInt_length (by norm_num; omega) (by decide)
  · refine parses_readTyped .bigString rfl (Parses.mapError ?_)
    refine (parses_readInt _).bind (parses_readStringBytes ?_)
    exact toInt_ofInt_length (by norm_num; omega) (by decide)

theorem ofCall_reading (f : α → ReadResult) (hparses : Parses read bytes a) (hread : m.readOnlyBody = true)
    (hpos : m.position = some (bytes ++ rest)) :
    ReadResult.ofCall f (reading read m) = (f a, { m with dataIn := some (some rest) }) := by
  rw [reading_run hread hpos, hparses rest]
  rfl

theorem run_value (haccepts : op.accepts v) (hshort : v.Short) (hread : m.readOnlyBody = true)
    (hpos : m.position = some (v.encoding ++ rest)) :
    op.run C m = (.value v, { m with dataIn := some (some rest) }) := by
  have hcall : ∀ {α : Type} (read : DataIn α) (a : α) (f : α → ReadResult), Parses read v.encoding a →
      ReadResult.ofCall f (reading read m) = (f a, { m with dataIn := some (some rest) }) :=
    fun _ _ f hparses => ofCall_reading f hparses hread hpos
  cases op <;> cases v <;> try cases haccepts
  · exact hcall _ _ _ (parses_readTyped .boolean rfl (parses_readBoolean _))
  · exact hcall _ _ _ (parses_readTyped .byte rfl (parses_readByte _))
  · exact hcall _ _ _ (parses_readTyped .char rfl (parses_readChar _))
  · exact hcall _ _ _ (parses_readTyped .short rfl (parses_readShort _))
  · exact hcall _ _ _ (parses_readTyped .short rfl (parses_readUnsignedShort _))
  · exact hcall _ _ _ (parses_readTyped .integer rfl (parses_readInt _))
  · exact hcall _ _ _ (parses_readTyped .long rfl (parses_readLong _))
  · exact hcall _ _ _ (parses_readTyped .float rfl (parses_readFloat _))
  · exact hcall _ _ _ (parses_readTyped .double rfl (parses_readDouble _))
  · exact hcall _ _ _ (parses_string C hshort)

theorem run_eof (hread : m.readOnlyBody = true) (hpos : m.position = some [])
    (hop : op.isBytes = false ∨ m.remainingBytes = -1) :
    op.run C m = (.eof, { m with dataIn := some (some []) }) := by
  have hcall : ∀ {α : Type} (texts : ReadTexts) (table : PrimitiveType → Option (DataIn α)) (f : α → ReadResult),
      ReadResult.ofCall f (reading (readTyped texts table) m)
        = (.eof, { m with dataIn := some (some []) }) := by
    intro α texts table f
    rw [reading_run hread hpos]
    rfl
  cases op with
  | bytes length =>
    have hremaining : m.remainingBytes = -1 := hop.resolve_left (by simp [ReadOp.isBytes])
    rw [ReadOp.run, readBytes, bind_ok (initializeReading_run hread hpos)]
    simp only [mapError, bind_run, get_run, hremaining, if_true, onDataIn,
      readArrayHeader]
    rfl
  | _ => exact hcall _ _ _

theorem readPiece_run (m : StreamMessage Z) (bytes rest : List UInt8) (length : Nat) : readPiece length
        { m with dataIn := some (some (bytes ++ rest)), remainingBytes := bytes.length }
      = .ok (((bytes.take length).length : Int), bytes.take length)
          { m with dataIn := some (some (bytes.drop length ++ rest)), remainingBytes := (bytes.drop length).length } := by
  rw [readPiece, bind_ok (get_run _)]
  simp only
  by_cases hsmall : (length : Int) ≤ bytes.length
  · have hle : length ≤ bytes.length := by omega
    have hfull : readFully length (bytes ++ rest)
        = .ok (bytes.take length) (bytes.drop length ++ rest) := by
      have hsplit : bytes ++ rest = bytes.take length ++ (bytes.drop length ++ rest) := by
        rw [← append_assoc, take_append_drop]
      rw [hsplit]
      exact parses_readFully (by rw [length_take, Nat.min_eq_left hle]) _
    rw [if_pos hsmall]
    simp only [bind_run, set_run, onDataIn, hfull, pure_run, length_take, length_drop,
      Nat.min_eq_left hle, Int.ofNat_sub hle]
  · have hle : bytes.length ≤ length := by omega
    rw [if_neg hsmall]
    simp only [bind_run, onDataIn, StreamMessage.readArray]
    rw [take_of_length_le hle, drop_of_length_le hle]
    by_cases hzero : (bytes.length : Int) = 0
    · have hnil : bytes = [] := length_eq_zero_iff.mp (by omega)
      subst hnil
      rfl
    · have hne : bytes ++ rest ≠ [] := by
        intro h
        have := congrArg List.length h
        rw [length_append, length_nil] at this
        omega
      rw [if_neg hzero, if_neg (by omega), if_neg hne, Int.toNat_natCast, take_left, drop_left]
      rfl

theorem readArrayHeader_run (size : BitVec 32) (rest : List UInt8) :
    readArrayHeader (PrimitiveType.byteArray.toByte :: (bytesBE size 4 ++ rest)) = .ok size.toInt rest := by
  rw [readArrayHeader, if_neg (by simp), bind_ok (parses_readInt _ _), pure_run]

theorem run_first (length : Nat) (hread : m.readOnlyBody = true)
    (hshort : bytes.length < 2147483648) (hpos : m.position = some ((StreamValue.bytes bytes).encoding ++ rest))
    (hremaining : m.remainingBytes = -1) :
    (ReadOp.bytes length).run C m = (.piece (bytes.take length).length (bytes.take length),
      { m with dataIn := some (some (bytes.drop length ++ rest)), remainingBytes := (bytes.drop length).length }) := by
  have hsize : (BitVec.ofInt 32 bytes.length).toInt = bytes.length :=
    toInt_ofInt_length (by norm_num; omega) (by decide)
  have hheader := readArrayHeader_run (BitVec.ofInt 32 bytes.length) (bytes ++ rest)
  rw [hsize] at hheader
  rw [encoding_bytes hshort, cons_append, append_assoc] at hpos
  rw [ReadOp.run, readBytes, bind_ok (initializeReading_run hread hpos)]
  simp only [mapError, bind_run, get_run, hremaining, if_true, onDataIn, hheader, modify_run]
  rw [readPiece_run]
  rfl

theorem run_next {length : Nat} (hread : m.readOnlyBody = true)
    (hbytes : bytes ≠ []) (hpos : m.position = some (bytes ++ rest)) (hremaining : m.remainingBytes = bytes.length) :
    (ReadOp.bytes length).run C m = (.piece (bytes.take length).length (bytes.take length),
      { m with dataIn := some (some (bytes.drop length ++ rest)), remainingBytes := (bytes.drop length).length }) := by
  have hlength := length_pos_of_ne_nil hbytes
  rw [ReadOp.run, readBytes, bind_ok (initializeReading_run hread hpos)]
  simp only [mapError, bind_run, get_run, hremaining]
  rw [if_neg (by omega), if_neg (by omega), readPiece_run]
  rfl

theorem run_done (m : StreamMessage Z) (rest : List UInt8) (length : Nat) (hread : m.readOnlyBody = true)
    (hpos : m.position = some rest) (hremaining : m.remainingBytes = 0) :
    (ReadOp.bytes length).run C m
      = (.piece (-1) [], { m with dataIn := some (some rest), remainingBytes := -1 }) := by
  rw [ReadOp.run, readBytes, bind_ok (initializeReading_run hread hpos)]
  simp only [mapError, bind_run, get_run, hremaining]
  rfl

/-! ### The message refines the cursor -/

theorem agrees_step (hshort : ∀ v ∈ c.values, v.Short) (hstep : Cursor.Step c op result c') (h : Agrees c m) :
    ∃ m' : StreamMessage Z, op.run C m = (result, m') ∧ Agrees c' m' := by
  obtain ⟨hread, hpos, hremaining⟩ := h
  cases hstep with
  | value haccepts harray =>
    rename_i v vs array
    have hnil : array.getD [] = [] := by
      rcases harray with rfl | rfl <;> rfl
    simp only [hnil, nil_append, flatMap_cons] at hpos
    refine ⟨_, run_value C haccepts (hshort v mem_cons_self) hread hpos, hread, ?_, hremaining⟩
    simp only [hnil, nil_append]
    rfl
  | eof harray =>
    rename_i array
    have hnil : array.getD [] = [] := by
      rcases harray with rfl | ⟨rfl, -⟩ <;> rfl
    simp only [hnil, nil_append, flatMap_nil] at hpos
    refine ⟨_, run_eof C hread hpos ?_, hread, ?_, hremaining⟩
    · rcases harray with rfl | ⟨-, hop⟩
      · exact Or.inr hremaining
      · exact Or.inl hop
    · simp only [hnil, nil_append, flatMap_nil]
      rfl
  | first hlength =>
    rename_i length bytes vs
    simp only [Option.getD_none, nil_append, flatMap_cons] at hpos
    exact ⟨_, run_first C _ hread (hshort _ mem_cons_self) hpos hremaining, hread, rfl, rfl⟩
  | next hlength hbytes => exact ⟨_, run_next C hread hbytes hpos hremaining, hread, rfl, rfl⟩
  | done hlength => exact ⟨_, run_done C m _ _ hread hpos hremaining, hread, rfl, rfl⟩

theorem Cursor.Step.values_subset (h : Cursor.Step c op result c') : ∀ v ∈ c'.values, v ∈ c.values := by
  intro v hv
  cases h with
  | value haccepts harray => exact mem_cons_of_mem _ hv
  | first hlength => exact mem_cons_of_mem _ hv
  | _ => exact hv

theorem agrees_run {ops : List ReadOp} {results : List ReadResult}
    (hshort : ∀ v ∈ c.values, v.Short) (hrun : Cursor.Run c ops results) (h : Agrees c m) :
    runAll C ops m = results := by
  induction hrun generalizing m with
  | nil => rfl
  | cons hstep hrun ih =>
    obtain ⟨m', hone, hagrees⟩ := agrees_step C hshort hstep h
    rw [runAll, hone, ih (fun v hv => hshort v (hstep.values_subset v hv)) hagrees]

theorem agrees_stored (hZ : Z.Lossless) (connection : Option Connection) (vs : List StreamValue) :
    Agrees ⟨vs, none⟩ (stored connection vs : StreamMessage Z) :=
  ⟨rfl, opened_stored hZ connection vs, rfl⟩

/-! ### Texts and arrays that are too long -/

theorem StreamValue.Short.writable (h : v.Short) : v.Writable := by
  cases v with
  | bytes value =>
    have hvalue : value.length < 2147483648 := h
    show 0 ≤ toInt32 value.length
    rw [toInt32_of_range (by omega) (by omega)]
    omega
  | _ => exact trivial

theorem Agrees.position_cons
    (h : Agrees ⟨v :: vs, none⟩ m) : m.position = some (v.encoding ++ vs.flatMap StreamValue.encoding) := by
  rw [h.position, flatMap_cons, Option.getD_none, nil_append]

theorem length_of_readStringBytes
    (h : readStringBytes n input = .ok text rest) (hn : n < 2147483648) : text.length < 2147483648 := by
  unfold readStringBytes at h
  split_ifs at h with hpos
  · rw [readFully] at h
    split_ifs at h with hzero hneg hle
    · cases h
      rw [length_nil]
      omega
    · cases h
      rw [length_take]
      omega
  · cases h
    rw [length_nil]
    omega

theorem length_of_readString16 (h : readString16 input = .ok text rest) : text.length < 2147483648 := by
  rw [readString16, mapError_eq_ok, bind_eq_ok] at h
  obtain ⟨size, s, -, hbytes⟩ := h
  have hsize := @BitVec.toInt_lt 16 size
  exact length_of_readStringBytes hbytes (by norm_num at hsize; omega)

theorem length_of_readString32 (h : readString32 input = .ok text rest) : text.length < 2147483648 := by
  rw [readString32, mapError_eq_ok, bind_eq_ok] at h
  obtain ⟨size, s, -, hbytes⟩ := h
  have hsize := @BitVec.toInt_lt 32 size
  exact length_of_readStringBytes hbytes (by norm_num at hsize; omega)

theorem exists_ok_of_ofCall {f : α → ReadResult} {r : EStateM.Result Failure (StreamMessage Z) α}
    (h : (ReadResult.ofCall f r).1 = .value v) : ∃ a m, r = .ok a m ∧ f a = .value v := by
  cases r with
  | ok a m => exact ⟨a, m, rfl, h⟩
  | error e m =>
    unfold ReadResult.ofCall at h
    split at h
    · rename_i heq
      cases heq
    · cases h
    · cases h

theorem readTyped_type (htable : table type = some read)
    (h : readTyped texts table (type.toByte :: input) = .ok a rest) : read input = .ok a rest := by
  rw [readTyped, ofByte?_toByte, Option.bind_some, htable] at h
  simp only at h
  split at h
  · rename_i hread
    rw [hread, h]
  · cases h
  · cases h

theorem encoding_string_cases (value : ByteString) :
    ∃ tail, (StreamValue.string value).encoding = PrimitiveType.string.toByte :: tail ∨
      (StreamValue.string value).encoding = PrimitiveType.bigString.toByte :: tail := by
  rw [encoding_string_eq]
  generalize toInt32 value.length = size
  split_ifs
  · exact ⟨_, Or.inl rfl⟩
  · exact ⟨_, Or.inr rfl⟩

theorem run_string_type {read : DataIn ByteString}
    (hread : m.readOnlyBody = true) (hpos : m.position = some (type.toByte :: tail))
    (htype : ∀ rest, Read.string C (type.toByte :: tail) = .ok text rest → read tail = .ok text rest)
    (hrun : (ReadOp.string.run C m).1 = .value (.string text)) : ∃ rest, read tail = .ok text rest := by
  obtain ⟨text', m', hok, htext⟩ := exists_ok_of_ofCall hrun
  obtain rfl : text' = text := by simpa using htext
  rw [readString, reading_run hread hpos] at hok
  split at hok
  · rename_i hresult
    cases hok
    exact ⟨_, htype _ hresult⟩
  · cases hok

theorem string_of_string
    (h : Read.string C (PrimitiveType.string.toByte :: tail) = .ok text rest) : readString16 tail = .ok text rest :=
  readTyped_type rfl h

theorem string_of_bigString
    (h : Read.string C (PrimitiveType.bigString.toByte :: tail) = .ok text rest) : readString32 tail = .ok text rest :=
  readTyped_type rfl h

theorem length_of_run_string
    (h : Agrees ⟨.string value :: vs, none⟩ m) (hrun : (ReadOp.string.run C m).1 = .value (.string text)) :
    text.length < 2147483648 := by
  have hpos := h.position_cons
  obtain ⟨tail, hstring | hbig⟩ := encoding_string_cases value
  · rw [hstring, cons_append] at hpos
    obtain ⟨rest, htail⟩ := run_string_type C h.readOnly hpos (fun rest => string_of_string C) hrun
    exact length_of_readString16 htail
  · rw [hbig, cons_append] at hpos
    obtain ⟨rest, htail⟩ := run_string_type C h.readOnly hpos (fun rest => string_of_bigString C) hrun
    exact length_of_readString32 htail

theorem run_bytes_long (h : Agrees ⟨.bytes value :: vs, none⟩ m) (hwritable : (StreamValue.bytes value).Writable)
    (hmost : most + 1 = 2147483648) (hlong : ¬ value.length < 2147483648) :
    runAll C [.bytes most, .bytes 1] m
      ≠ [.piece (value.take most).length (value.take most),
         .piece ((value.drop most).take 1).length ((value.drop most).take 1)] := by
  have hpos : 0 ≤ toInt32 value.length := hwritable
  have hlt := toInt32_lt value.length
  obtain ⟨k, hk⟩ : ∃ k : Nat, toInt32 value.length = k := ⟨_, (Int.toNat_of_nonneg hpos).symm⟩
  have hkle : k ≤ value.length := by
    have := toInt32_le (Int.natCast_nonneg value.length)
    omega
  have hlength : (value.take k).length = k := by rw [length_take, Nat.min_eq_left hkle]
  have hencoding : (StreamValue.bytes value).encoding = (StreamValue.bytes (value.take k)).encoding := by
    rw [encoding_bytes_eq value, hk, Int.toNat_natCast, encoding_bytes (by omega), hlength]
  have hposition := h.position_cons
  rw [hencoding] at hposition
  intro hrun
  rw [runAll, run_first C _ h.readOnly (by omega) hposition h.remaining] at hrun
  obtain ⟨hfirst, hrest⟩ := List.cons.inj hrun
  injection hfirst with hcount _
  have hfull : k = most := by
    rw [length_take, hlength, length_take] at hcount
    omega
  have hnil : (value.take k).drop most = [] := drop_of_length_le (by omega)
  simp only [hnil] at hrest
  obtain ⟨hsecond, -⟩ := List.cons.inj hrest
  have hdone := run_done C
    { m with dataIn := some (some ([] ++ vs.flatMap StreamValue.encoding)), remainingBytes := 0 }
    (vs.flatMap StreamValue.encoding) 1 h.readOnly rfl rfl
  have hend := (congrArg Prod.fst hdone).symm.trans hsecond
  injection hend with hcount' _
  omega

/-- Reads that take one value: its own read, or a read of the whole array and the one that ends it. -/
def StreamValue.plan (most : Nat) : StreamValue → List ReadOp
  | .boolean _ => [.boolean]
  | .byte _ => [.byte]
  | .char _ => [.char]
  | .short _ => [.short]
  | .unsignedShort _ => [.unsignedShort]
  | .int _ => [.int]
  | .long _ => [.long]
  | .float _ => [.float]
  | .double _ => [.double]
  | .string _ => [.string]
  | .bytes _ => [.bytes most, .bytes most]

/-- The reads `plan` take the value in front, and the message then stands behind it. -/
def Taken (v : StreamValue) (vs : List StreamValue) (plan : List ReadOp) (m : StreamMessage Z) : Prop :=
  ∃ (m' : StreamMessage Z) (expected : List ReadResult), Agrees ⟨vs, none⟩ m' ∧
    (∀ ops, runAll C (plan ++ ops) m = expected ++ runAll C ops m') ∧
    ∀ ops results, Cursor.Run ⟨vs, none⟩ ops results → Cursor.Run ⟨v :: vs, none⟩ (plan ++ ops) (expected ++ results)

theorem taken_value (op : ReadOp)
    (h : Agrees ⟨v :: vs, none⟩ m) (haccepts : op.accepts v) (hshort : v.Short) : Taken C v vs [op] m := by
  have hrun := run_value C haccepts hshort h.readOnly h.position_cons
  refine ⟨{ m with dataIn := some (some (vs.flatMap StreamValue.encoding)) }, [.value v],
    ⟨h.readOnly, rfl, h.remaining⟩, ?_, ?_⟩
  · intro ops
    rw [singleton_append, singleton_append, runAll, hrun]
  · intro ops results hops
    exact .cons (.value haccepts (Or.inl rfl)) hops

theorem taken_bytes (hmost : most + 1 = 2147483648) (hshort : value.length < 2147483648)
    (h : Agrees ⟨.bytes value :: vs, none⟩ m) : Taken C (.bytes value) vs [.bytes most, .bytes most] m := by
  have hnil : value.drop most = [] := drop_of_length_le (by omega)
  have hfirst := run_first C most h.readOnly hshort h.position_cons h.remaining
  have hdone := run_done C
    { m with dataIn := some (some ([] ++ vs.flatMap StreamValue.encoding)), remainingBytes := 0 }
    (vs.flatMap StreamValue.encoding) most h.readOnly rfl rfl
  rw [hnil] at hfirst
  refine ⟨{ m with dataIn := some (some (vs.flatMap StreamValue.encoding)), remainingBytes := -1 },
    [.piece (value.take most).length (value.take most), .piece (-1) []], ⟨h.readOnly, rfl, rfl⟩, ?_, ?_⟩
  · intro ops
    show (ReadOp.run C (.bytes most) m).1 :: runAll C (.bytes most :: ops) (ReadOp.run C (.bytes most) m).2 = _
    rw [hfirst, runAll]
    simp only [length_nil, Int.natCast_zero]
    rw [hdone]
    rfl
  · intro ops results hops
    refine .cons (.first (by omega)) (.cons ?_ hops)
    rw [hnil]
    exact .done (by omega)

theorem taken_plan (hmost : most + 1 = 2147483648) (hshort : v.Short)
    (h : Agrees ⟨v :: vs, none⟩ m) : Taken C v vs (v.plan most) m := by
  cases v with
  | bytes value => exact taken_bytes C hmost hshort h
  | boolean value => exact taken_value C .boolean h trivial hshort
  | byte value => exact taken_value C .byte h trivial hshort
  | char value => exact taken_value C .char h trivial hshort
  | short value => exact taken_value C .short h trivial hshort
  | unsignedShort value => exact taken_value C .unsignedShort h trivial hshort
  | int value => exact taken_value C .int h trivial hshort
  | long value => exact taken_value C .long h trivial hshort
  | float bits => exact taken_value C .float h trivial hshort
  | double bits => exact taken_value C .double h trivial hshort
  | string value => exact taken_value C .string h trivial hshort

/-- A message that returns what was written holds no text or array that is too long. -/
theorem short_of_runs (hwritable : ∀ v ∈ vs, v.Writable) (h : Agrees ⟨vs, none⟩ m)
    (hruns : ∀ ops results, Cursor.Run ⟨vs, none⟩ ops results → runAll C ops m = results) : ∀ v ∈ vs, v.Short := by
  obtain ⟨most, hmost⟩ : ∃ most, most + 1 = 2147483648 := ⟨2147483647, rfl⟩
  induction vs generalizing m with
  | nil => simp
  | cons v vs ih =>
    rw [forall_mem_cons] at hwritable ⊢
    by_cases hshort : v.Short
    · obtain ⟨m', expected, hagrees, hmessage, hcursor⟩ := taken_plan C hmost hshort h
      refine ⟨hshort, ih hwritable.2 hagrees fun ops results hops => ?_⟩
      have hall := hruns _ _ (hcursor ops results hops)
      rw [hmessage ops] at hall
      exact append_cancel_left hall
    · exfalso
      cases v with
      | string value =>
        have hone := hruns [.string] [.value (.string value)]
          (.cons (.value (show ReadOp.string.accepts (.string value) from trivial) (Or.inl rfl)) .nil)
        exact hshort (length_of_run_string C h (List.cons.inj hone).1)
      | bytes value =>
        have hlong : ¬ value.length < 2147483648 := hshort
        have hleft : value.drop most ≠ [] := by
          intro hnil
          have := congrArg List.length hnil
          rw [length_drop, length_nil] at this
          omega
        refine run_bytes_long C h hwritable.1 hmost hlong (hruns _ _ ?_)
        exact .cons (.first (by omega)) (.cons (.next (by omega) hleft) .nil)
      | _ => exact hshort trivial

theorem short_of_roundTrips (hZ : Z.Lossless) {connection : Option Connection}
    (h : RoundTrips C Z connection vs) : ∀ v ∈ vs, v.Short := by
  obtain ⟨m, hstore, hruns⟩ := h
  obtain ⟨hwritable, -, rfl⟩ := store_eq_ok.mp hstore
  exact short_of_runs C hwritable (agrees_stored hZ connection vs) hruns

end Reading

/-- Conversions that no matching read uses. -/
def noConversions : Conversions where
  parseBoolean _ := false
  parseFloat _ := .error .undefined
  parseDouble _ := .error .undefined
  floatToString _ := []
  doubleToString _ := []
  floatToDouble _ := 0

end ActiveMQCpp.Commands
