import ActiveMQCpp.WireBooleanBits

/-! The string and long fields of `BaseDataStreamMarshaller`. The tight encoding runs in two phases over
a boolean stream: the first predicts the size of every field and records its shape in the stream, the
second writes the payload that the recorded shapes call for. -/

namespace ActiveMQCpp.Wire

open Codec Bytes MachineInt Decaf

/-- A boolean stream together with the data stream that is written or read beside it. -/
abbrev Tight := EStateM Failure (BooleanStream × List UInt8)

/-- One character of the scan in `tightMarshalString1`: `utflen` is an `int`, `c` a signed `char`. -/
def scanChar (acc : Int × Bool) (ch : UInt8) : Int × Bool :=
  let c := ch.toBitVec.toInt
  if c ≥ 0x0001 ∧ c ≤ 0x007F then (toInt32 (acc.1 + 1), acc.2)
  else if c > 0x07FF then (toInt32 (acc.1 + 3), false)
  else (toInt32 (acc.1 + 2), false)

def tightMarshalString1 (value : ByteString) : EStateM Failure BooleanStream Int :=
  mapError catchExceptionConvert do
    BooleanStream.writeBoolean (value != [])
    if value != [] then
      let (utflen, isOnlyAscii) := value.foldl scanChar (0, true)
      if utflen ≥ 0x10000 then
        throw (.thrown .ioException
          "BaseDataStreamMarshaller::tightMarshalString1 - Encountered a String value that is too long to encode.")
      else
        BooleanStream.writeBoolean isOnlyAscii
        pure (toInt32 (utflen + 2))
    else pure 0

def tightMarshalString2 (value : ByteString) : Tight Unit :=
  mapError catchExceptionConvert do
    let nonEmpty ← onFst BooleanStream.readBoolean
    if nonEmpty then
      let isOnlyAscii ← onFst BooleanStream.readBoolean
      if isOnlyAscii then
        onSnd (DataOutputStream.writeShort (BitVec.ofNat 16 value.length))
        onSnd (DataOutputStream.writeBytes value)
      else onSnd (DataOutputStream.writeUTF value)

def readAsciiString : DataIn ByteString :=
  mapError catchExceptionConvert do
    let size ← DataInputStream.readShort
    if size.toInt > 0 then DataInputStream.readFully size.toInt
    else pure []

def tightUnmarshalString : Tight ByteString :=
  mapError catchExceptionConvert do
    let nonEmpty ← onFst BooleanStream.readBoolean
    if nonEmpty then
      let isOnlyAscii ← onFst BooleanStream.readBoolean
      if isOnlyAscii then onSnd readAsciiString
      else onSnd DataInputStream.readUTF
    else pure []

def looseMarshalString (value : ByteString) : DataOut Unit :=
  mapError catchExceptionConvert do
    DataOutputStream.writeBoolean (value != [])
    if value != [] then DataOutputStream.writeUTF value

def looseUnmarshalString : DataIn ByteString :=
  mapError catchExceptionConvert do
    let nonEmpty ← DataInputStream.readBoolean
    if nonEmpty then DataInputStream.readUTF
    else pure []

def tightMarshalLong1 (value : BitVec 64) : EStateM Failure BooleanStream Int :=
  mapError catchExceptionConvert do
    if value = 0 then
      BooleanStream.writeBoolean false
      BooleanStream.writeBoolean false
      pure 0
    else if value &&& 0xFFFFFFFFFFFF0000#64 = 0 then
      BooleanStream.writeBoolean false
      BooleanStream.writeBoolean true
      pure 2
    else if value &&& 0xFFFFFFFF00000000#64 = 0 then
      BooleanStream.writeBoolean true
      BooleanStream.writeBoolean false
      pure 4
    else
      BooleanStream.writeBoolean true
      BooleanStream.writeBoolean true
      pure 8

def tightMarshalLong2 (value : BitVec 64) : Tight Unit :=
  mapError catchExceptionConvert do
    let wide ← onFst BooleanStream.readBoolean
    if wide then
      let full ← onFst BooleanStream.readBoolean
      if full then onSnd (DataOutputStream.writeLong value)
      else onSnd (DataOutputStream.writeInt (value.setWidth 32))
    else
      let short ← onFst BooleanStream.readBoolean
      if short then onSnd (DataOutputStream.writeShort (value.setWidth 16))

/-- The `int` and the `unsigned short` that the narrow forms read are zero-extended. -/
def tightUnmarshalLong : Tight (BitVec 64) :=
  mapError catchExceptionConvert do
    let wide ← onFst BooleanStream.readBoolean
    if wide then
      let full ← onFst BooleanStream.readBoolean
      if full then onSnd DataInputStream.readLong
      else
        let value ← onSnd DataInputStream.readInt
        pure (value.setWidth 64)
    else
      let short ← onFst BooleanStream.readBoolean
      if short then
        let value ← onSnd DataInputStream.readUnsignedShort
        pure (value.setWidth 64)
      else pure 0

def looseMarshalLong (value : BitVec 64) : DataOut Unit :=
  mapError catchExceptionConvert (DataOutputStream.writeLong value)

def looseUnmarshalLong : DataIn (BitVec 64) :=
  mapError catchExceptionConvert DataInputStream.readLong

/-! ### Lists of fields -/

inductive FieldType where
  | string
  | long
  deriving DecidableEq, Repr

inductive FieldValue where
  | string (value : ByteString)
  | long (value : BitVec 64)
  deriving DecidableEq

namespace FieldValue

def type : FieldValue → FieldType
  | string _ => .string
  | long _ => .long

def tightMarshal1 : FieldValue → EStateM Failure BooleanStream Int
  | string value => tightMarshalString1 value
  | long value => tightMarshalLong1 value

def tightMarshal2 : FieldValue → Tight Unit
  | string value => tightMarshalString2 value
  | long value => tightMarshalLong2 value

def looseMarshal : FieldValue → DataOut Unit
  | string value => looseMarshalString value
  | long value => looseMarshalLong value

end FieldValue

def FieldType.tightUnmarshal : FieldType → Tight FieldValue
  | .string => do
    let value ← tightUnmarshalString
    pure (.string value)
  | .long => do
    let value ← tightUnmarshalLong
    pure (.long value)

def FieldType.looseUnmarshal : FieldType → DataIn FieldValue
  | .string => do
    let value ← looseUnmarshalString
    pure (.string value)
  | .long => do
    let value ← looseUnmarshalLong
    pure (.long value)

/-- Phase one over a list, with the size predicted for every field. -/
def tightMarshalFields1 : List FieldValue → EStateM Failure BooleanStream (List Int)
  | [] => pure []
  | field :: fields => do
    let size ← field.tightMarshal1
    let sizes ← tightMarshalFields1 fields
    pure (size :: sizes)

def tightMarshalFields2 : List FieldValue → Tight Unit
  | [] => pure ()
  | field :: fields => do
    field.tightMarshal2
    tightMarshalFields2 fields

def tightUnmarshalFields : List FieldType → Tight (List FieldValue)
  | [] => pure []
  | type :: types => do
    let field ← type.tightUnmarshal
    let fields ← tightUnmarshalFields types
    pure (field :: fields)

def looseMarshalFields : List FieldValue → DataOut Unit
  | [] => pure ()
  | field :: fields => do
    field.looseMarshal
    looseMarshalFields fields

def looseUnmarshalFields : List FieldType → DataIn (List FieldValue)
  | [] => pure []
  | type :: types => do
    let field ← type.looseUnmarshal
    let fields ← looseUnmarshalFields types
    pure (field :: fields)

/-- The receiving side: the boolean stream first, then the fields. -/
def tightDecode (types : List FieldType) : Tight (List FieldValue) := do
  BooleanStream.unmarshal
  tightUnmarshalFields types

end ActiveMQCpp.Wire
