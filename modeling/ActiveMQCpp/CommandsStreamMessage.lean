import ActiveMQCpp.CommandsBody
import ActiveMQCpp.DecafInteger
import ActiveMQCpp.WirePrimitive

/-! `ActiveMQStreamMessage`: a body of typed values. Every value is preceded by the byte of its type, and
a read accepts its own type and some it can convert from. A byte array is read piece by piece;
`remainingBytes` counts what is left of it. -/

namespace ActiveMQCpp.Commands

open Codec MachineInt Decaf Wire

/-! ### Reading one value -/

/-- The conversions of `decaf::lang` that take part in a read of another type and are not modelled:
text to booleans and floating point numbers and back, and `float` to `double`. -/
structure Conversions where
  parseBoolean : ByteString → Bool
  parseFloat : ByteString → Except Failure (BitVec 32)
  parseDouble : ByteString → Except Failure (BitVec 64)
  floatToString : BitVec 32 → ByteString
  doubleToString : BitVec 64 → ByteString
  floatToDouble : BitVec 32 → BitVec 64

/-- The `catch` clauses of the read functions behind the one for `NumberFormatException`. -/
def catchRead : Failure → Failure
  | .thrown type message =>
    if type = .eofException then .thrown (.cms .messageEOFException) message
    else if type.isIOException then .thrown (.cms .messageFormatException) message
    else if type.isException then .thrown (.cms .cmsException) message
    else .thrown type message
  | .undefined => .undefined

/-- The texts of a read function and the class that a number in a wrong format is reported as. -/
structure ReadTexts where
  eof : String := "reached end of data"
  null : String
  format : String
  numberFormat : CMSExceptionType := .cmsException

/-- A read: the type byte, then what `table` says for it. The stream is set back to the type byte when
the type does not fit and when a text is no number. -/
def readTyped {α : Type} (texts : ReadTexts) (table : PrimitiveType → Option (DataIn α)) : DataIn α := fun input =>
  match input with
  | [] => .error (.thrown (.cms .messageEOFException) texts.eof) []
  | type :: rest =>
    match (PrimitiveType.ofByte? type).bind table with
    | some read =>
      match read rest with
      | .ok a s => .ok a s
      | .error (.thrown .numberFormatException message) _ =>
        .error (.thrown (.cms texts.numberFormat) message) input
      | .error e s => .error (catchRead e) s
    | none =>
      if type = PrimitiveType.null.toByte then .error (.thrown (.cms .cmsException) texts.null) input
      else .error (.thrown (.cms .messageFormatException) texts.format) input

def parsed {α : Type} (parse : ByteString → Except Failure α) : DataIn α := do
  let text ← DataInputStream.readUTF
  match parse text with
  | .ok a => pure a
  | .error e => throw e

def readStringBytes (utfLength : Int) : DataIn ByteString :=
  if utfLength > 0 then DataInputStream.readFully utfLength else pure []

def readString16 : DataIn ByteString :=
  mapError catchExceptionConvert do
    let utfLength ← DataInputStream.readShort
    readStringBytes utfLength.toInt

def readString32 : DataIn ByteString :=
  mapError catchExceptionConvert do
    let utfLength ← DataInputStream.readInt
    readStringBytes utfLength.toInt

namespace Read

open DataInputStream

variable (C : Conversions)

def boolean : DataIn Bool :=
  readTyped ⟨"Reached the end of the Stream", "Cannot convert NULL value to boolean.", "not a boolean type",
      .cmsException⟩ fun
    | .boolean => some readBoolean
    | .string => some (parsed fun text => .ok (C.parseBoolean text))
    | _ => none

def byte : DataIn UInt8 :=
  readTyped ⟨"reached end of data", "Cannot convert NULL value to byte.", " not a byte type",
      .messageFormatException⟩ fun
    | .byte => some readByte
    | .string => some (parsed Byte.parseByte)
    | _ => none

def char : DataIn UInt8 :=
  readTyped ⟨"reached end of data", "Cannot convert NULL value to char.", " not a char type", .cmsException⟩ fun
    | .char => some readChar
    | _ => none

def float : DataIn (BitVec 32) :=
  readTyped ⟨"reached end of data", "Cannot convert NULL value to float.", " not a float type", .cmsException⟩ fun
    | .float => some readFloat
    | .string => some (parsed C.parseFloat)
    | _ => none

def double : DataIn (BitVec 64) :=
  readTyped ⟨"reached end of data", "Cannot convert NULL value to double.", " not a double type", .cmsException⟩ fun
    | .double => some readDouble
    | .float => some (do return C.floatToDouble (← readFloat))
    | .string => some (parsed C.parseDouble)
    | _ => none

/-- A `char` that is widened keeps its sign. -/
def widenedByte (w : Nat) : DataIn (BitVec w) := do
  return (← readByte).toBitVec.signExtend w

def short : DataIn (BitVec 16) :=
  readTyped ⟨"reached end of data", "Cannot convert NULL value to short.", " not a short type", .cmsException⟩ fun
    | .short => some readShort
    | .byte => some (widenedByte 16)
    | .string => some (parsed Short.parseShort)
    | _ => none

def unsignedShort : DataIn (BitVec 16) :=
  readTyped ⟨"reached end of data", "Cannot convert NULL value to short.", " not a short type", .cmsException⟩ fun
    | .short => some readUnsignedShort
    | .byte => some (widenedByte 16)
    | .string => some (parsed Short.parseShort)
    | _ => none

def int : DataIn (BitVec 32) :=
  readTyped ⟨"reached end of data", "Cannot convert NULL value to int.", " not a int type", .cmsException⟩ fun
    | .integer => some readInt
    | .short => some (do return (← readShort).signExtend 32)
    | .byte => some (widenedByte 32)
    | .string => some (parsed fun text => (Integer.parseInt text).map (BitVec.ofInt 32))
    | _ => none

def long : DataIn (BitVec 64) :=
  readTyped ⟨"reached end of data", "Cannot convert NULL value to long.", " not a long type", .cmsException⟩ fun
    | .long => some readLong
    | .integer => some (do return (← readInt).signExtend 64)
    | .short => some (do return (← readShort).signExtend 64)
    | .byte => some (widenedByte 64)
    | .string => some (parsed fun text => (Long.parseLong text).map (BitVec.ofInt 64))
    | _ => none

def string : DataIn ByteString :=
  readTyped ⟨"reached end of data", "", " not a String type", .cmsException⟩ fun
    | .null => some (pure [])
    | .bigString => some readString32
    | .string => some readString16
    | .long => some (do return Long.toString (← readLong).toInt)
    | .integer => some (do return Long.toString (← readInt).toInt)
    | .short => some (do return Long.toString (← readShort).toInt)
    | .byte => some (do return Long.toString (← readByte).toNat)
    | .float => some (do return C.floatToString (← readFloat))
    | .double => some (do return C.doubleToString (← readDouble))
    | .boolean => some (do return ascii (if ← readBoolean then "true" else "false"))
    | .char => some (do return [← readChar])
    | _ => none

end Read

/-! ### The message -/

/-- `dataIn` holds the bytes still to be read; a compressed content that cannot be inflated has none. -/
structure StreamMessage (Z : Zip) extends Message where
  dataOut : Option (BodyOut Z) := none
  dataIn : Option (Option (List UInt8)) := none
  remainingBytes : Int := -1

namespace StreamMessage

variable {Z : Zip}

abbrev M (Z : Zip) := EStateM Failure (StreamMessage Z)

def new (connection : Option Connection) : StreamMessage Z := { connection := connection }

def clearBody : M Z Unit :=
  modify fun m =>
    { m with content := [], readOnlyBody := false, dataIn := none, dataOut := none, remainingBytes := -1 }

def storeContent : M Z Unit := fun m =>
  match m.dataOut with
  | none => .ok () m
  | some out =>
    match BodyOut.close out with
    | .error e out' => .error e { m with dataOut := some out' }
    | .ok _ out' =>
      let content := if out'.bytesOut.bytes.length > 0 then out'.bytesOut.bytes else m.content
      .ok () { m with content := content, dataOut := none }

def onSend : M Z Unit := do
  storeContent
  modify fun m => { m with readOnlyBody := true }

def reset : M Z Unit :=
  mapError catchAllThrowCMSException do
    storeContent
    modify fun m => { m with dataIn := none, dataOut := none, remainingBytes := -1, readOnlyBody := true }

/-- `cloneDataStructure`: the content of the source is stored before it is copied. -/
def cloneDataStructure : M Z (StreamMessage Z) := do
  storeContent
  let m ← get
  return { content := m.content, compressed := m.compressed, readOnlyBody := m.readOnlyBody,
           connection := m.connection }

def clone : M Z (StreamMessage Z) := do
  return { ← cloneDataStructure with readOnlyBody := false }

/-- The stream that `initializeReading` opens on the content. -/
def opened (m : StreamMessage Z) : Option (List UInt8) :=
  if m.compressed then Z.inflate m.content else some m.content

def initializeReading : M Z Unit := do
  let m ← get
  if ¬ m.readOnlyBody then throw Message.notReadable
  else if m.dataIn = none then set ({ m with dataIn := some m.opened } : StreamMessage Z)

def initializeWriting : M Z Unit := do
  let m ← get
  if m.readOnlyBody then throw Message.notWriteable
  else if m.dataOut.isNone then
    set ({ m with
      compressed := m.compressed || m.usesCompression
      dataOut := some (BodyOut.fresh m.usesCompression) } : StreamMessage Z)

def onDataIn {α : Type} (read : DataIn α) : M Z α := fun m =>
  match m.dataIn with
  | some (some input) =>
    match read input with
    | .ok a rest => .ok a { m with dataIn := some (some rest) }
    | .error e rest => .error e { m with dataIn := some (some rest) }
  | _ => .error (.thrown (.cms .messageFormatException) "Error from Inflater") m

def reading {α : Type} (read : DataIn α) : M Z α := do
  initializeReading
  onDataIn read

def onDataOut (write : EStateM Failure (BodyOut Z) Unit) : M Z Unit := fun m =>
  match m.dataOut with
  | none => .ok () m
  | some out =>
    match write out with
    | .ok _ out' => .ok () { m with dataOut := some out' }
    | .error e out' => .error (catchAllThrowCMSException e) { m with dataOut := some out' }

def writing (write : EStateM Failure (BodyOut Z) Unit) : M Z Unit := do
  initializeWriting
  onDataOut write

/-! ### Writing -/

def typed (type : PrimitiveType) (value : DataOut Unit) : EStateM Failure (BodyOut Z) Unit := do
  BodyOut.call (DataOutputStream.writeByte type.toByte)
  BodyOut.call value

def writeBoolean (value : Bool) : M Z Unit := writing (typed .boolean (DataOutputStream.writeBoolean value))
def writeByte (value : UInt8) : M Z Unit := writing (typed .byte (DataOutputStream.writeByte value))
def writeChar (value : UInt8) : M Z Unit := writing (typed .char (DataOutputStream.writeChar value))
def writeFloat (bits : BitVec 32) : M Z Unit := writing (typed .float (DataOutputStream.writeFloat bits))
def writeDouble (bits : BitVec 64) : M Z Unit := writing (typed .double (DataOutputStream.writeDouble bits))
def writeShort (value : BitVec 16) : M Z Unit := writing (typed .short (DataOutputStream.writeShort value))
def writeUnsignedShort (value : BitVec 16) : M Z Unit :=
  writing (typed .short (DataOutputStream.writeUnsignedShort value))
def writeInt (value : BitVec 32) : M Z Unit := writing (typed .integer (DataOutputStream.writeInt value))
def writeLong (value : BitVec 64) : M Z Unit := writing (typed .long (DataOutputStream.writeLong value))

def writeString16 (value : ByteString) : EStateM Failure (BodyOut Z) Unit :=
  mapError catchExceptionConvert do
    let strSize := toInt32 value.length
    if strSize > 32767 then
      throw (.thrown .ioException "String size exceeds Short::MAX_VALUE and cannot be sent via Openwire.")
    else
      BodyOut.call (DataOutputStream.writeShort (BitVec.ofInt 16 strSize))
      if strSize > 0 then BodyOut.call (DataOutputStream.write value strSize 0 strSize)

def writeString32 (value : ByteString) : EStateM Failure (BodyOut Z) Unit :=
  mapError catchExceptionConvert do
    let strSize := toInt32 value.length
    if strSize > 2147483647 then
      throw (.thrown .ioException "String size exceeds Integer::MAX_VALUE and cannot be sent via Openwire.")
    else
      BodyOut.call (DataOutputStream.writeInt (BitVec.ofInt 32 strSize))
      if strSize > 0 then BodyOut.call (DataOutputStream.write value strSize 0 strSize)

def writeString (value : ByteString) : M Z Unit :=
  writing <| mapError catchExceptionConvert do
    if toInt32 value.length ≤ 32767 / 4 then
      BodyOut.call (DataOutputStream.writeByte PrimitiveType.string.toByte)
      writeString16 value
    else
      BodyOut.call (DataOutputStream.writeByte PrimitiveType.bigString.toByte)
      writeString32 value

/-- `writeBytes` of a vector. -/
def writeBytes (value : ByteString) : M Z Unit :=
  writing do
    let size := toInt32 value.length
    BodyOut.call (DataOutputStream.writeByte PrimitiveType.byteArray.toByte)
    BodyOut.call (DataOutputStream.writeInt (BitVec.ofInt 32 size))
    BodyOut.call (DataOutputStream.write value size 0 size)

/-- `writeBytes` of a part of an array; the length is passed for the size of the array. -/
def writeBytesAt (value : ByteString) (offset length : Int) : M Z Unit :=
  writing do
    BodyOut.call (DataOutputStream.writeByte PrimitiveType.byteArray.toByte)
    BodyOut.call (DataOutputStream.writeInt (BitVec.ofInt 32 length))
    BodyOut.call (DataOutputStream.write value length offset length)

/-! ### Reading -/

variable (C : Conversions)

def readBoolean : M Z Bool := reading (Read.boolean C)
def readByte : M Z UInt8 := reading Read.byte
def readChar : M Z UInt8 := reading Read.char
def readFloat : M Z (BitVec 32) := reading (Read.float C)
def readDouble : M Z (BitVec 64) := reading (Read.double C)
def readShort : M Z (BitVec 16) := reading Read.short
def readUnsignedShort : M Z (BitVec 16) := reading Read.unsignedShort
def readInt : M Z (BitVec 32) := reading Read.int
def readLong : M Z (BitVec 64) := reading Read.long
def readString : M Z ByteString := reading (Read.string C)

def readArray (length : Int) : DataIn (Int × ByteString) := fun input =>
  if length = 0 then .ok (0, []) input
  else if length < 0 then
    .error (.thrown .indexOutOfBoundsException s!"length parameter out of Bounds: {length}.") input
  else if input = [] then .ok (-1, []) []
  else .ok ((input.take length.toNat).length, input.take length.toNat) (input.drop length.toNat)

/-- The start of a byte array: its type and the number of its bytes. -/
def readArrayHeader : DataIn Int := fun input =>
  match input with
  | [] => .error (.thrown (.cms .messageEOFException) "reached end of data") []
  | type :: rest =>
    if type ≠ PrimitiveType.byteArray.toByte then
      .error (.thrown (.cms .messageFormatException) "Not a byte array") rest
    else (do return (← DataInputStream.readInt).toInt : DataIn Int) rest

/-- The bytes of an array that has been begun, into a small or a big buffer. -/
def readPiece (length : Int) : M Z (Int × ByteString) := do
  let m ← get
  if length ≤ m.remainingBytes then
    set ({ m with remainingBytes := m.remainingBytes - length } : StreamMessage Z)
    let bytes ← onDataIn (DataInputStream.readFully length)
    return (length, bytes)
  else
    let result ← onDataIn (readArray m.remainingBytes)
    modify fun m => { m with remainingBytes := 0 }
    return result

/-- `readBytes` into a buffer of `length` bytes: the result and what the buffer starts with. -/
def readBytes (length : Int) : M Z (Int × ByteString) := do
  initializeReading
  mapError catchRead do
    let m ← get
    if m.remainingBytes = -1 then
      let size ← onDataIn readArrayHeader
      modify fun m => { m with remainingBytes := size }
      readPiece length
    else if m.remainingBytes = 0 then
      set ({ m with remainingBytes := -1 } : StreamMessage Z)
      return (-1, [])
    else readPiece length

def readBytesVector (size : Nat) : M Z (Int × ByteString) :=
  if size = 0 then return (0, []) else readBytes (toInt32 size)

end StreamMessage

end ActiveMQCpp.Commands
