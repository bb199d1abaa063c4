import ActiveMQCpp.CommandsStreamMessage

/-! `ActiveMQBytesMessage`: a body of plain bytes. A compressed body is preceded by the number of bytes it
inflates to, which a `ByteCounterOutputStream` counts one byte at a time. -/

namespace ActiveMQCpp.Commands

open Codec Bytes MachineInt Decaf

/-- `DataOutputStream::writeChars`, the text with its terminating NUL. -/
def writeChars (value : ByteString) : DataOut Unit :=
  mapError catchAllThrow <|
    if value.length = 0 then pure ()
    else DataOutputStream.write (value ++ [0]) (toInt32 (toInt32 value.length + 1)) 0 (toInt32 (toInt32 value.length + 1))

/-- The calls of `DataOutputStream::writeUTF` on the stream below. -/
def writeUTFCalls (value : ByteString) : List (DataOut Unit) :=
  let utfLength := DataOutputStream.countUTFLength value
  if utfLength > 65535 then
    [throw (.thrown .utfDataFormatException
      "Attempted to write a string as UTF-8 whose length is longer than the supported 65535 bytes")]
  else if (DataOutputStream.utfBytes value).length > utfLength then [throw .undefined]
  else
    DataOutputStream.writeUnsignedShort (BitVec.ofNat 16 utfLength) ::
      if utfLength > 0 then
        [DataOutputStream.write (DataOutputStream.utfBytes value) (DataOutputStream.utfBytes value).length 0
          (DataOutputStream.utfBytes value).length]
      else []

inductive BytesWrite where
  | boolean (value : Bool)
  | byte (value : UInt8)
  | bytes (value : ByteString)
  | bytesAt (value : ByteString) (offset length : Int)
  | char (value : UInt8)
  | float (bits : BitVec 32)
  | double (bits : BitVec 64)
  | short (value : BitVec 16)
  | unsignedShort (value : BitVec 16)
  | int (value : BitVec 32)
  | long (value : BitVec 64)
  | string (value : ByteString)
  | utf (value : ByteString)

/-- The calls that a write function makes on the `DataOutputStream`. -/
def BytesWrite.program : BytesWrite → List (DataOut Unit)
  | boolean value => [DataOutputStream.writeBoolean value]
  | byte value => [DataOutputStream.writeByte value]
  | bytes value => [DataOutputStream.write value (toInt32 value.length) 0 (toInt32 value.length)]
  | bytesAt value offset length => [DataOutputStream.write value length offset length]
  | char value => [DataOutputStream.writeChar value]
  | float bits => [DataOutputStream.writeFloat bits]
  | double bits => [DataOutputStream.writeDouble bits]
  | short value => [DataOutputStream.writeShort value]
  | unsignedShort value => [DataOutputStream.writeUnsignedShort value]
  | int value => [DataOutputStream.writeInt value]
  | long value => [DataOutputStream.writeLong value]
  | string value => [writeChars value]
  | utf value => writeUTFCalls value

/-- `length` is the number of bytes counted while a compressed body is written, and the length of the
body while it is read. -/
structure BytesMessage (Z : Zip) extends Message where
  dataOut : Option (BodyOut Z) := none
  dataIn : Option (Option (List UInt8)) := none
  length : Int := 0

namespace BytesMessage

variable {Z : Zip}

abbrev M (Z : Zip) := EStateM Failure (BytesMessage Z)

def new (connection : Option Connection) : BytesMessage Z := { connection := connection }

def clearBody : M Z Unit :=
  modify fun m => { m with content := [], readOnlyBody := false, dataOut := none, dataIn := none, length := 0 }

/-- The compressed content: the length of the body and the compressed bytes, through a buffer of its own. -/
def annotated (length : Int) (compressed : List UInt8) : Except Failure (List UInt8) :=
  match [bytesBE (BitVec.ofInt 32 length) 4, compressed].forM ByteArrayOutputStream.write {} with
  | .ok _ buffer => .ok buffer.bytes
  | .error e _ => .error e

def storeContent : M Z Unit :=
  mapError catchAllThrowCMSException fun m =>
    match m.dataOut with
    | none => .ok () m
    | some out =>
      if out.bytesOut.bytes.length > 0 then
        match BodyOut.close out with
        | .error e out' => .error e { m with dataOut := some out' }
        | .ok _ out' =>
          if ¬ m.compressed then .ok () { m with content := out'.bytesOut.bytes, dataOut := none }
          else
            match annotated m.length out'.bytesOut.bytes with
            | .error e => .error e { m with dataOut := some out' }
            | .ok content => .ok () { m with content := content, dataOut := none }
      else .ok () m

def onSend : M Z Unit := do
  storeContent
  modify fun m => { m with readOnlyBody := true }

def reset : M Z Unit :=
  mapError catchAllThrowCMSException do
    storeContent
    modify fun m => { m with dataIn := none, dataOut := none, length := 0, readOnlyBody := true }

def copy (dataStructure : Bool) (m : BytesMessage Z) : BytesMessage Z :=
  { content := m.content, compressed := m.compressed, readOnlyBody := dataStructure && m.readOnlyBody,
    connection := m.connection }

def cloneDataStructure : M Z (BytesMessage Z) := do
  storeContent
  return copy true (← get)

def clone : M Z (BytesMessage Z) := do
  return { ← cloneDataStructure with readOnlyBody := false }

/-- The stream that `initializeReading` opens on the content, and the length of the body. -/
def opened (m : BytesMessage Z) : Option (List UInt8) :=
  if m.compressed then
    if 4 ≤ m.content.length then Z.inflate (m.content.drop 4) else none
  else some m.content

def initializeReading : M Z Unit := do
  let m ← get
  if ¬ m.readOnlyBody then throw Message.notReadable
  else if m.dataIn = none then
    if m.compressed then
      match DataInputStream.readInt m.content with
      | .ok length _ => set ({ m with dataIn := some m.opened, length := length.toInt } : BytesMessage Z)
      | .error e _ => throw (catchAllThrowCMSException e)
    else set ({ m with dataIn := some m.opened, length := toInt32 m.content.length } : BytesMessage Z)

def initializeWriting : M Z Unit := do
  let m ← get
  if m.readOnlyBody then throw Message.notWriteable
  else if m.dataOut.isNone then
    set ({ m with
      length := 0
      compressed := m.compressed || m.usesCompression
      dataOut := some (BodyOut.fresh m.usesCompression) } : BytesMessage Z)

def onDataOut (w : EStateM Failure (BodyOut Z) Unit) : M Z Unit := fun m =>
  match m.dataOut with
  | none => .ok () m
  | some out =>
    match w out with
    | .ok _ out' => .ok () { m with dataOut := some out' }
    | .error e out' => .error e { m with dataOut := some out' }

def countByte (b : UInt8) : M Z Unit := do
  modify fun m => { m with length := toInt32 (m.length + 1) }
  onDataOut (BodyOut.write [b])

/-- One array handed to the stream below the `DataOutputStream`: with compression the counter takes it
byte by byte. -/
def hand (array : List UInt8) : M Z Unit := fun m =>
  if m.dataOut.any fun out => out.deflater.isSome then array.forM countByte m
  else onDataOut (BodyOut.write array) m

def call (program : DataOut Unit) : M Z Unit := fun m =>
  match program [] with
  | .ok _ bytes => hand bytes m
  | .error e _ => .error e m

def write (w : BytesWrite) : M Z Unit := do
  initializeWriting
  mapError catchAllThrowCMSException (w.program.forM call)

def reading {α : Type} (read : DataIn α) : M Z α := do
  initializeReading
  fun m =>
    match m.dataIn with
    | some (some input) =>
      match read input with
      | .ok a rest => .ok a { m with dataIn := some (some rest) }
      | .error e rest => .error (catchRead e) { m with dataIn := some (some rest) }
    | _ => .error (.thrown (.cms .messageFormatException) "Error from Inflater") m

def readBoolean : M Z Bool := reading DataInputStream.readBoolean
def readByte : M Z UInt8 := reading DataInputStream.readByte
def readChar : M Z UInt8 := reading DataInputStream.readChar
def readFloat : M Z (BitVec 32) := reading DataInputStream.readFloat
def readDouble : M Z (BitVec 64) := reading DataInputStream.readDouble
def readShort : M Z (BitVec 16) := reading DataInputStream.readShort
def readUnsignedShort : M Z (BitVec 16) := reading DataInputStream.readUnsignedShort
def readInt : M Z (BitVec 32) := reading DataInputStream.readInt
def readLong : M Z (BitVec 64) := reading DataInputStream.readLong
def readUTF : M Z ByteString := reading DataInputStream.readUTF

/-- The loop of `readBytes`: as many bytes as there are, or -1 if there are none. -/
def readBytes (length : Nat) : M Z (Int × ByteString) :=
  reading fun input =>
    let bytes := input.take length
    .ok (if bytes.length = 0 ∧ length > 0 then -1 else bytes.length, bytes) (input.drop length)

def getBodyLength : M Z Int := do
  initializeReading
  return (← get).length

/-- `getBodyBytes`: a new array of the length of the body, filled by `readBytes`; no array stands for `NULL`. What is
not filled was never written. -/
def getBodyBytes : M Z (Option (List (Option UInt8))) :=
  mapError catchAllThrowCMSException do
    initializeReading
    let length ← getBodyLength
    if length = 0 then return none
    else if length < 0 then throw (.thrown (.cms .cmsException) "std::bad_alloc")
    else
      let result ← readBytes length.toNat
      return some (result.2.map some ++ List.replicate (length.toNat - result.2.length) none)

end BytesMessage

end ActiveMQCpp.Commands
