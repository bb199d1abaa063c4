import ActiveMQCpp.DecafExceptions
import ActiveMQCpp.LibBytes
import ActiveMQCpp.LibMachineInt

/-! `DataOutputStream` and `DataInputStream` over a base stream that takes and yields bytes. An output
stream is the list of the bytes written to it, an input stream the list of the bytes still to be
read. A `std::string` is the list of its bytes. -/

namespace ActiveMQCpp.Decaf

open Codec Bytes MachineInt

abbrev ByteString := List UInt8

abbrev DataOut := EStateM Failure (List UInt8)

abbrev DataIn := EStateM Failure (List UInt8)

namespace DataOutputStream

def put (bytes : List UInt8) : DataOut Unit := modify (· ++ bytes)

/-- `write(buffer, size, offset, length)`; `size` is what the caller says the buffer holds. -/
def write (buffer : ByteString) (size offset length : Int) : DataOut Unit :=
  if length = 0 then pure ()
  else if size < 0 then
    throw (.thrown .indexOutOfBoundsException s!"size parameter out of Bounds: {size}.")
  else if offset > size ∨ offset < 0 then
    throw (.thrown .indexOutOfBoundsException s!"offset parameter out of Bounds: {offset}.")
  else if length < 0 ∨ length > size - offset then
    throw (.thrown .indexOutOfBoundsException s!"length parameter out of Bounds: {length}.")
  else if (buffer.length : Int) < offset + length then throw .undefined
  else put ((buffer.drop offset.toNat).take length.toNat)

def writeBoolean (value : Bool) : DataOut Unit := put [if value then 1 else 0]

def writeByte (value : UInt8) : DataOut Unit := put [value]

def writeChar (value : UInt8) : DataOut Unit := put [value]

def writeShort (value : BitVec 16) : DataOut Unit :=
  put [⟨((value &&& 0xFF00#16) >>> 8).setWidth 8⟩, ⟨((value &&& 0x00FF#16) >>> 0).setWidth 8⟩]

def writeUnsignedShort (value : BitVec 16) : DataOut Unit :=
  put [⟨((value &&& 0xFF00#16) >>> 8).setWidth 8⟩, ⟨((value &&& 0x00FF#16) >>> 0).setWidth 8⟩]

def writeInt (value : BitVec 32) : DataOut Unit :=
  put [⟨((value &&& 0xFF000000#32) >>> 24).setWidth 8⟩, ⟨((value &&& 0x00FF0000#32) >>> 16).setWidth 8⟩,
    ⟨((value &&& 0x0000FF00#32) >>> 8).setWidth 8⟩, ⟨((value &&& 0x000000FF#32) >>> 0).setWidth 8⟩]

def writeLong (value : BitVec 64) : DataOut Unit :=
  put [⟨((value &&& 0xFF00000000000000#64) >>> 56).setWidth 8⟩,
    ⟨((value &&& 0x00FF000000000000#64) >>> 48).setWidth 8⟩,
    ⟨((value &&& 0x0000FF0000000000#64) >>> 40).setWidth 8⟩,
    ⟨((value &&& 0x000000FF00000000#64) >>> 32).setWidth 8⟩,
    ⟨((value &&& 0x00000000FF000000#64) >>> 24).setWidth 8⟩,
    ⟨((value &&& 0x0000000000FF0000#64) >>> 16).setWidth 8⟩,
    ⟨((value &&& 0x000000000000FF00#64) >>> 8).setWidth 8⟩,
    ⟨((value &&& 0x00000000000000FF#64) >>> 0).setWidth 8⟩]

/-- `writeFloat`, on the bit pattern of the value. -/
def writeFloat (bits : BitVec 32) : DataOut Unit := mapError catchAllThrow (writeInt bits)

/-- `writeDouble`, on the bit pattern of the value. -/
def writeDouble (bits : BitVec 64) : DataOut Unit := mapError catchAllThrow (writeLong bits)

def writeBytes (value : ByteString) : DataOut Unit :=
  mapError catchAllThrow <|
    if value.length = 0 then pure ()
    else write value (toInt32 value.length) 0 (toInt32 value.length)

/-- What one character adds to `utfCount`. -/
def utfWidth (charValue : Nat) : Nat :=
  if charValue > 0 ∧ charValue ≤ 127 then 1
  else if charValue ≤ 2047 then 2
  else 3

/-- `countUTFLength`; the counter is an `unsigned int`. -/
def countUTFLength (value : ByteString) : Nat :=
  value.foldl (fun utfCount c => toUInt32 (utfCount + utfWidth c.toNat : Nat)) 0

/-- The bytes one character is encoded to. -/
def utfChar (charValue : Nat) : List UInt8 :=
  if charValue > 0 ∧ charValue ≤ 127 then [UInt8.ofNat charValue]
  else if charValue ≤ 2047 then
    [UInt8.ofNat (0xc0 ||| (0x1f &&& (charValue >>> 6))), UInt8.ofNat (0x80 ||| (0x3f &&& charValue))]
  else
    [UInt8.ofNat (0xe0 ||| (0x0f &&& (charValue >>> 12))),
      UInt8.ofNat (0x80 ||| (0x3f &&& (charValue >>> 6))), UInt8.ofNat (0x80 ||| (0x3f &&& charValue))]

/-- What the encoding loop of `writeUTF` stores. -/
def utfBytes (value : ByteString) : List UInt8 := value.flatMap fun c => utfChar c.toNat

/-- `writeUTF`. The encoding loop stores into a vector of `utfLength` elements without a bounds check. -/
def writeUTF (value : ByteString) : DataOut Unit :=
  mapError catchAllThrow do
    let utfLength := countUTFLength value
    if utfLength > 65535 then
      throw (.thrown .utfDataFormatException
        "Attempted to write a string as UTF-8 whose length is longer than the supported 65535 bytes")
    else if (utfBytes value).length > utfLength then throw .undefined
    else
      writeUnsignedShort (BitVec.ofNat 16 utfLength)
      if utfLength > 0 then
        write (utfBytes value) (utfBytes value).length 0 (utfBytes value).length

end DataOutputStream

namespace DataInputStream

/-- `readAllData`; a stream that ends early is consumed to its end. -/
def readAllData (length : Nat) : DataIn (List UInt8) := fun input =>
  if length ≤ input.length then .ok (input.take length) (input.drop length)
  else .error (.thrown .eofException "DataInputStream::readLong - Reached EOF") []

/-- `readFully(buffer, size)`, which fills the buffer from its start. -/
def readFully (size : Int) : DataIn (List UInt8) := fun input =>
  if size = 0 then .ok [] input
  else if size < 0 then
    .error (.thrown .indexOutOfBoundsException s!"size parameter out of Bounds: {size}.") input
  else if size ≤ input.length then .ok (input.take size.toNat) (input.drop size.toNat)
  else .error (.thrown .eofException "Reached EOF") []

/-- Read `n` bytes and put them together as the word that the shifts and ors of the readers make. -/
def readWord (w n : Nat) (word : List UInt8 → BitVec w) : DataIn (BitVec w) := do
  let buffer ← readAllData n
  pure (word buffer)

def readBoolean : DataIn Bool := do
  let buffer ← readAllData 1
  pure (buffer[0]! != 0)

def readByte : DataIn UInt8 := do
  let buffer ← readAllData 1
  pure buffer[0]!

def readChar : DataIn UInt8 := do
  let buffer ← readAllData 1
  pure buffer[0]!

def readShort : DataIn (BitVec 16) :=
  readWord 16 2 fun buffer =>
    buffer[0]!.toBitVec.setWidth 16 <<< 8 ||| buffer[1]!.toBitVec.setWidth 16 <<< 0

def readUnsignedShort : DataIn (BitVec 16) :=
  readWord 16 2 fun buffer =>
    buffer[0]!.toBitVec.setWidth 16 <<< 8 ||| buffer[1]!.toBitVec.setWidth 16 <<< 0

def readInt : DataIn (BitVec 32) :=
  readWord 32 4 fun buffer =>
    buffer[0]!.toBitVec.setWidth 32 <<< 24 ||| buffer[1]!.toBitVec.setWidth 32 <<< 16 |||
      buffer[2]!.toBitVec.setWidth 32 <<< 8 ||| buffer[3]!.toBitVec.setWidth 32 <<< 0

def readLong : DataIn (BitVec 64) :=
  readWord 64 8 fun buffer =>
    buffer[0]!.toBitVec.setWidth 64 <<< 56 ||| buffer[1]!.toBitVec.setWidth 64 <<< 48 |||
      buffer[2]!.toBitVec.setWidth 64 <<< 40 ||| buffer[3]!.toBitVec.setWidth 64 <<< 32 |||
      buffer[4]!.toBitVec.setWidth 64 <<< 24 ||| buffer[5]!.toBitVec.setWidth 64 <<< 16 |||
      buffer[6]!.toBitVec.setWidth 64 <<< 8 ||| buffer[7]!.toBitVec.setWidth 64 <<< 0

/-- `readFloat`, as the bit pattern of the value. -/
def readFloat : DataIn (BitVec 32) := readInt

/-- `readDouble`, as the bit pattern of the value. -/
def readDouble : DataIn (BitVec 64) := readLong

/-- The decoding loop of `readUTF` on the bytes that follow the length. -/
def utfDecode : List UInt8 → Except Failure ByteString
  | [] => .ok []
  | a :: rest =>
    if a < 0x80 then
      match utfDecode rest with
      | .ok result => .ok (a :: result)
      | .error e => .error e
    else if a &&& 0xE0 = 0xC0 then
      match rest with
      | [] => .error (.thrown .utfDataFormatException
          "Invalid UTF-8 encoding found, start of two byte char found at end.")
      | b :: rest =>
        if b &&& 0xC0 ≠ 0x80 then
          .error (.thrown .utfDataFormatException
            "Invalid UTF-8 encoding found, byte two does not start with 0x80.")
        else if a &&& 0x1C ≠ 0 then
          .error (.thrown .utfDataFormatException
            "Invalid 2 byte UTF-8 encoding found, This method only supports encoded ASCII values of (0-255).")
        else
          match utfDecode rest with
          | .ok result => .ok ((((a &&& 0x1F) <<< 6) ||| (b &&& 0x3F)) :: result)
          | .error e => .error e
    else if a &&& 0xF0 = 0xE0 then
      if rest.length ≤ 1 then
        .error (.thrown .utfDataFormatException
          "Invalid UTF-8 encoding found, start of three byte char found at end.")
      else
        .error (.thrown .utfDataFormatException
          "Invalid 3 byte UTF-8 encoding found, This method only supports encoded ASCII values of (0-255).")
    else
      .error (.thrown .utfDataFormatException "Invalid UTF-8 encoding found, aborting.")

def readUTF : DataIn ByteString :=
  mapError catchAllThrow do
    let utfLength ← readUnsignedShort
    if utfLength.toNat = 0 then pure []
    else
      let buffer ← readFully utfLength.toNat
      match utfDecode buffer with
      | .ok result => pure result
      | .error e => throw e

end DataInputStream

end ActiveMQCpp.Decaf
