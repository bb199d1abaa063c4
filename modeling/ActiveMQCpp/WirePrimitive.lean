import ActiveMQCpp.DecafDataCodec
import ActiveMQCpp.LibOrderedMap

/-! `PrimitiveTypesMarshaller`: maps and lists of primitive values, nested to any depth. A `PrimitiveMap`
is a `std::map` and is modelled by its entries in key order, a `PrimitiveList` by its elements. -/

namespace ActiveMQCpp.Wire

open Codec Bytes MachineInt Decaf

inductive PrimitiveType where
  | null
  | boolean
  | byte
  | char
  | short
  | integer
  | long
  | double
  | float
  | string
  | byteArray
  | map
  | list
  | bigString
  deriving DecidableEq, Repr

def PrimitiveType.toByte : PrimitiveType → UInt8
  | null => 0
  | boolean => 1
  | byte => 2
  | char => 3
  | short => 4
  | integer => 5
  | long => 6
  | double => 7
  | float => 8
  | string => 9
  | byteArray => 10
  | map => 11
  | list => 12
  | bigString => 13

/-- The enumerator that the `switch` of `unmarshalPrimitive` selects. -/
def PrimitiveType.ofByte? (b : UInt8) : Option PrimitiveType :=
  [null, boolean, byte, char, short, integer, long, double, float, string, byteArray, map, list,
    bigString].find? fun type => type.toByte = b

/-- `double` and `float` values are kept as their bit patterns. -/
inductive PrimitiveValueNode where
  | null
  | boolean (value : Bool)
  | byte (value : UInt8)
  | char (value : UInt8)
  | short (value : BitVec 16)
  | integer (value : BitVec 32)
  | long (value : BitVec 64)
  | double (bits : BitVec 64)
  | float (bits : BitVec 32)
  | string (value : ByteString)
  | byteArray (value : ByteString)
  | map (entries : List (ByteString × PrimitiveValueNode))
  | list (values : List PrimitiveValueNode)

/-! ### Marshalling -/

def writeType (type : PrimitiveType) : DataOut Unit := DataOutputStream.writeByte type.toByte

/-- The element count of a collection and the loop over its elements. -/
def marshalSized (size : Nat) (loop : DataOut Unit) : DataOut Unit :=
  mapError catchExceptionConvert do
    DataOutputStream.writeInt (BitVec.ofNat 32 size)
    loop

def marshalByteArray (data : ByteString) : DataOut Unit := do
  writeType .byteArray
  DataOutputStream.writeInt (BitVec.ofNat 32 data.length)
  if data ≠ [] then
    DataOutputStream.write data (toInt32 data.length) 0 (toInt32 data.length)

/-- Strings longer than `Short::MAX_VALUE / 4` are sent as big strings. -/
def marshalString (data : ByteString) : DataOut Unit := do
  let size := toInt32 data.length
  if size = 0 then
    writeType .string
    DataOutputStream.writeShort (BitVec.ofInt 16 size)
  else if size > 32767 / 4 then
    writeType .bigString
    DataOutputStream.writeInt (BitVec.ofInt 32 size)
    DataOutputStream.write data size 0 size
  else
    writeType .string
    DataOutputStream.writeShort (BitVec.ofInt 16 size)
    DataOutputStream.write data size 0 size

mutual

def marshalPrimitive : PrimitiveValueNode → DataOut Unit
  | .boolean value => mapError catchExceptionConvert do
      writeType .boolean
      DataOutputStream.writeBoolean value
  | .byte value => mapError catchExceptionConvert do
      writeType .byte
      DataOutputStream.writeByte value
  | .char value => mapError catchExceptionConvert do
      writeType .char
      DataOutputStream.writeChar 0
      DataOutputStream.writeChar value
  | .short value => mapError catchExceptionConvert do
      writeType .short
      DataOutputStream.writeShort value
  | .integer value => mapError catchExceptionConvert do
      writeType .integer
      DataOutputStream.writeInt value
  | .long value => mapError catchExceptionConvert do
      writeType .long
      DataOutputStream.writeLong value
  | .float bits => mapError catchExceptionConvert do
      writeType .float
      DataOutputStream.writeFloat bits
  | .double bits => mapError catchExceptionConvert do
      writeType .double
      DataOutputStream.writeDouble bits
  | .byteArray value => mapError catchExceptionConvert (marshalByteArray value)
  | .string value => mapError catchExceptionConvert (marshalString value)
  | .list values => mapError catchExceptionConvert do
      writeType .list
      marshalSized values.length (marshalValues values (toInt32 values.length).toNat)
  | .map entries => mapError catchExceptionConvert do
      writeType .map
      marshalSized entries.length (marshalEntries entries)
  | .null => throw (.thrown .ioException "Object is not a primitive: ")

/-- The first `count` elements of a list: the loop ends at `list.size()`, an `int`. -/
def marshalValues : List PrimitiveValueNode → Nat → DataOut Unit
  | [], _ => pure ()
  | _ :: _, 0 => pure ()
  | value :: values, count + 1 => do
    marshalPrimitive value
    marshalValues values count

def marshalEntries : List (ByteString × PrimitiveValueNode) → DataOut Unit
  | [] => pure ()
  | (key, value) :: entries => do
    DataOutputStream.writeUTF key
    marshalPrimitive value
    marshalEntries entries

end

theorem marshalPrimitive_char (value : UInt8) : marshalPrimitive (.char value) = mapError catchExceptionConvert (do
      writeType .char
      DataOutputStream.writeChar 0
      DataOutputStream.writeChar value) := rfl

theorem marshalPrimitive_string (value : ByteString) :
    marshalPrimitive (.string value) = mapError catchExceptionConvert (marshalString value) := rfl

def marshalPrimitiveList (values : List PrimitiveValueNode) : DataOut Unit :=
  marshalSized values.length (marshalValues values (toInt32 values.length).toNat)

def marshalPrimitiveMap (entries : List (ByteString × PrimitiveValueNode)) : DataOut Unit :=
  marshalSized entries.length (marshalEntries entries)

/-! ### Unmarshalling -/

def readValues (unmarshal : DataIn PrimitiveValueNode) :
    Nat → List PrimitiveValueNode → DataIn (List PrimitiveValueNode)
  | 0, list => pure list
  | count + 1, list => do
    let value ← unmarshal
    readValues unmarshal count (list ++ [value])

def readEntries (unmarshal : DataIn PrimitiveValueNode) :
    Nat → List (ByteString × PrimitiveValueNode) → DataIn (List (ByteString × PrimitiveValueNode))
  | 0, map => pure map
  | count + 1, map => do
    let key ← DataInputStream.readUTF
    let value ← unmarshal
    readEntries unmarshal count (OrderedMap.put key value map)

def unmarshalPrimitiveList (unmarshal : DataIn PrimitiveValueNode) (list : List PrimitiveValueNode) :
    DataIn (List PrimitiveValueNode) :=
  mapError catchExceptionConvert do
    let size ← DataInputStream.readInt
    readValues unmarshal size.toInt.toNat list

/-- `unmarshalPrimitiveMap`, with the reader of its values. -/
def unmarshalPrimitiveMap (unmarshal : DataIn PrimitiveValueNode)
    (map : List (ByteString × PrimitiveValueNode)) :
    DataIn (List (ByteString × PrimitiveValueNode)) :=
  mapError catchExceptionConvert do
    let size ← DataInputStream.readInt
    readEntries unmarshal size.toInt.toNat map

/-- A string that has been announced with its length. The node stays `NULL` when the length is not
positive. -/
def unmarshalString (utfLength : Int) : DataIn PrimitiveValueNode :=
  if utfLength > 0 then do
    let buffer ← DataInputStream.readFully utfLength
    pure (.string buffer)
  else pure .null

def unmarshalByteArray (size : Int) : DataIn PrimitiveValueNode :=
  if size > 0 then do
    let data ← DataInputStream.readFully size
    pure (.byteArray data)
  else pure (.byteArray [])

/-- The body of the `switch` of `unmarshalPrimitive`; nested values are read by `unmarshal`. -/
def unmarshalValue (unmarshal : DataIn PrimitiveValueNode) : PrimitiveType → DataIn PrimitiveValueNode
  | .null => pure .null
  | .byte => do
    let value ← DataInputStream.readByte
    pure (.byte value)
  | .boolean => do
    let value ← DataInputStream.readBoolean
    pure (.boolean value)
  | .char => do
    let _ ← DataInputStream.readByte
    let value ← DataInputStream.readChar
    pure (.char value)
  | .short => do
    let value ← DataInputStream.readShort
    pure (.short value)
  | .integer => do
    let value ← DataInputStream.readInt
    pure (.integer value)
  | .long => do
    let value ← DataInputStream.readLong
    pure (.long value)
  | .float => do
    let bits ← DataInputStream.readFloat
    pure (.float bits)
  | .double => do
    let bits ← DataInputStream.readDouble
    pure (.double bits)
  | .byteArray => do
    let size ← DataInputStream.readInt
    unmarshalByteArray size.toInt
  | .string => do
    let utfLength ← DataInputStream.readShort
    unmarshalString utfLength.toInt
  | .bigString => do
    let utfLength ← DataInputStream.readInt
    unmarshalString utfLength.toInt
  | .list => do
    let values ← unmarshalPrimitiveList unmarshal []
    pure (.list values)
  | .map => do
    let entries ← unmarshalPrimitiveMap unmarshal []
    pure (.map entries)

/-- `unmarshalPrimitive`, nested at most `depth` calls deep. -/
def unmarshalPrimitive : Nat → DataIn PrimitiveValueNode
  | 0 => throw .undefined
  | depth + 1 => mapError catchExceptionConvert do
      let type ← DataInputStream.readByte
      match PrimitiveType.ofByte? type with
      | some type => unmarshalValue (unmarshalPrimitive depth) type
      | none => throw (.thrown .ioException
          "PrimitiveTypesMarshaller::unmarshalPrimitive - Unsupported data type: ")

end ActiveMQCpp.Wire
