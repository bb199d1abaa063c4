import ActiveMQCpp.DecafStringUtils
import ActiveMQCpp.WirePrimitive

/-! `PrimitiveMap`: a map of typed values whose readers convert, through `PrimitiveValueConverter`, what was set with
another type. -/

namespace ActiveMQCpp.Util

open Codec MachineInt Decaf Wire

/-- The conversions of `decaf::lang` between floating point numbers and between them and text are not modelled. -/
structure FloatConversions where
  parseFloat : ByteString → Except Failure (BitVec 32)
  parseDouble : ByteString → Except Failure (BitVec 64)
  floatToString : BitVec 32 → ByteString
  doubleToString : BitVec 64 → ByteString
  floatToDouble : BitVec 32 → BitVec 64

/-! ### `PrimitiveValueConverter` -/

namespace PrimitiveValueConverter

def unsupported : Failure := .thrown .unsupportedOperationException "Unsupported Type Conversion"

/-- The branch for a text: what the parser throws is caught, and the `switch` falls through to its default. -/
def fromText {α : Type} (parsed : Except Failure α) : Except Failure α :=
  match parsed with
  | .ok value => .ok value
  | .error (.thrown type message) =>
    if type.isException then .error unsupported else .error (.thrown type message)
  | .error .undefined => .error .undefined

variable (C : FloatConversions)

def convertBool : PrimitiveValueNode → Except Failure Bool
  | .boolean value => .ok value
  | .string text => fromText (.ok (Boolean.parseBoolean text))
  | _ => .error unsupported

def convertByte : PrimitiveValueNode → Except Failure UInt8
  | .byte value => .ok value
  | .string text => fromText (Byte.parseByte text)
  | _ => .error unsupported

def convertShort : PrimitiveValueNode → Except Failure (BitVec 16)
  | .byte value => .ok (value.toBitVec.setWidth 16)
  | .short value => .ok value
  | .string text => fromText (Short.parseShort text)
  | _ => .error unsupported

def convertInt : PrimitiveValueNode → Except Failure (BitVec 32)
  | .byte value => .ok (value.toBitVec.setWidth 32)
  | .short value => .ok (value.signExtend 32)
  | .integer value => .ok value
  | .string text => fromText ((Integer.parseInt text).map (BitVec.ofInt 32))
  | _ => .error unsupported

def convertLong : PrimitiveValueNode → Except Failure (BitVec 64)
  | .byte value => .ok (value.toBitVec.setWidth 64)
  | .short value => .ok (value.signExtend 64)
  | .integer value => .ok (value.signExtend 64)
  | .long value => .ok value
  | .string text => fromText ((Long.parseLong text).map (BitVec.ofInt 64))
  | _ => .error unsupported

def convertFloat : PrimitiveValueNode → Except Failure (BitVec 32)
  | .float bits => .ok bits
  | .string text => fromText (C.parseFloat text)
  | _ => .error unsupported

def convertDouble : PrimitiveValueNode → Except Failure (BitVec 64)
  | .float bits => .ok (C.floatToDouble bits)
  | .double bits => .ok bits
  | .string text => fromText (C.parseDouble text)
  | _ => .error unsupported

def convertString : PrimitiveValueNode → Except Failure ByteString
  | .null => .ok []
  | .boolean value => .ok (Boolean.toString value)
  | .byte value => .ok (Integer.toString value.toNat)
  | .char value => .ok [value]
  | .short value => .ok (Integer.toString value.toInt)
  | .integer value => .ok (Integer.toString value.toInt)
  | .long value => .ok (Long.toString value.toInt)
  | .float bits => .ok (C.floatToString bits)
  | .double bits => .ok (C.doubleToString bits)
  | .string text => .ok text
  | _ => .error unsupported

end PrimitiveValueConverter

/-! ### `PrimitiveMap` -/

abbrev PrimitiveMap := OrderedMap ByteString PrimitiveValueNode

namespace PrimitiveMap

def get (key : ByteString) (map : PrimitiveMap) : Except Failure PrimitiveValueNode :=
  match map.find key with
  | some node => .ok node
  | none => .error (.thrown .noSuchElementException "Key does not exist in map")

variable (C : FloatConversions) (key : ByteString) (map : PrimitiveMap)

def getBool : Except Failure Bool := do PrimitiveValueConverter.convertBool (← get key map)

def getByte : Except Failure UInt8 := do PrimitiveValueConverter.convertByte (← get key map)

def getShort : Except Failure (BitVec 16) := do PrimitiveValueConverter.convertShort (← get key map)

def getInt : Except Failure (BitVec 32) := do PrimitiveValueConverter.convertInt (← get key map)

def getLong : Except Failure (BitVec 64) := do PrimitiveValueConverter.convertLong (← get key map)

def getDouble : Except Failure (BitVec 64) := do PrimitiveValueConverter.convertDouble C (← get key map)

def getFloat : Except Failure (BitVec 32) := do PrimitiveValueConverter.convertFloat C (← get key map)

def getString : Except Failure ByteString := do PrimitiveValueConverter.convertString C (← get key map)

def setBool (value : Bool) : PrimitiveMap := map.insert key (.boolean value)

def setByte (value : UInt8) : PrimitiveMap := map.insert key (.byte value)

def setShort (value : BitVec 16) : PrimitiveMap := map.insert key (.short value)

def setInt (value : BitVec 32) : PrimitiveMap := map.insert key (.integer value)

def setLong (value : BitVec 64) : PrimitiveMap := map.insert key (.long value)

def setDouble (value : BitVec 64) : PrimitiveMap := map.insert key (.double value)

def setFloat (value : BitVec 32) : PrimitiveMap := map.insert key (.float value)

def setString (value : ByteString) : PrimitiveMap := map.insert key (.string value)

variable {key map}

end PrimitiveMap

end ActiveMQCpp.Util
