import ActiveMQCpp.DecafDataCodec

/-! `BooleanStream`: booleans packed into a growing byte vector with 16-bit position counters. The bits written come
back in order as long as the number of used bytes stays a `short`. -/

namespace ActiveMQCpp.Wire

open Codec Bytes MachineInt Decaf

/-- `std::vector<unsigned char>::max_size`; a longer `resize` throws `std::length_error`. -/
def vectorMaxSize : Nat := 2 ^ 63 - 1

/-- The conversion of a signed integer to `size_t`. -/
def toSizeT (x : Int) : Nat := (x % 2 ^ 64).toNat

def resize (data : List UInt8) (size : Nat) : Except Failure (List UInt8) :=
  if size > vectorMaxSize then .error (.thrown .stdException "vector::resize")
  else .ok (data.take size ++ List.replicate (size - data.length) 0)

structure BooleanStream where
  data : List UInt8
  /-- A `short`. -/
  arrayLimit : Int
  /-- A `short`. -/
  arrayPos : Int
  bytePos : Nat

namespace BooleanStream

/-- A new stream reserves 1000 bytes. -/
def new : BooleanStream := ⟨List.replicate 1000 0, 0, 0, 0⟩

/-- Step to the next bit, wrapping around at the end of a byte. -/
def advance (s : BooleanStream) : BooleanStream :=
  if s.bytePos + 1 ≥ 8 then { s with bytePos := 0, arrayPos := toInt16 (s.arrayPos + 1) }
  else { s with bytePos := s.bytePos + 1 }

def clear (s : BooleanStream) : BooleanStream := { s with arrayPos := 0, bytePos := 0 }

/-- The current bit and a step; the vector is indexed without a bounds check. -/
def readBit : EStateM Failure BooleanStream Bool := fun s =>
  if s.arrayPos < 0 ∨ s.arrayPos ≥ s.data.length then .error .undefined s
  else
    let b := s.data[s.arrayPos.toNat]!
    .ok ((b.toBitVec >>> s.bytePos) &&& 1#8 != 0#8) s.advance

def readBoolean : EStateM Failure BooleanStream Bool := mapError catchExceptionConvert readBit

/-- The first bit of a byte takes one more byte of the vector, which is doubled when it is full. -/
def reserve : EStateM Failure BooleanStream Unit := fun s =>
  if s.bytePos = 0 then
    let s := { s with arrayLimit := toInt16 (s.arrayLimit + 1) }
    if toSizeT s.arrayLimit ≥ s.data.length then
      match resize s.data (s.data.length * 2) with
      | .ok data => .ok () { s with data := data }
      | .error e => .error e s
    else .ok () s
  else .ok () s

/-- `data[pos] |= 0x01 << bit`. -/
def orBit (data : List UInt8) (pos bit : Nat) : List UInt8 :=
  data.set pos ⟨(data[pos]!).toBitVec ||| (1#8 <<< bit)⟩

def setBit : EStateM Failure BooleanStream Unit := fun s =>
  if s.arrayPos < 0 ∨ s.arrayPos ≥ s.data.length then .error .undefined s
  else .ok () { s with data := orBit s.data s.arrayPos.toNat s.bytePos }

def writeBoolean (value : Bool) : EStateM Failure BooleanStream Unit :=
  mapError catchExceptionConvert do
    reserve
    if value then setBit
    modify advance

/-- The size field in front of the bytes: one, two or three bytes. -/
def marshalSize (arrayLimit : Int) : DataOut Unit :=
  if arrayLimit < 64 then
    DataOutputStream.writeByte (UInt8.ofNat (arrayLimit % 256).toNat)
  else if arrayLimit < 256 then do
    DataOutputStream.writeByte 0xC0
    DataOutputStream.writeByte (UInt8.ofNat (arrayLimit % 256).toNat)
  else do
    DataOutputStream.writeByte 0x80
    DataOutputStream.writeShort (BitVec.ofInt 16 arrayLimit)

def marshal : EStateM Failure (BooleanStream × List UInt8) Unit :=
  mapError catchExceptionConvert do
    let s ← onFst get
    onSnd (marshalSize s.arrayLimit)
    onSnd (DataOutputStream.write s.data (toInt32 s.data.length) 0 s.arrayLimit)
    onFst (modify clear)

/-- The size field of the overload of `marshal` that appends to a vector. -/
def marshalSizeVector (arrayLimit : Int) : DataOut Unit :=
  if arrayLimit < 64 then
    modify (· ++ [UInt8.ofNat (arrayLimit % 256).toNat])
  else if arrayLimit < 256 then
    modify (· ++ [0xC0, UInt8.ofNat (arrayLimit % 256).toNat])
  else
    modify (· ++ [0x80, UInt8.ofNat (arrayLimit / 2 ^ 8 % 256).toNat, UInt8.ofNat (arrayLimit % 256).toNat])

/-- `dataOut.insert(dataOut.end(), &data[0], &data[arrayLimit-1])`, a range that has to lie in the vector. -/
def insertRange (data : List UInt8) (last : Int) : DataOut Unit :=
  if last < 0 ∨ last ≥ data.length then throw .undefined
  else modify (· ++ data.take last.toNat)

/-- The overload of `marshal` that appends to a vector; the positions stay where they are. -/
def marshalVector : EStateM Failure (BooleanStream × List UInt8) Unit :=
  mapError catchExceptionConvert do
    let s ← onFst get
    onSnd (marshalSizeVector s.arrayLimit)
    onSnd (insertRange s.data (s.arrayLimit - 1))

def marshalledSize (s : BooleanStream) : Int :=
  if s.arrayLimit < 64 then 1 + s.arrayLimit
  else if s.arrayLimit < 256 then 2 + s.arrayLimit
  else 3 + s.arrayLimit

def unmarshalSize : DataIn Int := do
  let first ← DataInputStream.readByte
  if first = 0xC0 then
    let limit ← DataInputStream.readByte
    pure limit.toNat
  else if first = 0x80 then
    let limit ← DataInputStream.readShort
    pure limit.toInt
  else pure first.toNat

def unmarshal : EStateM Failure (BooleanStream × List UInt8) Unit :=
  mapError catchExceptionConvert do
    let limit ← onSnd unmarshalSize
    onFst (modify fun s => { s with arrayLimit := limit })
    let s ← onFst get
    match resize s.data (toSizeT limit) with
    | .error e => throw e
    | .ok data =>
      onFst (modify fun s => { s with data := data })
      let bytes ← onSnd (DataInputStream.readFully limit)
      onFst (modify fun s => { s with data := bytes ++ s.data.drop bytes.length })
      onFst (modify clear)

end BooleanStream

end ActiveMQCpp.Wire
