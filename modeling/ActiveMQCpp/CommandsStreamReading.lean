import ActiveMQCpp.CommandsStreamRoundTrip
import ActiveMQCpp.DecafMarkedSource

/-! The reads of a stream message on the stream that is open on its content: every read marks the stream, and
goes back to the mark when the value does not fit. On the bytes that are left they are the reads of
`CommandsStreamMessage`, which has no marks. -/

namespace ActiveMQCpp.Decaf.Reader

open Codec

/-! ### The functions of `DataInputStream` -/

def readAllData (length : Nat) : Reader ByteString :=
  .take (.thrown .eofException "DataInputStream::readLong - Reached EOF") length .done

def readFully (size : Int) : Reader ByteString :=
  if size = 0 then .done []
  else if size < 0 then
    .fail (.thrown .indexOutOfBoundsException s!"size parameter out of Bounds: {size}.")
  else .take (.thrown .eofException "Reached EOF") size.toNat .done

/-- A chain of `catch` clauses around the program. -/
def mapError {α : Type} (g : Failure → Failure) : Reader α → Reader α
  | .done a => .done a
  | .fail e => .fail (g e)
  | .take eof length next => .take (g eof) length fun bytes => (next bytes).mapError g

def readWord (w n : Nat) (word : List UInt8 → BitVec w) : Reader (BitVec w) := do
  let buffer ← readAllData n
  pure (word buffer)

def readBoolean : Reader Bool := do
  let buffer ← readAllData 1
  pure (buffer[0]! != 0)

def readByte : Reader UInt8 := do
  let buffer ← readAllData 1
  pure buffer[0]!

def readChar : Reader UInt8 := do
  let buffer ← readAllData 1
  pure buffer[0]!

def readShort : Reader (BitVec 16) :=
  readWord 16 2 fun buffer =>
    buffer[0]!.toBitVec.setWidth 16 <<< 8 ||| buffer[1]!.toBitVec.setWidth 16 <<< 0

def readUnsignedShort : Reader (BitVec 16) :=
  readWord 16 2 fun buffer =>
    buffer[0]!.toBitVec.setWidth 16 <<< 8 ||| buffer[1]!.toBitVec.setWidth 16 <<< 0

def readInt : Reader (BitVec 32) :=
  readWord 32 4 fun buffer =>
    buffer[0]!.toBitVec.setWidth 32 <<< 24 ||| buffer[1]!.toBitVec.setWidth 32 <<< 16 |||
      buffer[2]!.toBitVec.setWidth 32 <<< 8 ||| buffer[3]!.toBitVec.setWidth 32 <<< 0

def readLong : Reader (BitVec 64) :=
  readWord 64 8 fun buffer =>
    buffer[0]!.toBitVec.setWidth 64 <<< 56 ||| buffer[1]!.toBitVec.setWidth 64 <<< 48 |||
      buffer[2]!.toBitVec.setWidth 64 <<< 40 ||| buffer[3]!.toBitVec.setWidth 64 <<< 32 |||
      buffer[4]!.toBitVec.setWidth 64 <<< 24 ||| buffer[5]!.toBitVec.setWidth 64 <<< 16 |||
      buffer[6]!.toBitVec.setWidth 64 <<< 8 ||| buffer[7]!.toBitVec.setWidth 64 <<< 0

def readFloat : Reader (BitVec 32) := readInt

def readDouble : Reader (BitVec 64) := readLong

def readUTF : Reader ByteString :=
  Reader.mapError catchAllThrow do
    let utfLength ← readUnsignedShort
    if utfLength.toNat = 0 then pure []
    else
      let buffer ← readFully utfLength.toNat
      match DataInputStream.utfDecode buffer with
      | .ok result => Reader.done result
      | .error e => Reader.fail e

/-! ### On the bytes that are left -/

theorem onBytes_mapError {α : Type} (g : Failure → Failure) (reader : Reader α) :
    (reader.mapError g).onBytes = Codec.mapError g reader.onBytes := by
  induction reader with
  | done a => rfl
  | fail e => rfl
  | take eof length next ih =>
    funext input
    rw [mapError, onBytes_take, ih]
    by_cases hle : length ≤ input.length
    · rw [if_pos hle]
      unfold Codec.mapError
      rw [onBytes_take, if_pos hle]
    · rw [if_neg hle]
      unfold Codec.mapError
      rw [onBytes_take, if_neg hle]

@[simp] theorem onBytes_readAllData (length : Nat) :
    (readAllData length).onBytes = DataInputStream.readAllData length := rfl

@[simp] theorem onBytes_readFully (size : Int) : (readFully size).onBytes = DataInputStream.readFully size := by
  funext input
  unfold readFully DataInputStream.readFully
  by_cases hzero : size = 0
  · rw [if_pos hzero, if_pos hzero]
    rfl
  by_cases hneg : size < 0
  · rw [if_neg hzero, if_neg hzero, if_pos hneg, if_pos hneg]
    rfl
  · rw [if_neg hzero, if_neg hzero, if_neg hneg, if_neg hneg, onBytes_take]
    by_cases hle : size.toNat ≤ input.length
    · rw [if_pos hle, if_pos (by omega)]
      rfl
    · rw [if_neg hle, if_neg (by omega)]

@[simp] theorem onBytes_readWord (w n : Nat) (word : List UInt8 → BitVec w) :
    (readWord w n word).onBytes = DataInputStream.readWord w n word := by
  rw [readWord, onBytes_bind]
  rfl

@[simp] theorem onBytes_readBoolean : readBoolean.onBytes = DataInputStream.readBoolean := by
  rw [readBoolean, onBytes_bind]
  rfl

@[simp] theorem onBytes_readByte : readByte.onBytes = DataInputStream.readByte := by
  rw [readByte, onBytes_bind]
  rfl

@[simp] theorem onBytes_readChar : readChar.onBytes = DataInputStream.readChar := onBytes_readByte

@[simp] theorem onBytes_readShort : readShort.onBytes = DataInputStream.readShort := onBytes_readWord _ _ _

@[simp] theorem onBytes_readUnsignedShort : readUnsignedShort.onBytes = DataInputStream.readUnsignedShort :=
  onBytes_readWord _ _ _

@[simp] theorem onBytes_readInt : readInt.onBytes = DataInputStream.readInt := onBytes_readWord _ _ _

@[simp] theorem onBytes_readLong : readLong.onBytes = DataInputStream.readLong := onBytes_readWord _ _ _

@[simp] theorem onBytes_readFloat : readFloat.onBytes = DataInputStream.readFloat := onBytes_readInt

@[simp] theorem onBytes_readDouble : readDouble.onBytes = DataInputStream.readDouble := onBytes_readLong

@[simp] theorem onBytes_readUTF : readUTF.onBytes = DataInputStream.readUTF := by
  rw [readUTF, onBytes_mapError, onBytes_bind, DataInputStream.readUTF, onBytes_readUnsignedShort]
  congr 2
  funext utfLength
  by_cases hzero : utfLength.toNat = 0
  · rw [if_pos hzero, if_pos hzero]
    rfl
  · rw [if_neg hzero, if_neg hzero, onBytes_bind, onBytes_readFully]
    congr 1
    funext buffer
    cases DataInputStream.utfDecode buffer with
    | ok result => rfl
    | error e => rfl

end ActiveMQCpp.Decaf.Reader

namespace ActiveMQCpp.Commands

open Codec MachineInt Decaf Wire

/-! ### The typed reads -/

/-- A read of the message: the limit of its mark, its texts, and what it takes for each type. -/
structure TypedRead (α : Type) where
  limit : Int
  texts : ReadTexts
  table : PrimitiveType → Option (Reader α)

namespace TypedRead

variable {α β : Type}

/-- The same read with its result in another type. -/
def map (f : α → β) (read : TypedRead α) : TypedRead β :=
  { read with table := fun type => (read.table type).map fun reader => do return f (← reader) }

/-- The read on the bytes that are left, of which none is lost when it goes back. -/
def onBytes (read : TypedRead α) : DataIn α := readTyped read.texts fun type => (read.table type).map Reader.onBytes

/-- `CMSExceptionSupport::create`. -/
def createCMS : Failure → Failure
  | .thrown _ message => .thrown (.cms .cmsException) message
  | .undefined => .undefined

variable (choose : Nat → Nat)

/-- What a read does with the number format that it has caught. -/
def handleNumberFormat (read : TypedRead α) (message : String) : EStateM Failure MarkedSource α := fun src =>
  match src.reset with
  | .ok _ src => .error (.thrown (.cms read.texts.numberFormat) message) src
  | .error e src => .error (createCMS e) src

/-- What a read does when the type does not fit. -/
def refuse (read : TypedRead α) (type : UInt8) : EStateM Failure MarkedSource α := fun src =>
  match src.reset with
  | .ok _ src =>
    if type = PrimitiveType.null.toByte then .error (.thrown (.cms .cmsException) read.texts.null) src
    else .error (.thrown (.cms .messageFormatException) read.texts.format) src
  | .error e src => .error (catchRead e) src

def accept (read : TypedRead α) (reader : Reader α) : EStateM Failure MarkedSource α := fun src =>
  match reader.run choose src with
  | .ok a src => .ok a src
  | .error (.thrown .numberFormatException message) src => read.handleNumberFormat message src
  | .error e src => .error (catchRead e) src

/-- What follows the type byte. -/
def afterType (read : TypedRead α) (type : UInt8) : EStateM Failure MarkedSource α :=
  match (PrimitiveType.ofByte? type).bind read.table with
  | some reader => read.accept choose reader
  | none => read.refuse type

def run (read : TypedRead α) : EStateM Failure MarkedSource α := fun src =>
  match (src.mark read.limit).read choose with
  | .error e src => .error (catchRead e) src
  | .ok none src => .error (.thrown (.cms .messageEOFException) read.texts.eof) src
  | .ok (some type) src => read.afterType choose type src

/-! ### The reads of the message -/

def parsed (parse : ByteString → Except Failure α) : Reader α := do
  let text ← Reader.readUTF
  match parse text with
  | .ok a => Reader.done a
  | .error e => Reader.fail e

def readStringBytes (utfLength : Int) : Reader ByteString :=
  if utfLength > 0 then Reader.readFully utfLength else pure []

def readString16 : Reader ByteString :=
  Reader.mapError catchExceptionConvert do
    let utfLength ← Reader.readShort
    readStringBytes utfLength.toInt

def readString32 : Reader ByteString :=
  Reader.mapError catchExceptionConvert do
    let utfLength ← Reader.readInt
    readStringBytes utfLength.toInt

def widenedByte (w : Nat) : Reader (BitVec w) := do
  return (← Reader.readByte).toBitVec.signExtend w

variable (C : Conversions)

def boolean : TypedRead Bool where
  limit := 10
  texts := ⟨"Reached the end of the Stream", "Cannot convert NULL value to boolean.", "not a boolean type",
    .cmsException⟩
  table
    | .boolean => some Reader.readBoolean
    | .string => some (parsed fun text => .ok (C.parseBoolean text))
    | _ => none

def byte : TypedRead UInt8 where
  limit := 10
  texts := ⟨"reached end of data", "Cannot convert NULL value to byte.", " not a byte type", .messageFormatException⟩
  table
    | .byte => some Reader.readByte
    | .string => some (parsed Byte.parseByte)
    | _ => none

def char : TypedRead UInt8 where
  limit := 17
  texts := ⟨"reached end of data", "Cannot convert NULL value to char.", " not a char type", .cmsException⟩
  table
    | .char => some Reader.readChar
    | _ => none

def float : TypedRead (BitVec 32) where
  limit := 33
  texts := ⟨"reached end of data", "Cannot convert NULL value to float.", " not a float type", .cmsException⟩
  table
    | .float => some Reader.readFloat
    | .string => some (parsed C.parseFloat)
    | _ => none

def double : TypedRead (BitVec 64) where
  limit := 33
  texts := ⟨"reached end of data", "Cannot convert NULL value to double.", " not a double type", .cmsException⟩
  table
    | .double => some Reader.readDouble
    | .float => some (do return C.floatToDouble (← Reader.readFloat))
    | .string => some (parsed C.parseDouble)
    | _ => none

def short : TypedRead (BitVec 16) where
  limit := 17
  texts := ⟨"reached end of data", "Cannot convert NULL value to short.", " not a short type", .cmsException⟩
  table
    | .short => some Reader.readShort
    | .byte => some (widenedByte 16)
    | .string => some (parsed Short.parseShort)
    | _ => none

def unsignedShort : TypedRead (BitVec 16) where
  limit := 17
  texts := ⟨"reached end of data", "Cannot convert NULL value to short.", " not a short type", .cmsException⟩
  table
    | .short => some Reader.readUnsignedShort
    | .byte => some (widenedByte 16)
    | .string => some (parsed Short.parseShort)
    | _ => none

def int : TypedRead (BitVec 32) where
  limit := 33
  texts := ⟨"reached end of data", "Cannot convert NULL value to int.", " not a int type", .cmsException⟩
  table
    | .integer => some Reader.readInt
    | .short => some (do return (← Reader.readShort).signExtend 32)
    | .byte => some (widenedByte 32)
    | .string => some (parsed fun text => (Integer.parseInt text).map (BitVec.ofInt 32))
    | _ => none

def long : TypedRead (BitVec 64) where
  limit := 65
  texts := ⟨"reached end of data", "Cannot convert NULL value to long.", " not a long type", .cmsException⟩
  table
    | .long => some Reader.readLong
    | .integer => some (do return (← Reader.readInt).signExtend 64)
    | .short => some (do return (← Reader.readShort).signExtend 64)
    | .byte => some (widenedByte 64)
    | .string => some (parsed fun text => (Long.parseLong text).map (BitVec.ofInt 64))
    | _ => none

def string : TypedRead ByteString where
  limit := 65
  texts := ⟨"reached end of data", "", " not a String type", .cmsException⟩
  table
    | .null => some (pure [])
    | .bigString => some readString32
    | .string => some readString16
    | .long => some (do return Long.toString (← Reader.readLong).toInt)
    | .integer => some (do return Long.toString (← Reader.readInt).toInt)
    | .short => some (do return Long.toString (← Reader.readShort).toInt)
    | .byte => some (do return Long.toString (← Reader.readByte).toNat)
    | .float => some (do return C.floatToString (← Reader.readFloat))
    | .double => some (do return C.doubleToString (← Reader.readDouble))
    | .boolean => some (do return ascii (if ← Reader.readBoolean then "true" else "false"))
    | .char => some (do return [← Reader.readChar])
    | _ => none

/-! ### Without marks -/

open Reader

@[simp] theorem onBytes_parsed (parse : ByteString → Except Failure α) :
    (parsed parse).onBytes = Commands.parsed parse := by
  rw [parsed, onBytes_bind, onBytes_readUTF, Commands.parsed]
  congr 1
  funext text
  cases parse text with
  | ok a => rfl
  | error e => rfl

@[simp] theorem onBytes_readStringBytes (utfLength : Int) :
    (readStringBytes utfLength).onBytes = Commands.readStringBytes utfLength := by
  unfold readStringBytes Commands.readStringBytes
  by_cases hpos : utfLength > 0
  · rw [if_pos hpos, if_pos hpos, onBytes_readFully]
  · rw [if_neg hpos, if_neg hpos, onBytes_pure]

@[simp] theorem onBytes_readString16 : readString16.onBytes = Commands.readString16 := by
  rw [readString16, onBytes_mapError, onBytes_bind, onBytes_readShort, Commands.readString16]
  simp only [onBytes_readStringBytes]

@[simp] theorem onBytes_readString32 : readString32.onBytes = Commands.readString32 := by
  rw [readString32, onBytes_mapError, onBytes_bind, onBytes_readInt, Commands.readString32]
  simp only [onBytes_readStringBytes]

@[simp] theorem onBytes_widenedByte (w : Nat) : (widenedByte w).onBytes = Read.widenedByte w := by
  rw [widenedByte, onBytes_bind, onBytes_readByte, Read.widenedByte]
  rfl

theorem onBytes_boolean : (boolean C).onBytes = Read.boolean C := by
  unfold onBytes Read.boolean
  congr 1
  funext type
  cases type <;> simp [boolean]

theorem onBytes_byte : byte.onBytes = Read.byte := by
  unfold onBytes Read.byte
  congr 1
  funext type
  cases type <;> simp [byte]

theorem onBytes_char : char.onBytes = Read.char := by
  unfold onBytes Read.char
  congr 1
  funext type
  cases type <;> simp [char]

theorem onBytes_float : (float C).onBytes = Read.float C := by
  unfold onBytes Read.float
  congr 1
  funext type
  cases type <;> simp [float]

theorem onBytes_double : (double C).onBytes = Read.double C := by
  unfold onBytes Read.double
  congr 1
  funext type
  cases type <;> simp [double, onBytes_bind]

theorem onBytes_short : short.onBytes = Read.short := by
  unfold onBytes Read.short
  congr 1
  funext type
  cases type <;> simp [short]

theorem onBytes_unsignedShort : unsignedShort.onBytes = Read.unsignedShort := by
  unfold onBytes Read.unsignedShort
  congr 1
  funext type
  cases type <;> simp [unsignedShort]

theorem onBytes_int : int.onBytes = Read.int := by
  unfold onBytes Read.int
  congr 1
  funext type
  cases type <;> simp [int, onBytes_bind]

theorem onBytes_long : long.onBytes = Read.long := by
  unfold onBytes Read.long
  congr 1
  funext type
  cases type <;> simp [long, onBytes_bind]

theorem onBytes_string : (string C).onBytes = Read.string C := by
  unfold onBytes Read.string
  congr 1
  funext type
  cases type <;> simp [string, onBytes_bind]

theorem onBytes_cons (read : TypedRead α) (type : UInt8) (rest : List UInt8) :
    read.onBytes (type :: rest) = match (PrimitiveType.ofByte? type).bind read.table with
      | some reader =>
        match reader.onBytes rest with
        | .ok a s => .ok a s
        | .error (.thrown .numberFormatException message) _ =>
          .error (.thrown (.cms read.texts.numberFormat) message) (type :: rest)
        | .error e s => .error (catchRead e) s
      | none =>
        if type = PrimitiveType.null.toByte then .error (.thrown (.cms .cmsException) read.texts.null) (type :: rest)
        else .error (.thrown (.cms .messageFormatException) read.texts.format) (type :: rest) := by
  unfold onBytes
  cases hknown : PrimitiveType.ofByte? type with
  | none => simp only [readTyped, hknown, Option.bind_none]
  | some known =>
    simp only [readTyped, hknown, Option.bind_some]
    cases read.table known with
    | none => rfl
    | some reader => rfl

theorem onBytes_map (f : α → β) (read : TypedRead α) (input : List UInt8) :
    (read.map f).onBytes input = match read.onBytes input with
      | .ok a s => .ok (f a) s
      | .error e s => .error e s := by
  cases input with
  | nil => rfl
  | cons type rest =>
    rw [onBytes_cons, onBytes_cons]
    cases hknown : PrimitiveType.ofByte? type with
    | none =>
      simp only [Option.bind_none, map]
      by_cases hnull : type = PrimitiveType.null.toByte
      · rw [if_pos hnull, if_pos hnull]
      · rw [if_neg hnull, if_neg hnull]
    | some known =>
      simp only [Option.bind_some, map]
      cases read.table known with
      | none =>
        simp only [Option.map_none]
        by_cases hnull : type = PrimitiveType.null.toByte
        · rw [if_pos hnull, if_pos hnull]
        · rw [if_neg hnull, if_neg hnull]
      | some reader =>
        simp only [Option.map_some, onBytes_bind, bind_run]
        cases reader.onBytes rest with
        | ok a s => rfl
        | error e s =>
          cases e with
          | undefined => rfl
          | thrown type message => cases type <;> rfl

theorem run_bytes (read : TypedRead α) (input marked : List UInt8) :
    read.run choose (.bytes input marked) = match read.onBytes input with
      | .ok a s => .ok a (.bytes s input)
      | .error e s => .error e (.bytes s input) := by
  cases input with
  | nil => rfl
  | cons type rest =>
    have hrun : read.run choose (.bytes (type :: rest) marked)
        = read.afterType choose type (.bytes rest (type :: rest)) := rfl
    rw [hrun, afterType, onBytes_cons]
    cases (PrimitiveType.ofByte? type).bind read.table with
    | none =>
      simp only [refuse, MarkedSource.reset]
      by_cases hnull : type = PrimitiveType.null.toByte
      · rw [if_pos hnull, if_pos hnull]
      · rw [if_neg hnull, if_neg hnull]
    | some reader =>
      simp only [accept, Reader.run_bytes]
      cases reader.onBytes rest with
      | ok a s => rfl
      | error e s =>
        cases e with
        | undefined => rfl
        | thrown type message => cases type <;> rfl

end TypedRead

/-! ### The message -/

/-- The stream open on the content, and what is left of a byte array whose reading has begun. -/
structure Reading where
  source : MarkedSource
  remainingBytes : Int := -1

namespace Reading

variable {α : Type}

abbrev M := EStateM Failure Reading

def onSource (work : EStateM Failure MarkedSource α) : M α := fun r =>
  match work r.source with
  | .ok a source => .ok a { r with source := source }
  | .error e source => .error e { r with source := source }

variable (choose : Nat → Nat)

def readArrayHeader (length : Int) : EStateM Failure MarkedSource Int := do
  modify (MarkedSource.mark (toInt32 (length + 1)))
  match ← MarkedSource.read choose with
  | none => throw (.thrown (.cms .messageEOFException) "reached end of data")
  | some type =>
    if type ≠ PrimitiveType.byteArray.toByte then
      throw (.thrown (.cms .messageFormatException) "Not a byte array")
    else return (← Reader.readInt.run choose).toInt

def readPiece (length : Int) : M (Int × ByteString) := do
  let r ← get
  if length ≤ r.remainingBytes then
    set { r with remainingBytes := r.remainingBytes - length }
    let bytes ← onSource ((Reader.readFully length).run choose)
    return (length, bytes)
  else
    let result ← onSource (MarkedSource.readArray choose length 0 r.remainingBytes)
    modify fun r => { r with remainingBytes := 0 }
    match result with
    | none => return (-1, [])
    | some bytes => return (bytes.length, bytes)

def readBytes (length : Int) : M (Int × ByteString) :=
  mapError catchRead do
    let r ← get
    if r.remainingBytes = -1 then
      let size ← onSource (readArrayHeader choose length)
      modify fun r => { r with remainingBytes := size }
      readPiece choose length
    else if r.remainingBytes = 0 then
      set { r with remainingBytes := -1 }
      return (-1, [])
    else readPiece choose length

end Reading

/-- The typed read of the message, or the length of the buffer of a `readBytes`. -/
def ReadOp.typedRead (C : Conversions) : ReadOp → TypedRead StreamValue ⊕ Nat
  | .boolean => .inl ((TypedRead.boolean C).map .boolean)
  | .byte => .inl (TypedRead.byte.map .byte)
  | .char => .inl (TypedRead.char.map .char)
  | .short => .inl (TypedRead.short.map .short)
  | .unsignedShort => .inl (TypedRead.unsignedShort.map .unsignedShort)
  | .int => .inl (TypedRead.int.map .int)
  | .long => .inl (TypedRead.long.map .long)
  | .float => .inl ((TypedRead.float C).map .float)
  | .double => .inl ((TypedRead.double C).map .double)
  | .string => .inl ((TypedRead.string C).map .string)
  | .bytes length => .inr length

def ReadResult.ofRead {α : Type} (f : α → ReadResult) : EStateM.Result Failure Reading α → ReadResult × Reading
  | .ok a r => (f a, r)
  | .error (.thrown (.cms .messageEOFException) _) r => (.eof, r)
  | .error e r => (.failed e, r)

def ReadOp.runOn (choose : Nat → Nat) (C : Conversions) (op : ReadOp) (r : Reading) : ReadResult × Reading :=
  match op.typedRead C with
  | .inl read => ReadResult.ofRead .value (Reading.onSource (read.run choose) r)
  | .inr length => ReadResult.ofRead (fun p => .piece p.1 p.2) (Reading.readBytes choose length r)

/-- On content that is not compressed the typed reads are those of the message without marks. -/
theorem ReadOp.runOn_bytes {Z : Zip} (choose : Nat → Nat) (C : Conversions) {op : ReadOp} (hop : op.isBytes = false)
    {m : StreamMessage Z} {input : List UInt8} (marked : List UInt8) (hread : m.readOnlyBody = true)
    (hpos : m.position = some input) :
    ∃ rest, op.run C m = ((op.runOn choose C ⟨.bytes input marked, m.remainingBytes⟩).1,
        { m with dataIn := some (some rest) }) ∧
      (op.runOn choose C ⟨.bytes input marked, m.remainingBytes⟩).2 = ⟨.bytes rest input, m.remainingBytes⟩ := by
  have hcall : ∀ {α : Type} (f : α → StreamValue) (read : TypedRead α) (reads : DataIn α), read.onBytes = reads →
      ∃ rest, ReadResult.ofCall (fun a => .value (f a)) (StreamMessage.reading reads m)
          = ((ReadResult.ofRead .value
              (Reading.onSource ((read.map f).run choose) ⟨.bytes input marked, m.remainingBytes⟩)).1,
            { m with dataIn := some (some rest) }) ∧
        (ReadResult.ofRead .value
          (Reading.onSource ((read.map f).run choose) ⟨.bytes input marked, m.remainingBytes⟩)).2
            = ⟨.bytes rest input, m.remainingBytes⟩ := by
    intro α f read reads hreads
    simp only [StreamMessage.reading_run hread hpos, Reading.onSource, TypedRead.run_bytes, TypedRead.onBytes_map,
      hreads]
    cases reads input with
    | ok a rest => exact ⟨rest, rfl, rfl⟩
    | error e rest =>
      refine ⟨rest, ?_⟩
      cases e with
      | undefined => exact ⟨rfl, rfl⟩
      | thrown type message =>
        cases type with
        | cms type => cases type <;> exact ⟨rfl, rfl⟩
        | _ => exact ⟨rfl, rfl⟩
  cases op with
  | boolean => exact hcall _ _ _ (TypedRead.onBytes_boolean C)
  | byte => exact hcall _ _ _ TypedRead.onBytes_byte
  | char => exact hcall _ _ _ TypedRead.onBytes_char
  | short => exact hcall _ _ _ TypedRead.onBytes_short
  | unsignedShort => exact hcall _ _ _ TypedRead.onBytes_unsignedShort
  | int => exact hcall _ _ _ TypedRead.onBytes_int
  | long => exact hcall _ _ _ TypedRead.onBytes_long
  | float => exact hcall _ _ _ (TypedRead.onBytes_float C)
  | double => exact hcall _ _ _ (TypedRead.onBytes_double C)
  | string => exact hcall _ _ _ (TypedRead.onBytes_string C)
  | bytes length => cases hop

def runAllOn (choose : Nat → Nat) (C : Conversions) : List ReadOp → Reading → List ReadResult
  | [], _ => []
  | op :: ops, r => (op.runOn choose C r).1 :: runAllOn choose C ops (op.runOn choose C r).2

/-- So are the answers to any sequence of them. -/
theorem runAllOn_eq_runAll {Z : Zip} (choose : Nat → Nat) (C : Conversions) {ops : List ReadOp}
    (hops : ∀ op ∈ ops, op.isBytes = false) {m : StreamMessage Z} {input : List UInt8} (marked : List UInt8)
    (hread : m.readOnlyBody = true) (hpos : m.position = some input) :
    runAllOn choose C ops ⟨.bytes input marked, m.remainingBytes⟩ = runAll C ops m := by
  induction ops generalizing m input marked with
  | nil => rfl
  | cons op ops ih =>
    obtain ⟨rest, hrun, hnext⟩ := ReadOp.runOn_bytes choose C (hops op List.mem_cons_self) marked hread hpos
    have hrest := ih (fun op hop => hops op (List.mem_cons_of_mem _ hop)) (m := { m with dataIn := some (some rest) })
      input hread rfl
    rw [runAllOn, runAll, hrun, hnext, ← hrest]

/-- A `short` is refused as a `byte` and then read. -/
theorem runAllOn_eq_runAll_refused : let m : StreamMessage Zip.storing := { content := [3, 1, 2], readOnlyBody := true }
    runAllOn id noConversions [.byte, .short, .short] ⟨.bytes m.content [], m.remainingBytes⟩ =
      runAll noConversions [.byte, .short, .short] m := by
  intro m
  exact runAllOn_eq_runAll id noConversions (by decide) [] rfl (rfl : m.position = some m.content)

end ActiveMQCpp.Commands
