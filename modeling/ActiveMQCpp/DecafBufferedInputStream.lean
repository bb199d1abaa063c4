import ActiveMQCpp.DecafInteger
import ActiveMQCpp.LibBuffer
import ActiveMQCpp.LibRefinement

/-! `decaf::io::BufferedInputStream` over a stream that yields its bytes in chunks. -/

namespace ActiveMQCpp.Decaf

open MachineInt

/-- The exceptions of the stream. After `undefined` and `unending` nothing is said: a byte that was never written has
been read, or the loop of a call does not end. -/
inductive StreamException where
  | ioException
  | indexOutOfBoundsException
  | undefined
  | unending
  deriving DecidableEq

inductive StreamAnswer where
  | byte (b : UInt8)
  | bytes (bs : ByteString)
  | endOfStream
  | skipped (n : Int)
  | done
  | failed (e : StreamException)
  deriving DecidableEq

inductive StreamOp where
  | read
  | readArray (size offset length : Int)
  | skip (amount : Int)
  | mark (readLimit : Int)
  | reset

/-! ### The wrapped stream -/

/-- The bytes that are left. `choose` says how many the stream yields, or claims to have, in the turn. -/
structure WrappedStream where
  rest : ByteString
  turn : Nat := 0
  deriving DecidableEq

namespace WrappedStream

variable (choose : Nat → Nat)

/-- Nothing is returned at the end, for `-1`. -/
def read (length : Nat) (stream : WrappedStream) : Option ByteString × WrappedStream :=
  if length = 0 then (some [], stream)
  else if stream.rest = [] then (none, { stream with turn := stream.turn + 1 })
  else
    let n := max 1 (min (choose stream.turn) length)
    (some (stream.rest.take n), { rest := stream.rest.drop n, turn := stream.turn + 1 })

def available (stream : WrappedStream) : Nat × WrappedStream :=
  (choose stream.turn, { stream with turn := stream.turn + 1 })

def skip (amount : Int) (stream : WrappedStream) : Nat × WrappedStream :=
  let n := min (choose stream.turn) (min amount.toNat stream.rest.length)
  (n, { rest := stream.rest.drop n, turn := stream.turn + 1 })

end WrappedStream

/-! ### The buffer -/

/-- A stream that is not closed. No `markPos` is `-1`; a byte of the buffer that was never written is missing. -/
structure BufferedInputStream where
  inputStream : WrappedStream
  pos : Nat := 0
  count : Nat := 0
  markLimit : Int := -1
  markPos : Option Nat := none
  bufferSize : Nat := 8192
  buffer : List (Option UInt8)
  deriving DecidableEq

namespace BufferedInputStream

def new (bytes : ByteString) (bufferSize : Nat) : BufferedInputStream :=
  { inputStream := { rest := bytes }, bufferSize := bufferSize, buffer := List.replicate bufferSize none }

variable (choose : Nat → Nat)

/-- The branch of `bufferData` without a mark, or beyond its limit. -/
def fillFresh (s : BufferedInputStream) : Except StreamException (Option Nat) × BufferedInputStream :=
  match s.inputStream.read choose s.bufferSize with
  | (none, stream) => (.ok none, { s with inputStream := stream })
  | (some bytes, stream) =>
    if bytes.length > 0 then
      (.ok (some bytes.length), { s with
        inputStream := stream
        buffer := Buffer.overwrite s.buffer 0 (bytes.map some)
        markLimit := 0
        markPos := none
        pos := 0
        count := bytes.length })
    else (.ok (some 0), { s with inputStream := stream })

/-- A larger buffer, or the bytes from the mark on at the start of this one. The array of a larger buffer is new: the
copy of the bytes goes from the new array to the old one, which is deleted then. Its length is an `int`, and there is
no array if that is negative. -/
def makeRoom (markPos : Nat) (s : BufferedInputStream) : Option BufferedInputStream :=
  if markPos = 0 ∧ s.markLimit > s.bufferSize then
    let newLength := toInt32 (s.bufferSize * 2)
    let newLength := if newLength > s.markLimit then s.markLimit else newLength
    if newLength < 0 then none
    else some { s with buffer := List.replicate newLength.toNat none, bufferSize := newLength.toNat }
  else if markPos > 0 then some { s with buffer := Buffer.overwrite s.buffer 0 (s.buffer.drop markPos) }
  else some s

/-- The branch that keeps the bytes from the mark on. -/
def fillMarked (markPos : Nat) (s : BufferedInputStream) : Except StreamException (Option Nat) × BufferedInputStream :=
  match s.makeRoom markPos with
  | none => (.error .ioException, s)
  | some s =>
    let s := { s with pos := s.pos - markPos, count := 0, markPos := some 0 }
    match s.inputStream.read choose (s.bufferSize - s.pos) with
    | (none, stream) => (.ok none, { s with inputStream := stream, count := s.pos })
    | (some bytes, stream) =>
      (.ok (some bytes.length), { s with
        inputStream := stream
        buffer := Buffer.overwrite s.buffer s.pos (bytes.map some)
        count := s.pos + bytes.length })

def bufferData (s : BufferedInputStream) : Except StreamException (Option Nat) × BufferedInputStream :=
  match s.markPos with
  | none => s.fillFresh choose
  | some markPos =>
    if (s.pos : Int) - markPos ≥ s.markLimit then s.fillFresh choose else s.fillMarked choose markPos

/-! ### The operations -/

def written : List (Option UInt8) → Option ByteString
  | [] => some []
  | none :: _ => none
  | some b :: cells => (written cells).map (b :: ·)

/-- `buffer[pos++]`. -/
def takeByte (s : BufferedInputStream) : StreamAnswer × BufferedInputStream :=
  if s.pos ≠ s.count then
    match s.buffer[s.pos]? with
    | some (some b) => (.byte b, { s with pos := s.pos + 1 })
    | _ => (.failed .undefined, s)
  else (.endOfStream, s)

def read (s : BufferedInputStream) : StreamAnswer × BufferedInputStream :=
  if s.pos ≥ s.count then
    match s.bufferData choose with
    | (.error e, s) => (.failed e, s)
    | (.ok none, s) => (.endOfStream, s)
    | (.ok (some _), s) => s.takeByte
  else s.takeByte

/-- What the loop returns at the end of the stream, after it has copied `bytes`. -/
def gathered (bytes : ByteString) : StreamAnswer := if bytes = [] then .endOfStream else .bytes bytes

/-- What a turn of the loop of `doReadArrayBounded` copies: directly from the wrapped stream, or out of the buffer. -/
def readTurn (required : Nat) (s : BufferedInputStream) :
    Except StreamException (Option ByteString) × BufferedInputStream :=
  if s.markPos = none ∧ required ≥ s.bufferSize then
    match s.inputStream.read choose required with
    | (copied, stream) => (.ok copied, { s with inputStream := stream })
  else
    match s.bufferData choose with
    | (.error e, s) => (.error e, s)
    | (.ok none, s) => (.ok none, s)
    | (.ok (some _), s) =>
      let read := min required (s.count - s.pos)
      match written ((s.buffer.drop s.pos).take read) with
      | some copied => (.ok (some copied), { s with pos := s.pos + read })
      | none => (.error .undefined, s)

/-- The loop, for so many turns; every turn copies a byte at least, unless the buffer has no room for one. -/
def readLoop : (turns required : Nat) → ByteString → BufferedInputStream → StreamAnswer × BufferedInputStream
  | 0, _, _, s => (.failed .unending, s)
  | turns + 1, required, bytes, s =>
    match s.readTurn choose required with
    | (.error e, s) => (.failed e, s)
    | (.ok none, s) => (gathered bytes, s)
    | (.ok (some copied), s) =>
      if required - copied.length = 0 then (.bytes (bytes ++ copied), s)
      else
        let (n, stream) := s.inputStream.available choose
        let s := { s with inputStream := stream }
        if n = 0 then (.bytes (bytes ++ copied), s)
        else readLoop turns (required - copied.length) (bytes ++ copied) s

/-- `doReadArrayBounded`: the bytes that are copied to `offset` and the places behind it. -/
def readArray (size offset length : Int) (s : BufferedInputStream) : StreamAnswer × BufferedInputStream :=
  if offset > size ∨ offset < 0 then (.failed .indexOutOfBoundsException, s)
  else if length < 0 ∨ length > size - offset then (.failed .indexOutOfBoundsException, s)
  else if length = 0 then (.bytes [], s)
  else if s.pos < s.count then
    let copylength := min length.toNat (s.count - s.pos)
    match written ((s.buffer.drop s.pos).take copylength) with
    | some bytes =>
      let s := { s with pos := s.pos + copylength }
      if (copylength : Int) = length then (.bytes bytes, s)
      else
        let (n, stream) := s.inputStream.available choose
        let s := { s with inputStream := stream }
        if n = 0 then (.bytes bytes, s)
        else s.readLoop choose (length.toNat - copylength) (length.toNat - copylength) bytes
    | none => (.failed .undefined, s)
  else s.readLoop choose length.toNat length.toNat []

def skip (amount : Int) (s : BufferedInputStream) : StreamAnswer × BufferedInputStream :=
  if amount = 0 then (.skipped 0, s)
  else if (s.count : Int) - s.pos ≥ amount then
    let pos := (s.pos : Int) + amount
    if pos < 0 then (.failed .undefined, s) else (.skipped amount, { s with pos := pos.toNat })
  else
    let read := s.count - s.pos
    let s := { s with pos := s.count }
    if s.markPos ≠ none ∧ amount ≤ s.markLimit then
      match s.bufferData choose with
      | (.error e, s) => (.failed e, s)
      | (.ok none, s) => (.skipped read, s)
      | (.ok (some _), s) =>
        if (s.count : Int) - s.pos ≥ amount - read then
          (.skipped amount, { s with pos := s.pos + (amount - read).toNat })
        else (.skipped (read + (s.count - s.pos) : Nat), { s with pos := s.count })
    else
      let (n, stream) := s.inputStream.skip choose (amount - read)
      (.skipped (read + n : Nat), { s with inputStream := stream })

def mark (readLimit : Int) (s : BufferedInputStream) : BufferedInputStream :=
  { s with markLimit := readLimit, markPos := some s.pos }

def reset (s : BufferedInputStream) : StreamAnswer × BufferedInputStream :=
  match s.markPos with
  | none => (.failed .ioException, s)
  | some markPos => (.done, { s with pos := markPos })

def step (s : BufferedInputStream) : StreamOp → StreamAnswer × BufferedInputStream
  | .read => s.read choose
  | .readArray size offset length => s.readArray choose size offset length
  | .skip amount => s.skip choose amount
  | .mark readLimit => (.done, s.mark readLimit)
  | .reset => s.reset

end BufferedInputStream

end ActiveMQCpp.Decaf
