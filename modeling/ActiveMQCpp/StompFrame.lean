import ActiveMQCpp.DecafInteger
import ActiveMQCpp.LibOrderedMap

/-! `StompFrame`: a command, a map of headers and a body, written to and read from a data stream. -/

namespace ActiveMQCpp.Stomp

open Codec Decaf MachineInt

structure StompFrame where
  command : ByteString
  properties : OrderedMap ByteString ByteString
  body : ByteString

namespace StompFrame

variable {input rest : List UInt8} {line : ByteString}
variable {buffer : ByteString}

def fresh : StompFrame := ⟨[], .empty, []⟩

/-- `StompCommandConstants::HEADER_CONTENTLENGTH`. -/
def headerContentLength : ByteString := ascii "content-length"

def hasProperty (frame : StompFrame) (name : ByteString) : Bool := (frame.properties.find name).isSome

def getProperty (frame : StompFrame) (name fallback : ByteString) : ByteString :=
  (frame.properties.find name).getD fallback

def setProperty (frame : StompFrame) (name value : ByteString) : StompFrame :=
  { frame with properties := frame.properties.insert name value }

/-- A string or a buffer, with its size cast to an `int`. -/
def writeString (bytes : ByteString) : DataOut Unit :=
  DataOutputStream.write bytes (toInt32 bytes.length) 0 (toInt32 bytes.length)

def writeHeader (header : ByteString × ByteString) : DataOut Unit := do
  writeString header.1
  DataOutputStream.put [58]
  writeString header.2
  DataOutputStream.put [10]

def writeBody (frame : StompFrame) : DataOut Unit :=
  if frame.body.length > 0 then writeString frame.body else pure ()

/-- The terminating NUL, which a body without a content-length header is expected to bring along. -/
def writeTerminator (frame : StompFrame) : DataOut Unit :=
  if frame.body.length = 0 ∨ frame.getProperty headerContentLength [] ≠ [] then DataOutputStream.put [0]
  else pure ()

def toStream (frame : StompFrame) : DataOut Unit := do
  writeString frame.command
  DataOutputStream.put [10]
  frame.properties.entries.forM writeHeader
  DataOutputStream.put [10]
  frame.writeBody
  frame.writeTerminator
  DataOutputStream.put [10]

/-- The loop of `readHeaderLine`, with the bytes read so far. The buffer it fills ends with the NUL that
overwrites the line feed. -/
def readLine (buffer : ByteString) : DataIn ByteString
  | [] => (do let c ← DataInputStream.readByte; pure [c] : DataIn ByteString) []
  | c :: rest => if c = 10 then .ok (buffer ++ [0]) rest else readLine (buffer ++ [c]) rest

def readHeaderLine : DataIn ByteString := mapError catchExceptionConvert (readLine [])

/-- The C string that starts at the first byte of a buffer. -/
def cString (buffer : ByteString) : ByteString := buffer.takeWhile (· ≠ 0)

theorem readLine_length
    (h : readLine buffer input = .ok line rest) : line.length + rest.length = buffer.length + input.length := by
  induction input generalizing buffer with
  | nil => cases h
  | cons c input ih =>
    rw [readLine] at h
    split_ifs at h with hc
    · cases h
      simp only [List.length_append, List.length_cons, List.length_nil]
      omega
    · have := ih h
      simp only [List.length_append, List.length_cons, List.length_nil] at this ⊢
      omega

theorem readLine_pos (h : readLine buffer input = .ok line rest) : ∃ init, line = init ++ [0] := by
  induction input generalizing buffer with
  | nil => cases h
  | cons c input ih =>
    rw [readLine] at h
    split_ifs at h with hc
    · cases h
      exact ⟨buffer, rfl⟩
    · exact ih h

/-- A header line takes as many bytes from the stream as it puts into the buffer. -/
theorem readHeaderLine_spec (h : readHeaderLine input = .ok line rest) :
    line.length + rest.length = input.length ∧ ∃ init, line = init ++ [0] := by
  have hline := mapError_eq_ok.mp h
  have hlength := readLine_length hline
  rw [List.length_nil] at hlength
  exact ⟨by omega, readLine_pos hline⟩

theorem readHeaderLine_lt (h : readHeaderLine input = .ok line rest) : rest.length < input.length := by
  obtain ⟨hlength, init, rfl⟩ := readHeaderLine_spec h
  rw [List.length_append, List.length_singleton] at hlength
  omega

/-- The loop of `readCommandHeader`: lines of white space before the command are skipped. -/
def readCommandLine (frame : StompFrame) (input : List UInt8) : EStateM.Result Failure (List UInt8) StompFrame :=
  match _hline : readHeaderLine input with
  | .error e rest => .error e rest
  | .ok buffer rest =>
    match buffer.dropLast.findIdx? fun c => !Character.isWhitespace c with
    | some offset => .ok { frame with command := cString (buffer.drop offset) } rest
    | none => readCommandLine frame rest
termination_by input.length
decreasing_by exact readHeaderLine_lt _hline

def readCommandHeader (frame : StompFrame) : DataIn StompFrame :=
  mapError catchExceptionConvert (readCommandLine frame)

/-- A header line, split at its first colon. The first value of a header wins. -/
def putHeader (frame : StompFrame) (buffer : ByteString) : StompFrame :=
  match buffer.findIdx? (· = 58) with
  | none => frame
  | some ix =>
    let line := buffer.set ix 0
    let key := cString line
    let value := cString (line.drop (ix + 1))
    if frame.hasProperty key then frame else frame.setProperty key value

/-- The loop of `readHeaders`. -/
def readHeaderLines (frame : StompFrame) (input : List UInt8) :
    EStateM.Result Failure (List UInt8) StompFrame :=
  match _hline : readHeaderLine input with
  | .error e rest => .error e rest
  | .ok buffer rest =>
    if buffer.length = 0 then
      .error (.thrown .ioException "StompWireFormat::readStompHeaders: no characters read") rest
    else if buffer = [0] then .ok frame rest
    else readHeaderLines (frame.putHeader buffer) rest
termination_by input.length
decreasing_by exact readHeaderLine_lt _hline

def readHeaders (frame : StompFrame) : DataIn StompFrame :=
  mapError catchExceptionConvert (readHeaderLines frame)

/-- The loop of `readBody` that reads up to the first NUL, which it keeps. -/
def readUntilNull (body : ByteString) : DataIn ByteString
  | [] => (do let c ← DataInputStream.readByte; pure [c] : DataIn ByteString) []
  | c :: rest => if c ≠ 0 then readUntilNull (body ++ [c]) rest else .ok (body ++ [c]) rest

/-- The length that the content-length header gives, as an `unsigned int`; zero without one. -/
def contentLength (frame : StompFrame) : Except Failure Nat :=
  if frame.hasProperty headerContentLength then
    match Integer.parseInt (frame.getProperty headerContentLength []) with
    | .ok length => .ok (toUInt32 length)
    | .error e => .error e
  else .ok 0

/-- The branch of `readBody` for a non-zero content length. -/
def readCounted (length : Nat) : DataIn ByteString := do
  let body ← DataInputStream.readFully (toInt32 length)
  let terminator ← DataInputStream.readByte
  if terminator ≠ 0 then
    throw (.thrown .ioException "StompWireFormat::readStompBody: Read Content Length, and no trailing null")
  else pure body

def readContent (length : Nat) : DataIn ByteString :=
  if length ≠ 0 then readCounted length else readUntilNull []

def readBody (frame : StompFrame) : DataIn StompFrame :=
  mapError catchExceptionConvert do
    match frame.contentLength with
    | .error e => throw e
    | .ok length =>
      let body ← readContent length
      pure { frame with body := body }

def fromStream (frame : StompFrame) : DataIn StompFrame :=
  mapError catchExceptionConvert do
    let frame ← frame.readCommandHeader
    let frame ← frame.readHeaders
    frame.readBody

end StompFrame

end ActiveMQCpp.Stomp
