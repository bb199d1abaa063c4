import ActiveMQCpp.WireTightMarshal

/-! `BrokerError` and its codecs in `BaseDataStreamMarshaller`: a recursive structure with a counted list
inside. Whether the stack trace and the cause are written depends on the setting of the wire format,
which is passed along as `stackTraceEnabled`. -/

namespace ActiveMQCpp.Wire

open Codec Bytes MachineInt Decaf

structure StackTraceElement where
  className : ByteString
  fileName : ByteString
  methodName : ByteString
  /-- An `int`. -/
  lineNumber : BitVec 32
  deriving DecidableEq

structure BrokerError where
  message : ByteString
  exceptionClass : ByteString
  stackTraceElements : List StackTraceElement
  cause : Option BrokerError

/-! ### The tight encoding -/

/-- The loop of phase one over the stack trace; `rc` is an `int`. -/
def tightMarshalStackTrace1 (rc : Int) : List StackTraceElement → EStateM Failure BooleanStream Int
  | [] => pure rc
  | element :: elements => do
    let className ← tightMarshalString1 element.className
    let methodName ← tightMarshalString1 element.methodName
    let fileName ← tightMarshalString1 element.fileName
    tightMarshalStackTrace1
      (toInt32 (toInt32 (toInt32 (toInt32 (rc + className) + methodName) + fileName) + 4)) elements

def tightMarshalBrokerError1 (stackTraceEnabled : Bool) : Option BrokerError → EStateM Failure BooleanStream Int
  | none => mapError catchExceptionConvert do
      BooleanStream.writeBoolean false
      pure 0
  | some ⟨message, exceptionClass, stackTraceElements, cause⟩ => mapError catchExceptionConvert do
      BooleanStream.writeBoolean true
      let classSize ← tightMarshalString1 exceptionClass
      let messageSize ← tightMarshalString1 message
      let rc := toInt32 (toInt32 (0 + classSize) + messageSize)
      if stackTraceEnabled then
        let rc ← tightMarshalStackTrace1 (toInt32 (rc + 2)) stackTraceElements
        let causeSize ← tightMarshalBrokerError1 stackTraceEnabled cause
        pure (toInt32 (rc + causeSize))
      else pure rc

def tightMarshalStackTrace2 : List StackTraceElement → Tight Unit
  | [] => pure ()
  | element :: elements => do
    tightMarshalString2 element.className
    tightMarshalString2 element.methodName
    tightMarshalString2 element.fileName
    onSnd (DataOutputStream.writeInt element.lineNumber)
    tightMarshalStackTrace2 elements

/-- Phase two follows the boolean stream: where it holds a bit for a missing cause, the null pointer is
dereferenced. The loop runs up to the count that has been converted to a `short`. -/
def tightMarshalBrokerError2 (stackTraceEnabled : Bool) : Option BrokerError → Tight Unit
  | none => mapError catchExceptionConvert do
      let present ← onFst BooleanStream.readBoolean
      if present then throw .undefined
  | some ⟨message, exceptionClass, stackTraceElements, cause⟩ => mapError catchExceptionConvert do
      let present ← onFst BooleanStream.readBoolean
      if present then
        tightMarshalString2 exceptionClass
        tightMarshalString2 message
        if stackTraceEnabled then
          let length := BitVec.ofNat 16 stackTraceElements.length
          onSnd (DataOutputStream.writeShort length)
          tightMarshalStackTrace2 (stackTraceElements.take length.toInt.toNat)
          tightMarshalBrokerError2 stackTraceEnabled cause

def tightUnmarshalStackTraceElement : Tight StackTraceElement := do
  let className ← tightUnmarshalString
  let methodName ← tightUnmarshalString
  let fileName ← tightUnmarshalString
  let lineNumber ← onSnd DataInputStream.readInt
  pure ⟨className, fileName, methodName, lineNumber⟩

/-- A loop that collects what its turns return. -/
def collect {σ α : Type} (turn : EStateM Failure σ α) : Nat → EStateM Failure σ (List α)
  | 0 => pure []
  | count + 1 => do
    let item ← turn
    let items ← collect turn count
    pure (item :: items)

/-- `depth` is the number of nested calls the stack has room for. -/
def tightUnmarshalBrokerError (stackTraceEnabled : Bool) : Nat → Tight (Option BrokerError)
  | 0 => throw .undefined
  | depth + 1 => mapError catchExceptionConvert do
      let present ← onFst BooleanStream.readBoolean
      if present then
        let exceptionClass ← tightUnmarshalString
        let message ← tightUnmarshalString
        if stackTraceEnabled then
          let length ← onSnd DataInputStream.readShort
          let stackTrace ← collect tightUnmarshalStackTraceElement length.toInt.toNat
          let cause ← tightUnmarshalBrokerError stackTraceEnabled depth
          pure (some ⟨message, exceptionClass, stackTrace, cause⟩)
        else pure (some ⟨message, exceptionClass, [], none⟩)
      else pure none

/-! ### The loose encoding -/

def looseMarshalStackTrace : List StackTraceElement → DataOut Unit
  | [] => pure ()
  | element :: elements => do
    looseMarshalString element.className
    looseMarshalString element.methodName
    looseMarshalString element.fileName
    DataOutputStream.writeInt element.lineNumber
    looseMarshalStackTrace elements

/-- The loop runs over all elements, whatever the count says. -/
def looseMarshalBrokerError (stackTraceEnabled : Bool) : Option BrokerError → DataOut Unit
  | none => mapError catchExceptionConvert (DataOutputStream.writeBoolean false)
  | some ⟨message, exceptionClass, stackTraceElements, cause⟩ => mapError catchExceptionConvert do
      DataOutputStream.writeBoolean true
      looseMarshalString exceptionClass
      looseMarshalString message
      if stackTraceEnabled then
        DataOutputStream.writeShort (BitVec.ofNat 16 stackTraceElements.length)
        looseMarshalStackTrace stackTraceElements
        looseMarshalBrokerError stackTraceEnabled cause

def looseUnmarshalStackTraceElement : DataIn StackTraceElement := do
  let className ← looseUnmarshalString
  let methodName ← looseUnmarshalString
  let fileName ← looseUnmarshalString
  let lineNumber ← DataInputStream.readInt
  pure ⟨className, fileName, methodName, lineNumber⟩

def looseUnmarshalBrokerError (stackTraceEnabled : Bool) : Nat → DataIn (Option BrokerError)
  | 0 => throw .undefined
  | depth + 1 => mapError catchExceptionConvert do
      let present ← DataInputStream.readBoolean
      if present then
        let exceptionClass ← looseUnmarshalString
        let message ← looseUnmarshalString
        if stackTraceEnabled then
          let length ← DataInputStream.readShort
          let stackTrace ← collect looseUnmarshalStackTraceElement length.toInt.toNat
          let cause ← looseUnmarshalBrokerError stackTraceEnabled depth
          pure (some ⟨message, exceptionClass, stackTrace, cause⟩)
        else pure (some ⟨message, exceptionClass, [], none⟩)
      else pure none

/-- The receiving side: the boolean stream first, then the error. -/
def tightDecodeBrokerError (stackTraceEnabled : Bool) (depth : Nat) : Tight (Option BrokerError) := do
  BooleanStream.unmarshal
  tightUnmarshalBrokerError stackTraceEnabled depth

end ActiveMQCpp.Wire
