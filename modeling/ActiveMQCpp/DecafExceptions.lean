import ActiveMQCpp.LibStream

/-! The exceptions of the stream classes and the `catch` clauses that close their functions. -/

namespace ActiveMQCpp.Decaf

open Codec

/-- The classes of the `cms` API, which derive from `std::exception` only. -/
inductive CMSExceptionType where
  | cmsException
  | messageEOFException
  | messageFormatException
  | messageNotReadableException
  | messageNotWriteableException
  deriving DecidableEq, Repr

/-- The exception classes the modelled functions throw. `stdException` stands for what the C++ library
throws (`std::length_error`), which is no `decaf::lang::Exception`. -/
inductive ExceptionType where
  | exception
  | ioException
  | eofException
  | utfDataFormatException
  | indexOutOfBoundsException
  | noSuchElementException
  | classCastException
  | numberFormatException
  | nullPointerException
  | illegalArgumentException
  | illegalStateException
  | unsupportedOperationException
  | stdException
  | cms (type : CMSExceptionType)
  deriving DecidableEq, Repr

/-- The classes derived from `IOException`. -/
def ExceptionType.isIOException : ExceptionType → Bool
  | .ioException | .eofException | .utfDataFormatException => true
  | _ => false

/-- The classes derived from `decaf::lang::Exception`. -/
def ExceptionType.isException : ExceptionType → Bool
  | .stdException | .cms _ => false
  | _ => true

/-- How a function fails to return: it throws, or it runs into behaviour the language leaves
undefined, such as an index outside a vector. -/
inductive Failure where
  | thrown (type : ExceptionType) (message : String)
  | undefined
  deriving DecidableEq, Repr

/-- `DECAF_CATCH_RETHROW(IOException) DECAF_CATCHALL_THROW(IOException)`. -/
def catchAllThrow : Failure → Failure
  | .thrown type message =>
    if type.isIOException then .thrown type message
    else .thrown .ioException "caught unknown exception"
  | .undefined => .undefined

/-- `AMQ_CATCH_RETHROW(IOException) AMQ_CATCH_EXCEPTION_CONVERT(Exception, IOException)
AMQ_CATCHALL_THROW(IOException)`. -/
def catchExceptionConvert : Failure → Failure
  | .thrown type message =>
    if type.isIOException then .thrown type message
    else if type.isException then .thrown .ioException message
    else .thrown .ioException "caught unknown exception"
  | .undefined => .undefined

/-- `AMQ_CATCH_ALL_THROW_CMSEXCEPTION`. -/
def catchAllThrowCMSException : Failure → Failure
  | .thrown (.cms type) message => .thrown (.cms type) message
  | .thrown _ message => .thrown (.cms .cmsException) message
  | .undefined => .undefined

/-- A failure that is an exception leaves either chain of clauses as an `IOException`. -/
theorem catchExceptionConvert_isIOException (type : ExceptionType) (message : String) :
    ∃ type' message', catchExceptionConvert (.thrown type message) = .thrown type' message' ∧
      type'.isIOException = true := by
  unfold catchExceptionConvert
  by_cases hio : type.isIOException = true
  · exact ⟨type, message, by simp [hio], hio⟩
  · by_cases hex : type.isException = true
    · exact ⟨.ioException, message, by simp [hio, hex], rfl⟩
    · exact ⟨.ioException, "caught unknown exception", by simp [hio, hex], rfl⟩

end ActiveMQCpp.Decaf
