import ActiveMQCpp.DecafInteger
import ActiveMQCpp.LibOrderedMap

/-! `decaf::util::Properties`: a map of strings, its text and the parser of that text. -/

namespace ActiveMQCpp.Decaf

open MachineInt

/-- The entries of the object itself; `load` and `store` do not look at the defaults. -/
abbrev Properties := OrderedMap ByteString ByteString

inductive PropertiesException where
  | ioException
  deriving DecidableEq

namespace Properties

/-! ### The text of a string -/

/-- `\u` and four digits. The `char` is an `int` here, and where its digits are more than four the count of the
zeros wraps around: the buffer cannot hold that many, and `store` reports the failure. -/
def unicodeEscape (ch : UInt8) : Except PropertiesException ByteString :=
  let hex := Integer.toHexString (if ch.toNat < 128 then (ch.toNat : Int) else (ch.toNat : Int) - 256)
  if hex.length ≤ 4 then .ok ([92, 117] ++ List.replicate (4 - hex.length) 48 ++ hex) else .error .ioException

def dumpChar (key : Bool) (ch : UInt8) : Except PropertiesException ByteString :=
  if ch = 9 then .ok [92, 116]
  else if ch = 10 then .ok [92, 110]
  else if ch = 12 then .ok [92, 102]
  else if ch = 13 then .ok [92, 114]
  else do
    let slash : ByteString := if ch ∈ ascii "\\#!=:" ∨ (key = true ∧ ch = 32) then [92] else []
    if 32 ≤ ch.toNat ∧ ch.toNat ≤ 126 then .ok (slash ++ [ch])
    else
      let hex ← unicodeEscape ch
      .ok (slash ++ hex)

def dumpChars (key : Bool) : ByteString → Except PropertiesException ByteString
  | [] => .ok []
  | ch :: string => do
    let first ← dumpChar key ch
    let rest ← dumpChars key string
    .ok (first ++ rest)

def dumpString (string : ByteString) (key : Bool) : Except PropertiesException ByteString :=
  if key = false ∧ string.head? = some 32 then do
    let rest ← dumpChars key string.tail
    .ok ([92, 32] ++ rest)
  else dumpChars key string

/-! ### Storing -/

def storeEntry (entry : ByteString × ByteString) : Except PropertiesException ByteString := do
  let key ← dumpString entry.1 true
  let value ← dumpString entry.2 false
  .ok (key ++ [61] ++ value ++ [10])

def storeEntries : List (ByteString × ByteString) → Except PropertiesException ByteString
  | [] => .ok []
  | entry :: entries => do
    let first ← storeEntry entry
    let rest ← storeEntries entries
    .ok (first ++ rest)

/-- The lines before the entries; `date` is the text of the current date. -/
def header (comments date : ByteString) : ByteString :=
  (if comments ≠ [] then [35] ++ comments ++ [10] else []) ++ [35] ++ date ++ [10]

/-- The write of the whole text, with its size as an `int`; an `IndexOutOfBoundsException` of the stream is turned
into an `IOException`. -/
def write (text : ByteString) : Except PropertiesException ByteString :=
  let length := toInt32 text.length
  if length < 0 then .error .ioException else .ok (text.take length.toNat)

/-- `store` to a stream: the bytes that the stream receives. -/
def store (comments date : ByteString) (properties : Properties) : Except PropertiesException ByteString := do
  let entries ← storeEntries properties.entries
  write (header comments date ++ entries)

/-! ### Loading -/

inductive ParsingMode where
  | none
  | slash
  | continue
  | keyDone
  | ignore
  deriving DecidableEq

/-- The variables of `load`. `offset` is the length of `buf`, and no `keyLength` is `-1`; `comment` is set in the
loop that skips a comment. -/
structure Loader where
  mode : ParsingMode := .none
  firstChar : Bool := true
  keyLength : Option Nat := none
  buf : ByteString := []
  comment : Bool := false
  properties : Properties
  deriving DecidableEq

namespace Loader

def append (nextChar : UInt8) (s : Loader) : Loader :=
  let s := { s with firstChar := false }
  let s := if s.mode = .keyDone then { s with keyLength := some s.buf.length, mode := .none } else s
  { s with buf := s.buf ++ [nextChar] }

def putAt (keyLength : Nat) (s : Loader) : Properties :=
  s.properties.insert (s.buf.take keyLength) (s.buf.drop keyLength)

def newLine (s : Loader) : Loader :=
  let properties :=
    if s.buf.length > 0 ∨ s.keyLength = some 0 then s.putAt (s.keyLength.getD s.buf.length) else s.properties
  { properties := properties }

def afterSlash (nextChar : UInt8) (s : Loader) : Loader :=
  let s := { s with mode := .none }
  if nextChar = 13 then { s with mode := .continue }
  else if nextChar = 10 then { s with mode := .ignore }
  else if nextChar = 98 then s.append 8
  else if nextChar = 102 then s.append 12
  else if nextChar = 110 then s.append 10
  else if nextChar = 114 then s.append 13
  else if nextChar = 116 then s.append 9
  else s.append nextChar

/-- A character that is none of the special ones, or is not special where it stands. -/
def other (nextChar : UInt8) (s : Loader) : Loader :=
  if Character.isWhitespace nextChar then
    let s := if s.mode = .continue then { s with mode := .ignore } else s
    if s.buf.length = 0 ∨ s.keyLength = some s.buf.length ∨ s.mode = .ignore then s
    else if s.keyLength = none then { s with mode := .keyDone }
    else s.append nextChar
  else (if s.mode = .ignore ∨ s.mode = .continue then { s with mode := .none } else s).append nextChar

/-- A turn of the loop, or of the inner one that skips a comment. -/
def step (s : Loader) (nextChar : UInt8) : Loader :=
  if s.comment then
    if nextChar = 13 ∨ nextChar = 10 then { s with comment := false } else s
  else if s.mode = .slash then s.afterSlash nextChar
  else if (nextChar = 35 ∨ nextChar = 33) ∧ s.firstChar = true then { s with comment := true }
  else if nextChar = 10 ∧ s.mode = .continue then { s with mode := .ignore }
  else if nextChar = 10 ∨ nextChar = 13 then s.newLine
  else if nextChar = 92 then
    { s with keyLength := if s.mode = .keyDone then some s.buf.length else s.keyLength, mode := .slash }
  else if (nextChar = 58 ∨ nextChar = 61) ∧ s.keyLength = none then
    { s with mode := .none, keyLength := some s.buf.length }
  else s.other nextChar

def finish (s : Loader) : Properties :=
  match if s.keyLength = none ∧ s.buf.length > 0 then some s.buf.length else s.keyLength with
  | some keyLength => s.putAt keyLength
  | none => s.properties

end Loader

/-- `load`, by the bytes that the stream yields. -/
def load (input : ByteString) (properties : Properties) : Properties :=
  (input.foldl Loader.step { properties := properties }).finish

end Properties

end ActiveMQCpp.Decaf
