import ActiveMQCpp.DecafStringUtils
import ActiveMQCpp.UtilURISupport

/-! `ActiveMQDestination`: the name, the options, the advisory flag and the hash code that `setPhysicalName` takes from
one string, and the destinations of a composite name, which are computed once and kept. -/

namespace ActiveMQCpp.Commands

open Codec MachineInt Decaf Util Words

inductive DestinationType where
  | topic
  | queue
  | temporaryTopic
  | temporaryQueue
  deriving DecidableEq

/-- A destination without the cache of its composites. The connection of a temporary destination is left out. -/
structure Destination where
  destinationType : DestinationType
  physicalName : ByteString := []
  options : Properties := OrderedMap.empty
  advisory : Bool := false
  hashCode : Int := 0

structure ActiveMQDestination extends Destination where
  compositeDestinations : List Destination := []

/-- `HashCode<std::string>`. -/
def hashCodeOf (arg : ByteString) : Int := arg.foldl (fun h c => toInt32 (31 * h + Character.value c)) 0

def advisoryTopicPrefix : ByteString := ascii "ActiveMQ.Advisory."

def qualifiers : List (ByteString × DestinationType) :=
  [(ascii "queue://", .queue), (ascii "topic://", .topic), (ascii "temp-queue://", .temporaryQueue),
    (ascii "temp-topic://", .temporaryTopic)]

namespace ActiveMQDestination

variable (getenv : ByteString → Except Failure ByteString)

/-- The call of `parseQuery` on the options of the destination. -/
def parseOptions (query : ByteString) : EStateM Failure ActiveMQDestination Unit := fun d =>
  match URISupport.parseQueryInto getenv query d.options with
  | .ok () options => .ok () { d with options := options }
  | .error e options => .error e { d with options := options }

def setPhysicalName (physicalName : ByteString) : EStateM Failure ActiveMQDestination Unit := do
  modify fun d => { d with physicalName := physicalName }
  match findFirstOf physicalName (ascii "?") (some 0) with
  | some pos =>
    modify fun d => { d with physicalName := physicalName.take pos }
    parseOptions getenv (physicalName.drop (pos + 1))
  | none => pure ()
  -- The prefix is a set of characters here, and the first one of the name is looked up in it.
  modify fun d => { d with advisory := decide (findFirstOf physicalName advisoryTopicPrefix (some 0) = some 0) }
  modify fun d => { d with compositeDestinations := [] }
  modify fun d => { d with hashCode := hashCodeOf d.physicalName }

def new (type : DestinationType) (name : ByteString) : Except Failure Destination :=
  match setPhysicalName getenv name { destinationType := type } with
  | .ok () d => .ok d.toDestination
  | .error e _ => .error e

def createDestination (type : DestinationType) (name : ByteString) : Except Failure Destination :=
  match qualifiers.find? fun qualifier => qualifier.1.isPrefixOf name with
  | some (qualifier, type) => new getenv type (name.drop qualifier.length)
  | none => new getenv type name

def isComposite (d : ActiveMQDestination) : Bool := (findFirstOf d.physicalName (ascii ",") (some 0)).isSome

def isBlank (c : UInt8) : Bool := (ascii " \t").contains c

/-- The part between the first and the last character that is no blank. -/
def trim (input : ByteString) : ByteString := ((input.dropWhile isBlank).reverse.dropWhile isBlank).reverse

/-- `StlSet<std::string>`, filled with the trimmed tokens that are not empty. -/
def components (tokens : List ByteString) : OrderedMap ByteString Unit :=
  tokens.foldl (fun set token => if trim token = [] then set else set.insert (trim token) ()) OrderedMap.empty

def addComposites : List ByteString → EStateM Failure ActiveMQDestination Unit
  | [] => pure ()
  | name :: names => do
    let d ← get
    match createDestination getenv d.destinationType name with
    | .ok destination =>
      modify fun d => { d with compositeDestinations := d.compositeDestinations ++ [destination] }
      addComposites names
    | .error e => throw e

def getCompositeDestinations : EStateM Failure ActiveMQDestination (List Destination) := do
  let d ← get
  if d.compositeDestinations ≠ [] then return d.compositeDestinations
  if d.isComposite then
    match (Text.StringTokenizer.mk d.physicalName (ascii ",") (some 0) false).toArray with
    | .ok tokens _ => addComposites getenv ((components tokens).entries.map Prod.fst)
    | .error e _ => throw e
  return (← get).compositeDestinations

end ActiveMQDestination

end ActiveMQCpp.Commands
