import ActiveMQCpp.StompFrame
import ActiveMQCpp.StateCommands
import ActiveMQCpp.DecafStringTokenizer

/-! `StompHelper`: destinations and ids as the texts that stand for them in the headers of a frame. -/

namespace ActiveMQCpp.Decaf

/-- A `StringTokenizer` is the list of the tokens that are still to come. -/
structure StringTokenizer where
  tokens : List ByteString

namespace StringTokenizer

/-- Delimiters next to each other count as one. -/
def new (text : ByteString) (delim : UInt8) : StringTokenizer := ⟨(text.splitOn delim).filter (· ≠ [])⟩

def nextToken : EStateM Failure StringTokenizer ByteString
  | ⟨[]⟩ => .error (.thrown .noSuchElementException "StringTokenizer::nextToken - No more Tokens available") ⟨[]⟩
  | ⟨token :: rest⟩ => .ok token ⟨rest⟩

/-- What the tokenizer that walks along the text comes to. -/
def ofResult : EStateM.Result Failure Text.StringTokenizer ByteString → EStateM.Result Failure StringTokenizer ByteString
  | .ok token t => .ok token ⟨t.tokens⟩
  | .error e t => .error e ⟨t.tokens⟩

theorem new_eq (text : ByteString) (delim : UInt8) :
    new text delim = ⟨(Text.StringTokenizer.mk text [delim] (some 0) false).tokens⟩ := by
  have hsep : (fun c : UInt8 => [delim].contains c) = (· == delim) := by
    funext c
    rw [Bool.eq_iff_iff, List.contains_iff_mem, List.mem_singleton, beq_iff_eq]
  have hempty : (fun token : ByteString => decide (token ≠ [])) = fun token => !token.isEmpty := by
    funext token
    cases token <;> rfl
  rw [Text.StringTokenizer.tokens_mk, hsep, Words.words, new, List.splitOn_eq_splitOnP, hempty]

theorem nextToken_eq {t : Text.StringTokenizer} (h : t.returnDelims = false) :
    nextToken ⟨t.tokens⟩ = ofResult t.nextToken := by
  rcases Text.StringTokenizer.nextToken_cases h with
    ⟨-, hnil, t', hnext, hnil'⟩ | ⟨w, t', -, hnext, -, hcons⟩
  · rw [hnext, hnil, ofResult, hnil']
    rfl
  · rw [hnext, hcons]
    rfl

end StringTokenizer

end ActiveMQCpp.Decaf

namespace ActiveMQCpp.Stomp

open Codec Decaf MachineInt State

/-- The settings of the wire format that the helper reads. `parseQuery` stands for `URISupport::parseQuery`,
which throws for malformed options and looks up environment variables; nothing here uses the options. -/
structure StompHelper where
  topicPrefix : ByteString := ascii "/topic/"
  queuePrefix : ByteString := ascii "/queue/"
  tempTopicPrefix : ByteString := ascii "/temp-topic/"
  tempQueuePrefix : ByteString := ascii "/temp-queue/"
  parseQuery : ByteString → Except Failure Unit

/-- `text.find(start) == 0`. -/
def startsWith (start text : ByteString) : Bool := start.isPrefixOf text

namespace ActiveMQDestination

def queueQualifiedPrefix : ByteString := ascii "queue://"

def topicQualifiedPrefix : ByteString := ascii "topic://"

def tempQueueQualifiedPrefix : ByteString := ascii "temp-queue://"

def tempTopicQualifiedPrefix : ByteString := ascii "temp-topic://"

/-- The constructors of the destination classes, by `setPhysicalName`: what follows a question mark is
parsed for options. -/
def new (helper : StompHelper) (type : DestinationType) (name : ByteString) : Except Failure Destination :=
  match name.findIdx? (· = 63) with
  | none => .ok ⟨name, type⟩
  | some pos => do
    helper.parseQuery (name.drop (pos + 1))
    .ok ⟨name.take pos, type⟩

def createDestination (helper : StompHelper) (type : DestinationType) (name : ByteString) :
    Except Failure Destination :=
  if startsWith queueQualifiedPrefix name then new helper .queue (name.drop queueQualifiedPrefix.length)
  else if startsWith topicQualifiedPrefix name then new helper .topic (name.drop topicQualifiedPrefix.length)
  else if startsWith tempQueueQualifiedPrefix name then
    new helper .tempQueue (name.drop tempQueueQualifiedPrefix.length)
  else if startsWith tempTopicQualifiedPrefix name then
    new helper .tempTopic (name.drop tempTopicQualifiedPrefix.length)
  else new helper type name

def isComposite (destination : Destination) : Bool := destination.physicalName.contains 44

/-- Spaces and tabs at either end. -/
def trim (text : ByteString) : ByteString :=
  ((text.dropWhile fun c => c = 32 ∨ c = 9).reverse.dropWhile fun c => c = 32 ∨ c = 9).reverse

def componentNames (destination : Destination) : List ByteString :=
  let names := ((StringTokenizer.new destination.physicalName 44).tokens.map trim).filter (· ≠ [])
  let components : OrderedMap ByteString Unit := names.foldl (fun set name => set.insert name ()) .empty
  components.entries.map Prod.fst

def getCompositeDestinations (helper : StompHelper) (destination : Destination) : Except Failure (List Destination) :=
  (componentNames destination).mapM (createDestination helper destination.type)

end ActiveMQDestination

open ActiveMQDestination

namespace StompHelper

def remoteTempTopic : ByteString := ascii "/remote-temp-topic/"

def remoteTempQueue : ByteString := ascii "/remote-temp-queue/"

def doConvertDestination (helper : StompHelper) (destination : Destination) : ByteString :=
  match destination.type with
  | .topic => helper.topicPrefix ++ destination.physicalName
  | .tempTopic =>
    if startsWith remoteTempTopic destination.physicalName then destination.physicalName
    else helper.tempTopicPrefix ++ destination.physicalName
  | .tempQueue =>
    if startsWith remoteTempQueue destination.physicalName then destination.physicalName
    else helper.tempQueuePrefix ++ destination.physicalName
  | .queue => helper.queuePrefix ++ destination.physicalName

def joinDestinations (helper : StompHelper) : ByteString → List Destination → ByteString
  | result, [] => result
  | result, destination :: rest =>
    joinDestinations helper
      ((if result ≠ [] then result ++ [44] else result) ++ helper.doConvertDestination destination) rest

/-- `convertDestination` of a destination, which may be `NULL`. -/
def convertDestination (helper : StompHelper) : Option Destination → Except Failure ByteString
  | none => .ok []
  | some destination =>
    if isComposite destination then do
      let destinations ← getCompositeDestinations helper destination
      .ok (helper.joinDestinations [] destinations)
    else .ok (helper.doConvertDestination destination)

/-- `convertDestination` of a string. A text that starts with none of the prefixes is taken for a topic
without a name: the type is initialised with zero, which is `TOPIC`. -/
def destinationOf (helper : StompHelper) (text : ByteString) : Except Failure (Option Destination) :=
  if text = [] then .ok none
  else do
    let destination ←
      if startsWith helper.queuePrefix text then
        createDestination helper .queue (text.drop helper.queuePrefix.length)
      else if startsWith helper.topicPrefix text then
        createDestination helper .topic (text.drop helper.topicPrefix.length)
      else if startsWith helper.tempTopicPrefix text then
        createDestination helper .tempTopic (text.drop helper.tempTopicPrefix.length)
      else if startsWith helper.tempQueuePrefix text then
        createDestination helper .tempQueue (text.drop helper.tempQueuePrefix.length)
      else if startsWith remoteTempTopic text then createDestination helper .tempTopic []
      else if startsWith remoteTempQueue text then createDestination helper .tempQueue []
      else createDestination helper .topic []
    .ok (some destination)

/-! ### Ids -/

def convertConsumerId (id : ConsumerId ByteString) : ByteString :=
  id.connectionId ++ [58] ++ Long.toString id.sessionId ++ [58] ++ Long.toString id.value

/-- The loop over the tokens after the connection id: the last of them is the value, the one before it the
session. -/
def consumerTokens (id : ConsumerId ByteString) : List ByteString → Except Failure (ConsumerId ByteString)
  | [] => .ok id
  | [text] => do
    let value ← Long.parseLong text
    .ok { id with value := value }
  | text :: next :: rest => do
    let sessionId ← Long.parseLong text
    consumerTokens { id with sessionId := sessionId } (next :: rest)

def consumerIdOf (text : ByteString) : Except Failure (Option (ConsumerId ByteString)) :=
  if text = [] then .ok none
  else
    let connectionId : EStateM Failure StringTokenizer ByteString := do
      let first ← StringTokenizer.nextToken
      let second ← StringTokenizer.nextToken
      let third ← StringTokenizer.nextToken
      pure (first ++ [58] ++ second ++ [58] ++ third)
    match connectionId (StringTokenizer.new text 58) with
    | .error e _ => .error e
    | .ok connectionId tokenizer => do
      let id ← consumerTokens ⟨connectionId, 0, 0⟩ tokenizer.tokens
      .ok (some id)

def convertTransactionId : TransactionId ByteString → Except Failure ByteString
  | .local id => .ok (id.connectionId ++ [58] ++ Long.toString id.value)
  | .xa .. => .error (.thrown .classCastException "Failed to cast this pointer to the requested type.")

/-- The loop over the tokens after the connection id: each of them is taken for the value. -/
def transactionTokens (id : LocalTransactionId ByteString) :
    List ByteString → Except Failure (LocalTransactionId ByteString)
  | [] => .ok id
  | text :: rest => do
    let value ← Long.parseLong text
    transactionTokens { id with value := value } rest

def transactionIdOf (text : ByteString) : Except Failure (Option (TransactionId ByteString)) :=
  if text = [] then .ok none
  else
    let connectionId : EStateM Failure StringTokenizer ByteString := do
      let first ← StringTokenizer.nextToken
      let second ← StringTokenizer.nextToken
      pure (first ++ [58] ++ second)
    match connectionId (StringTokenizer.new text 58) with
    | .error e _ => .error e
    | .ok connectionId tokenizer => do
      let id ← transactionTokens ⟨connectionId, 0⟩ tokenizer.tokens
      .ok (some (.local id))

end StompHelper

end ActiveMQCpp.Stomp
