import Mathlib.Data.List.ReduceOption
import ActiveMQCpp.StompHelper

/-! `StompWireFormat`: commands are turned into frames, or answered at once when there is no frame for
them, and the frames of the broker are turned into commands. -/

namespace ActiveMQCpp.Stomp

open Codec Decaf MachineInt State List

namespace StompCommandConstants

def connect : ByteString := ascii "CONNECT"
def connected : ByteString := ascii "CONNECTED"
def disconnect : ByteString := ascii "DISCONNECT"
def subscribe : ByteString := ascii "SUBSCRIBE"
def unsubscribe : ByteString := ascii "UNSUBSCRIBE"
def send : ByteString := ascii "SEND"
def begin : ByteString := ascii "BEGIN"
def commit : ByteString := ascii "COMMIT"
def abort : ByteString := ascii "ABORT"
def ack : ByteString := ascii "ACK"
def error : ByteString := ascii "ERROR"
def receipt : ByteString := ascii "RECEIPT"

def headerDestination : ByteString := ascii "destination"
def headerTransactionId : ByteString := ascii "transaction"
def headerReceiptRequired : ByteString := ascii "receipt"
def headerReceiptId : ByteString := ascii "receipt-id"
def headerMessageId : ByteString := ascii "message-id"
def headerAck : ByteString := ascii "ack"
def headerLogin : ByteString := ascii "login"
def headerPassword : ByteString := ascii "passcode"
def headerClientId : ByteString := ascii "client-id"
def headerMessage : ByteString := ascii "message"
def headerCorrelationId : ByteString := ascii "correlation-id"
def headerExpires : ByteString := ascii "expires"
def headerPersistent : ByteString := ascii "persistent"
def headerReplyTo : ByteString := ascii "reply-to"
def headerType : ByteString := ascii "type"
def headerDispatchAsync : ByteString := ascii "activemq.dispatchAsync"
def headerExclusive : ByteString := ascii "activemq.exclusive"
def headerMaxPendingMsgLimit : ByteString := ascii "activemq.maximumPendingMessageLimit"
def headerNoLocal : ByteString := ascii "activemq.noLocal"
def headerPrefetchSize : ByteString := ascii "activemq.prefetchSize"
def headerJmsPriority : ByteString := ascii "priority"
def headerConsumerPriority : ByteString := ascii "activemq.priority"
def headerRetroactive : ByteString := ascii "activemq.retroactive"
def headerSubscriptionName : ByteString := ascii "activemq.subscriptionName"
def headerOldSubscriptionName : ByteString := ascii "activemq.subcriptionName"
def headerTimestamp : ByteString := ascii "timestamp"
def headerRedelivered : ByteString := ascii "redelivered"
def headerSelector : ByteString := ascii "selector"
def headerId : ByteString := ascii "id"

end StompCommandConstants

open StompCommandConstants
open StompFrame (headerContentLength)

/-! ### The commands -/

/-- The readable body of a message; `other` stands for the messages that are neither text nor bytes
messages. -/
inductive MessageBody where
  | text (text : ByteString)
  | bytes (body : ByteString)
  | other
  deriving DecidableEq

/-- The fields of a message that go into a frame. A property is given by its text, if it has one: arrays,
maps and lists cannot be converted to a string. -/
structure StompMessage extends BaseCommand where
  destination : Option Destination
  correlationId : ByteString := []
  expiration : Int := 0
  persistent : Bool := false
  redeliveryCounter : Int := 0
  priority : UInt8 := 4
  replyTo : Option Destination := none
  timestamp : Int := 0
  type : ByteString := []
  transactionId : Option (TransactionId ByteString) := none
  groupSequence : Int := 0
  groupID : ByteString := []
  properties : OrderedMap ByteString (Option ByteString) := .empty
  body : MessageBody

structure StompAck extends BaseCommand where
  /-- The connection id in the producer id of the last message id. -/
  lastMessageId : ByteString
  transactionId : Option (TransactionId ByteString) := none

structure StompConnectionInfo extends BaseCommand where
  clientId : ByteString
  userName : ByteString
  password : ByteString

structure StompTransactionInfo extends BaseCommand where
  transactionId : TransactionId ByteString
  type : TransactionType

structure StompRemoveInfo extends BaseCommand where
  objectId : ObjectId ByteString

structure StompConsumerInfo extends BaseCommand where
  consumerId : ConsumerId ByteString
  destination : Option Destination
  subscriptionName : ByteString := []
  selector : ByteString := []
  noLocal : Bool := false
  dispatchAsync : Bool := false
  exclusive : Bool := false
  maximumPendingMessageLimit : Int := 0
  prefetchSize : Int := 0
  priority : UInt8 := 0
  retroactive : Bool := false

structure StompRemoveSubscriptionInfo extends BaseCommand where
  clientId : ByteString

/-- `other` stands for the commands that have no frame. -/
inductive StompCommand where
  | message (m : StompMessage)
  | removeInfo (info : StompRemoveInfo)
  | shutdownInfo (base : BaseCommand)
  | messageAck (ack : StompAck)
  | connectionInfo (info : StompConnectionInfo)
  | transactionInfo (info : StompTransactionInfo)
  | consumerInfo (info : StompConsumerInfo)
  | removeSubscriptionInfo (info : StompRemoveSubscriptionInfo)
  | other (base : BaseCommand)

def StompCommand.base : StompCommand → BaseCommand
  | message m => m.toBaseCommand
  | removeInfo info => info.toBaseCommand
  | shutdownInfo base => base
  | messageAck info => info.toBaseCommand
  | connectionInfo info => info.toBaseCommand
  | transactionInfo info => info.toBaseCommand
  | consumerInfo info => info.toBaseCommand
  | removeSubscriptionInfo info => info.toBaseCommand
  | other base => base

/-! ### Frames for commands -/

def StompFrame.setProperties (frame : StompFrame) (headers : List (ByteString × ByteString)) : StompFrame :=
  headers.foldl (fun frame header => frame.setProperty header.1 header.2) frame

def booleanText (value : Bool) : ByteString := if value then ascii "true" else ascii "false"

/-- The header that asks for a receipt. With `ignore` an error is answered as if there was none. -/
def receiptHeader (base : BaseCommand) (ignore : Bool) : List (ByteString × ByteString) :=
  if base.responseRequired then
    [(headerReceiptRequired, (if ignore then ascii "ignore:" else []) ++ Long.toString base.commandId)]
  else []

namespace StompHelper

/-- The header of a text that may be empty. -/
def textHeader (name text : ByteString) : Option (ByteString × ByteString) :=
  if text ≠ [] then some (name, text) else none

def replyToHeader (helper : StompHelper) : Option Destination → Except Failure (Option (ByteString × ByteString))
  | some replyTo => do
    let text ← helper.convertDestination (some replyTo)
    .ok (some (headerReplyTo, text))
  | none => .ok none

def transactionHeader : Option (TransactionId ByteString) → Except Failure (Option (ByteString × ByteString))
  | some transactionId => do
    let text ← convertTransactionId transactionId
    .ok (some (headerTransactionId, text))
  | none => .ok none

/-- The headers that `convertProperties` makes of the fields of a message, in the order it sets them. -/
def fieldHeaders (m : StompMessage) (destination : ByteString) (replyTo transactionId : Option (ByteString × ByteString)) :
    List (ByteString × ByteString) :=
  [some (headerDestination, destination),
    textHeader headerCorrelationId m.correlationId,
    some (headerExpires, Long.toString m.expiration),
    some (headerPersistent, booleanText m.persistent),
    if m.redeliveryCounter ≠ 0 then some (headerRedelivered, ascii "true") else none,
    some (headerJmsPriority, Long.toString m.priority.toNat),
    replyTo,
    some (headerTimestamp, Long.toString m.timestamp),
    textHeader headerType m.type,
    transactionId,
    some (ascii "JMSXDeliveryCount", Long.toString m.redeliveryCounter),
    some (ascii "JMSXGroupSeq", Long.toString m.groupSequence),
    textHeader (ascii "JMSXGroupID") m.groupID].reduceOption

def standardHeaders (helper : StompHelper) (m : StompMessage) : Except Failure (List (ByteString × ByteString)) := do
  let destination ← helper.convertDestination m.destination
  let replyTo ← helper.replyToHeader m.replyTo
  let transactionId ← transactionHeader m.transactionId
  .ok (fieldHeaders m destination replyTo transactionId)

def propertyHeaders (m : StompMessage) : Except Failure (List (ByteString × ByteString)) :=
  m.properties.entries.mapM fun property =>
    match property.2 with
    | some text => .ok (property.1, text)
    | none => .error (.thrown .unsupportedOperationException "Unsupported Type Conversion")

def convertProperties (helper : StompHelper) (m : StompMessage) (frame : StompFrame) : Except Failure StompFrame := do
  let standard ← helper.standardHeaders m
  let properties ← propertyHeaders m
  .ok ((frame.setProperties standard).setProperties properties)

end StompHelper

structure StompWireFormat where
  helper : StompHelper
  clientId : ByteString := []
  connectResponseId : Int := -1

namespace StompWireFormat

variable {line : Line}

def newFrame (command : ByteString) (headers : List (ByteString × ByteString)) : StompFrame :=
  StompFrame.setProperties { StompFrame.fresh with command := command } headers

/-- The body of a text message ends with a NUL, that of a bytes message has its length in a header. -/
def setMessageBody (frame : StompFrame) : MessageBody → Except Failure StompFrame
  | .text text => .ok { frame with body := text ++ [0] }
  | .bytes body =>
    .ok (StompFrame.setProperty { frame with body := body } headerContentLength (Long.toString body.length))
  | .other =>
    .error (.thrown .unsupportedOperationException "Stomp StompWireFormat can't marshal message of type: %s")

def marshalMessage (helper : StompHelper) (m : StompMessage) : Except Failure StompFrame := do
  let frame ← helper.convertProperties m (newFrame send (receiptHeader m.toBaseCommand false))
  setMessageBody frame m.body

def marshalAck (ack : StompAck) : Except Failure StompFrame := do
  let transactionId ← StompHelper.transactionHeader ack.transactionId
  .ok (newFrame StompCommandConstants.ack
    (receiptHeader ack.toBaseCommand true ++ (headerMessageId, ack.lastMessageId) :: transactionId.toList))

def marshalConnectionInfo (info : StompConnectionInfo) : StompFrame :=
  newFrame connect [(headerClientId, info.clientId), (headerLogin, info.userName), (headerPassword, info.password)]

/-- The command stays empty for the transaction types that Stomp does not have. -/
def transactionCommand : TransactionType → ByteString
  | .begin => begin
  | .rollback => abort
  | .commitOnePhase => commit
  | _ => []

def marshalTransactionInfo (info : StompTransactionInfo) : Except Failure StompFrame := do
  let text ← StompHelper.convertTransactionId info.transactionId
  .ok (newFrame (transactionCommand info.type)
    (receiptHeader info.toBaseCommand false ++ [(headerTransactionId, text)]))

def marshalShutdownInfo (base : BaseCommand) : StompFrame := newFrame disconnect (receiptHeader base false)

/-- Only consumers are unsubscribed. -/
def marshalRemoveInfo (info : StompRemoveInfo) : Option StompFrame :=
  match info.objectId with
  | .consumer id =>
    some (newFrame unsubscribe
      (receiptHeader info.toBaseCommand false ++ [(headerId, StompHelper.convertConsumerId id)]))
  | _ => none

def flagHeader (name : ByteString) (flag : Bool) : Option (ByteString × ByteString) :=
  if flag then some (name, ascii "true") else none

def marshalConsumerInfo (format : StompWireFormat) (info : StompConsumerInfo) : Except Failure StompFrame := do
  let destination ← format.helper.convertDestination info.destination
  if info.subscriptionName ≠ [] ∧ format.clientId ≠ info.subscriptionName then
    .error (.thrown .unsupportedOperationException
      "Stomp Durable Subscriptions require that the ClientId and the Subscription Name match")
  else
    .ok (newFrame subscribe (receiptHeader info.toBaseCommand false ++
      [some (headerDestination, destination),
        some (headerId, StompHelper.convertConsumerId info.consumerId),
        StompHelper.textHeader headerSubscriptionName info.subscriptionName,
        StompHelper.textHeader headerOldSubscriptionName info.subscriptionName,
        StompHelper.textHeader headerSelector info.selector,
        some (headerAck, ascii "client"),
        flagHeader headerNoLocal info.noLocal,
        some (headerDispatchAsync, booleanText info.dispatchAsync),
        flagHeader headerExclusive info.exclusive,
        some (headerMaxPendingMsgLimit, Long.toString info.maximumPendingMessageLimit),
        some (headerPrefetchSize, Long.toString info.prefetchSize),
        some (headerConsumerPriority, Long.toString info.priority.toNat),
        flagHeader headerRetroactive info.retroactive].reduceOption))

def marshalRemoveSubscriptionInfo (info : StompRemoveSubscriptionInfo) : StompFrame :=
  newFrame unsubscribe (receiptHeader info.toBaseCommand true ++
    [(headerId, info.clientId), (headerSubscriptionName, info.clientId), (headerOldSubscriptionName, info.clientId)])

/-- A frame that may have failed to be made; the wire format stays as it is. -/
def made (frame : Except Failure StompFrame) : EStateM Failure StompWireFormat (Option StompFrame) := fun format =>
  match frame with
  | .ok frame => .ok (some frame) format
  | .error e => .error e format

/-- The frame of a command, if it has one. Connecting is answered by a frame of its own, so the id of the
command is kept for it. -/
def frameOf (command : StompCommand) : EStateM Failure StompWireFormat (Option StompFrame) := fun format =>
  match command with
  | .message m => made (marshalMessage format.helper m) format
  | .removeInfo info => .ok (marshalRemoveInfo info) format
  | .shutdownInfo base => .ok (some (marshalShutdownInfo base)) format
  | .messageAck info => made (marshalAck info) format
  | .connectionInfo info =>
    .ok (some (marshalConnectionInfo info))
      { format with connectResponseId := info.commandId, clientId := info.clientId }
  | .transactionInfo info => made (marshalTransactionInfo info) format
  | .consumerInfo info => made (format.marshalConsumerInfo info) format
  | .removeSubscriptionInfo info => .ok (some (marshalRemoveSubscriptionInfo info)) format
  | .other _ => .ok none format

theorem made_eq_ok {made' : Except Failure StompFrame} {frame : Option StompFrame} {format format' : StompWireFormat} :
    made made' format = .ok frame format' ↔ ∃ frame', made' = .ok frame' ∧ frame = some frame' ∧ format' = format := by
  cases made' with
  | ok frame' =>
    constructor
    · rintro ⟨⟩
      exact ⟨frame', rfl, rfl, rfl⟩
    · rintro ⟨frame', ⟨⟩, rfl, rfl⟩
      rfl
  | error e =>
    constructor
    · rintro ⟨⟩
    · rintro ⟨frame', ⟨⟩, -⟩

/-- What `marshal` acts on: the wire format, the stream, and the listener of the transport with the ids of
the responses it has been handed. -/
structure Line where
  format : StompWireFormat
  out : List UInt8 := []
  responses : List Int := []
  listening : Bool := true

def Line.write (m : DataOut Unit) : EStateM Failure Line Unit := fun line =>
  match m line.out with
  | .ok _ out => .ok () { line with out := out }
  | .error e out => .error e { line with out := out }

theorem Line.write_ok {m : DataOut Unit} {out : List UInt8} (h : m line.out = .ok () out) :
    Line.write m line = .ok () { line with out := out } := by
  rw [Line.write, h]

/-- The end of `marshal`: the frame is written, or a listener that waits for a response is handed one. -/
def transmit (command : StompCommand) (line : Line) :
    EStateM.Result Failure StompWireFormat (Option StompFrame) → EStateM.Result Failure Line Unit
  | .error e format => .error e { line with format := format }
  | .ok none format =>
    let answered := command.base.responseRequired && line.listening
    .ok () { line with
      format := format
      responses := if answered then line.responses ++ [command.base.commandId] else line.responses }
  | .ok (some frame) format => Line.write frame.toStream { line with format := format }

def marshal (command : StompCommand) : EStateM Failure Line Unit :=
  mapError catchExceptionConvert fun line => transmit command line (frameOf command line.format)

theorem marshal_eq_ok {command : StompCommand} {line' : Line} :
    marshal command line = .ok () line' ↔ transmit command line (frameOf command line.format) = .ok () line' := by
  unfold marshal
  exact mapError_eq_ok

/-! ### Commands from frames -/

/-- What a frame of the broker stands for; `message` is what `unmarshalMessage` is called with. -/
inductive Reply where
  | response (correlationId : Int)
  | exceptionResponse (correlationId : Int) (message : ByteString)
  | brokerError (message : ByteString)
  | message (frame : StompFrame)

/-- A receipt id that was asked for with `ignore` comes back with it. -/
def ignored : ByteString := ascii "ignore:"

def unmarshalReceipt (frame : StompFrame) : Except Failure Reply :=
  match frame.properties.find headerReceiptId with
  | some responseId => do
    let responseId := if startsWith ignored responseId then responseId.drop 7 else responseId
    let correlationId ← Integer.parseInt responseId
    .ok (.response correlationId)
  | none => .error (.thrown .ioException "Error, Connected Command has no Response ID.")

def unmarshalConnected (format : StompWireFormat) : Except Failure Reply :=
  if format.connectResponseId ≠ -1 then .ok (.response format.connectResponseId)
  else .error (.thrown .ioException "Error, Connected Command has no Response ID.")

def unmarshalError (frame : StompFrame) : Except Failure Reply :=
  let message := frame.getProperty headerMessage []
  match frame.properties.find headerReceiptId with
  | some responseId =>
    if startsWith ignored responseId then do
      let correlationId ← Integer.parseInt (responseId.drop 7)
      .ok (.response correlationId)
    else do
      let correlationId ← Integer.parseInt responseId
      .ok (.exceptionResponse correlationId message)
  | none => .ok (.brokerError message)

def replyOf (format : StompWireFormat) (frame : StompFrame) : Except Failure Reply :=
  if frame.command = connected then format.unmarshalConnected
  else if frame.command = error then unmarshalError frame
  else if frame.command = receipt then unmarshalReceipt frame
  else if frame.command = ascii "MESSAGE" then .ok (.message frame)
  else .error (.thrown .ioException "StompWireFormat::marshal - No Command Created from frame")

def unmarshal (format : StompWireFormat) : DataIn Reply :=
  mapError catchExceptionConvert fun input =>
    match StompFrame.fresh.fromStream input with
    | .error e rest => .error e rest
    | .ok frame rest =>
      match format.replyOf frame with
      | .ok reply => .ok reply rest
      | .error e => .error e rest

end StompWireFormat

/-! ### The headers of a frame -/

namespace StompFrame

variable {frame : StompFrame} {headers : List (ByteString × ByteString)}
variable {name : ByteString}

theorem setProperties_append (frame : StompFrame) (xs ys : List (ByteString × ByteString)) :
    frame.setProperties (xs ++ ys) = (frame.setProperties xs).setProperties ys :=
  foldl_append

theorem command_setProperties (frame : StompFrame) (headers : List (ByteString × ByteString)) :
    (frame.setProperties headers).command = frame.command := by
  induction headers generalizing frame with
  | nil => rfl
  | cons header headers ih => exact ih (frame.setProperty header.1 header.2)

theorem body_setProperties (frame : StompFrame) (headers : List (ByteString × ByteString)) :
    (frame.setProperties headers).body = frame.body := by
  induction headers generalizing frame with
  | nil => rfl
  | cons header headers ih => exact ih (frame.setProperty header.1 header.2)

theorem find_setProperties_of_avoids (h : ∀ header ∈ headers, header.1 ≠ name) :
    (frame.setProperties headers).properties.find name = frame.properties.find name := by
  induction headers generalizing frame with
  | nil => rfl
  | cons header headers ih =>
    have hrest := @ih (frame.setProperty header.1 header.2)
      fun other hother => h other (mem_cons_of_mem _ hother)
    show ((frame.setProperty header.1 header.2).setProperties headers).properties.find name = _
    rw [hrest, setProperty, OrderedMap.find_insert, if_neg (h header mem_cons_self).symm]

theorem find_setProperties_of_mem {value : ByteString}
    (hmem : (name, value) ∈ headers) (honly : ∀ header ∈ headers, header.1 = name → header.2 = value) :
    (frame.setProperties headers).properties.find name = some value := by
  induction headers generalizing frame with
  | nil => cases hmem
  | cons header headers ih =>
    show ((frame.setProperty header.1 header.2).setProperties headers).properties.find name = _
    by_cases hrest : ∃ header' ∈ headers, header'.1 = name
    · obtain ⟨⟨name', value'⟩, hheader', rfl⟩ := hrest
      obtain rfl : value' = value := honly _ (mem_cons_of_mem _ hheader') rfl
      exact ih hheader' fun other hother => honly other (mem_cons_of_mem _ hother)
    · rcases mem_cons.mp hmem with rfl | hlater
      · rw [find_setProperties_of_avoids fun other hother heq => hrest ⟨other, hother, heq⟩, setProperty,
          OrderedMap.find_insert, if_pos rfl]
      · exact absurd ⟨_, hlater, rfl⟩ hrest

theorem mem_setProperties {e : ByteString × ByteString}
    (h : e ∈ (frame.setProperties headers).properties.entries) : e ∈ frame.properties.entries ∨ e ∈ headers := by
  induction headers generalizing frame with
  | nil => exact .inl h
  | cons header headers ih =>
    rcases @ih (frame.setProperty header.1 header.2) h with hset | hlater
    · rcases OrderedMap.mem_put hset with rfl | hold
      · exact .inr mem_cons_self
      · exact .inl hold
    · exact .inr (mem_cons_of_mem _ hlater)

end StompFrame

namespace StompHelper

variable {header : ByteString × ByteString} {m : StompMessage}
variable {helper : StompHelper}

/-- The headers that a property must not take. -/
def reserved : List ByteString :=
  [headerDestination, headerReceiptRequired, headerTransactionId, headerContentLength]

theorem textHeader_name {name text : ByteString} (h : textHeader name text = some header) : header.1 = name := by
  unfold textHeader at h
  split_ifs at h
  cases h
  rfl

/-- The destination and the transaction are the only fields whose headers are reserved. -/
theorem mem_fieldHeaders {destination : ByteString} {replyTo transactionId : Option (ByteString × ByteString)}
    (h : header ∈ fieldHeaders m destination replyTo transactionId) :
    header = (headerDestination, destination) ∨ replyTo = some header ∨ transactionId = some header ∨
      header.1 ∉ reserved := by
  have hfree : ∀ {name text : ByteString}, name ∉ reserved → some (name, text) = some header → header.1 ∉ reserved := by
    rintro name text hname ⟨⟩
    exact hname
  have htext : ∀ {name text : ByteString}, name ∉ reserved → textHeader name text = some header →
      header.1 ∉ reserved := by
    intro name text hname hheader
    rw [textHeader_name hheader]
    exact hname
  simp only [fieldHeaders, reduceOption_mem_iff, mem_cons, not_mem_nil, or_false,
    eq_comm (a := some header)] at h
  rcases h with h | h | h | h | h | h | h | h | h | h | h | h | h
  · cases h
    exact .inl rfl
  · exact .inr (.inr (.inr (htext (by decide) h)))
  · exact .inr (.inr (.inr (hfree (by decide) h)))
  · exact .inr (.inr (.inr (hfree (by decide) h)))
  · split_ifs at h
    exact .inr (.inr (.inr (hfree (by decide) h)))
  · exact .inr (.inr (.inr (hfree (by decide) h)))
  · exact .inr (.inl h)
  · exact .inr (.inr (.inr (hfree (by decide) h)))
  · exact .inr (.inr (.inr (htext (by decide) h)))
  · exact .inr (.inr (.inl h))
  · exact .inr (.inr (.inr (hfree (by decide) h)))
  · exact .inr (.inr (.inr (hfree (by decide) h)))
  · exact .inr (.inr (.inr (htext (by decide) h)))

theorem standardHeaders_eq_ok {standard : List (ByteString × ByteString)} :
    helper.standardHeaders m = .ok standard ↔ ∃ destination, helper.convertDestination m.destination = .ok destination ∧
      ∃ replyTo, helper.replyToHeader m.replyTo = .ok replyTo ∧
        ∃ transactionId, transactionHeader m.transactionId = .ok transactionId ∧
          fieldHeaders m destination replyTo transactionId = standard := by
  unfold standardHeaders
  simp only [except_bind_eq_ok, Except.ok.injEq]

theorem replyToHeader_name {replyTo : Option Destination}
    (h : helper.replyToHeader replyTo = .ok (some header)) : header.1 = headerReplyTo := by
  cases replyTo with
  | none => cases h
  | some replyTo =>
    obtain ⟨text, -, hheader⟩ := except_bind_eq_ok.mp h
    cases hheader
    rfl

theorem transactionHeader_name {transactionId : Option (TransactionId ByteString)}
    (h : transactionHeader transactionId = .ok (some header)) : header.1 = headerTransactionId := by
  cases transactionId with
  | none => cases h
  | some transactionId =>
    obtain ⟨text, -, hheader⟩ := except_bind_eq_ok.mp h
    cases hheader
    rfl

theorem propertyHeaders_eq_ok {headers : List (ByteString × ByteString)} :
    propertyHeaders m = .ok headers ↔ headers.map (fun header => (header.1, some header.2)) = m.properties.entries := by
  unfold propertyHeaders
  generalize m.properties.entries = entries
  induction entries generalizing headers with
  | nil =>
    rw [map_eq_nil_iff, mapM_nil]
    exact ⟨fun h => (Except.ok.inj h).symm, fun h => by rw [h]; rfl⟩
  | cons property entries ih =>
    obtain ⟨name, text⟩ := property
    rw [mapM_cons, except_bind_eq_ok]
    cases text with
    | none =>
      constructor
      · rintro ⟨header, ⟨⟩, -⟩
      · intro h
        cases headers with
        | nil => cases h
        | cons header headers => cases h
    | some text =>
      constructor
      · rintro ⟨header, ⟨⟩, h⟩
        obtain ⟨rest, hrest, heq⟩ := except_bind_eq_ok.mp h
        cases heq
        rw [map_cons, ih.mp hrest]
      · intro h
        cases headers with
        | nil => cases h
        | cons header headers =>
          rw [map_cons, List.cons.injEq, Prod.mk.injEq, Option.some.injEq] at h
          obtain ⟨⟨rfl, rfl⟩, hrest⟩ := h
          exact ⟨header, rfl, except_bind_eq_ok.mpr ⟨headers, ih.mpr hrest, rfl⟩⟩

end StompHelper

namespace StompWireFormat

variable {frame : StompFrame}

/-- The frame of a message before it gets its body: the headers of its properties come last. -/
def messageFrame (m : StompMessage) (standard properties : List (ByteString × ByteString)) : StompFrame :=
  newFrame send (receiptHeader m.toBaseCommand false ++ (standard ++ properties))

theorem marshalMessage_eq_ok {helper : StompHelper} {m : StompMessage} :
    marshalMessage helper m = .ok frame ↔ ∃ standard, helper.standardHeaders m = .ok standard ∧
      ∃ properties, StompHelper.propertyHeaders m = .ok properties ∧
        setMessageBody (messageFrame m standard properties) m.body = .ok frame := by
  have hframe : ∀ standard properties, messageFrame m standard properties
      = ((newFrame send (receiptHeader m.toBaseCommand false)).setProperties standard).setProperties properties := by
    intro standard properties
    rw [messageFrame, newFrame, StompFrame.setProperties_append, StompFrame.setProperties_append]
    rfl
  unfold marshalMessage StompHelper.convertProperties
  simp only [except_bind_eq_ok, Except.ok.injEq, hframe]
  constructor
  · rintro ⟨made, ⟨standard, hstandard, properties, hproperties, rfl⟩, hbody⟩
    exact ⟨standard, hstandard, properties, hproperties, hbody⟩
  · rintro ⟨standard, hstandard, properties, hproperties, hbody⟩
    exact ⟨_, ⟨standard, hstandard, properties, hproperties, rfl⟩, hbody⟩

theorem setMessageBody_frame {frame' : StompFrame} {body : MessageBody}
    (h : setMessageBody frame body = .ok frame') : frame'.command = frame.command ∧
      ∀ name, name ≠ headerContentLength → frame'.properties.find name = frame.properties.find name := by
  cases body with
  | text text =>
    cases h
    exact ⟨rfl, fun _ _ => rfl⟩
  | bytes body =>
    cases h
    refine ⟨rfl, fun name hname => ?_⟩
    rw [StompFrame.setProperty, OrderedMap.find_insert, if_neg hname]
  | other => cases h

end StompWireFormat

end ActiveMQCpp.Stomp
