import ActiveMQCpp.StateCommands
import ActiveMQCpp.DecafLinkedHashMap

/-! `ConnectionStateTracker`: what a connection has set up at the broker, kept in nested maps so that it
can be replayed on another transport. Transaction states are shared between the connection that lists
them and the producers that sent into them, so they live in a heap and are referred to by index. -/

namespace ActiveMQCpp.State

open Codec MachineInt Decaf

variable {κ : Type} [LinearOrder κ]

structure Config where
  trackTransactions : Bool := false
  restoreSessions : Bool := true
  restoreConsumers : Bool := true
  restoreProducers : Bool := true
  restoreTransaction : Bool := true
  trackMessages : Bool := true
  trackTransactionProducers : Bool := true
  maxMessageCacheSize : Int := 128 * 1024
  maxMessagePullCacheSize : Int := 10

structure ProducerState (κ : Type) where
  info : ProducerInfo κ
  transactionState : Option Nat := none

structure TransactionState (κ : Type) [LinearOrder κ] where
  commands : List (Command κ)
  producers : OrderedMap (ProducerId κ) (ProducerInfo κ)

structure SessionState (κ : Type) [LinearOrder κ] where
  info : SessionInfo κ
  producers : OrderedMap (ProducerId κ) (ProducerState κ)
  consumers : OrderedMap (ConsumerId κ) (ConsumerInfo κ)

def SessionState.new (info : SessionInfo κ) : SessionState κ := ⟨info, .empty, .empty⟩

structure ConnectionState (κ : Type) [LinearOrder κ] where
  info : ConnectionInfo κ
  transactions : OrderedMap (LocalTransactionId κ) Nat
  sessions : OrderedMap (SessionId κ) (SessionState κ)
  tempDestinations : List (DestinationInfo κ)
  connectionInterruptProcessingComplete : Bool
  recoveringPullConsumers : OrderedMap (ConsumerId κ) (ConsumerInfo κ)

/-- `ProducerState::setTransactionState`, on a producer of the session. -/
def SessionState.setTransactionState (ss : SessionState κ) (id : ProducerId κ) (ps : ProducerState κ)
    (ref : Nat) : SessionState κ :=
  { ss with producers := ss.producers.insert id { ps with transactionState := some ref } }

/-- The session that every connection is given by the constructor of its state. -/
def defaultSession (id : ConnectionId κ) : SessionInfo κ := { sessionId := ⟨id.value, -1⟩ }

def ConnectionState.addSession (cs : ConnectionState κ) (info : SessionInfo κ) : ConnectionState κ :=
  { cs with sessions := cs.sessions.insert info.sessionId (SessionState.new info) }

def ConnectionState.new (info : ConnectionInfo κ) : ConnectionState κ :=
  ConnectionState.addSession ⟨info, .empty, .empty, [], true, .empty⟩ (defaultSession info.connectionId)

structure Tracker (κ : Type) [LinearOrder κ] where
  connectionStates : OrderedMap (ConnectionId κ) (ConnectionState κ)
  transactionStates : List (TransactionState κ)
  messageCache : List (Nat × Message κ)
  currentCacheSize : Int
  messagePullCache : List ((Destination × ConsumerId κ) × MessagePull κ)

def Tracker.new : Tracker κ := ⟨.empty, [], [], 0, []⟩

abbrev Track (κ : Type) [LinearOrder κ] := EStateM Failure (Tracker κ)

/-- A `get` of a `ConcurrentStlMap`, which throws when the key is missing. -/
def found {α : Type} : Option α → Track κ α
  | some a => pure a
  | none => throw (.thrown .noSuchElementException "Key does not exist in map")

def getConnectionState (id : ConnectionId κ) : Track κ (ConnectionState κ) := do
  let t ← get
  found (t.connectionStates.find id)

def setConnectionState (id : ConnectionId κ) (cs : ConnectionState κ) : Track κ Unit :=
  modify fun t => { t with connectionStates := t.connectionStates.insert id cs }

def setSessionState (cs : ConnectionState κ) (id : SessionId κ) (ss : SessionState κ) : Track κ Unit :=
  setConnectionState id.parentId { cs with sessions := cs.sessions.insert id ss }

/-- `id.dynamicCast<LocalTransactionId>()`. -/
def localTransactionId : TransactionId κ → Track κ (LocalTransactionId κ)
  | .local id => pure id
  | .xa .. => throw (.thrown .classCastException "Failed to cast this pointer to the requested type.")

def getTransactionState (cs : ConnectionState κ) (id : TransactionId κ) : Track κ Nat := do
  let id ← localTransactionId id
  found (cs.transactions.find id)

def modifyTransactionState (ref : Nat) (f : TransactionState κ → TransactionState κ) : Track κ Unit :=
  modify fun t => { t with transactionStates := t.transactionStates.modify ref f }

def TransactionState.addCommand (command : Command κ) (tx : TransactionState κ) : TransactionState κ :=
  { tx with commands := tx.commands ++ [command] }

def TransactionState.addProducerState (info : ProducerInfo κ) (tx : TransactionState κ) :
    TransactionState κ :=
  { tx with producers := tx.producers.insert info.producerId info }

/-- `RemoveTransactionAction` takes the state of a transaction from its connection and clears it. -/
def removeTransactionAction (info : TransactionInfo κ) : Track κ Unit := do
  let cs ← getConnectionState info.connectionId
  let id ← localTransactionId info.transactionId
  setConnectionState info.connectionId { cs with transactions := cs.transactions.erase id }
  match cs.transactions.find id with
  | some ref => modifyTransactionState ref fun _ => ⟨[], .empty⟩
  | none => pure ()

def Tracked.onResponse : Tracked κ → Track κ Unit
  | .marker => pure ()
  | .removeTransaction info => removeTransactionAction info

/-! ### Tracking -/

def processDestinationInfo (info : DestinationInfo κ) : Track κ (Option (Tracked κ)) := do
  let cs ← getConnectionState info.connectionId
  if info.destination.isTemporary then
    setConnectionState info.connectionId { cs with tempDestinations := cs.tempDestinations ++ [info] }
  pure (some .marker)

/-- No command's `visit` calls this one: `DestinationInfo` is processed by the method above, whatever its
operation is. Destinations are compared by their names. -/
def processRemoveDestination (info : DestinationInfo κ) : Track κ (Option (Tracked κ)) := do
  let cs ← getConnectionState info.connectionId
  if info.destination.isTemporary then
    setConnectionState info.connectionId
      { cs with tempDestinations := cs.tempDestinations.filter fun d => d.destination.physicalName ≠ info.destination.physicalName }
  pure (some .marker)

def processProducerInfo (info : ProducerInfo κ) : Track κ (Option (Tracked κ)) := do
  let sessionId := info.producerId.parentId
  let cs ← getConnectionState sessionId.parentId
  let ss ← found (cs.sessions.find sessionId)
  setSessionState cs sessionId { ss with producers := ss.producers.insert info.producerId { info := info } }
  pure (some .marker)

/-- `SessionState::removeProducer` hands the producer to the transaction it last sent a message in. -/
def processRemoveProducer (id : ProducerId κ) : Track κ (Option (Tracked κ)) := do
  let sessionId := id.parentId
  let cs ← getConnectionState sessionId.parentId
  let ss ← found (cs.sessions.find sessionId)
  setSessionState cs sessionId { ss with producers := ss.producers.erase id }
  match ss.producers.find id with
  | some ⟨info, some ref⟩ => modifyTransactionState ref (TransactionState.addProducerState info)
  | _ => pure ()
  pure (some .marker)

def processConsumerInfo (info : ConsumerInfo κ) : Track κ (Option (Tracked κ)) := do
  let sessionId := info.consumerId.parentId
  let cs ← getConnectionState sessionId.parentId
  let ss ← found (cs.sessions.find sessionId)
  setSessionState cs sessionId { ss with consumers := ss.consumers.insert info.consumerId info }
  pure (some .marker)

def processRemoveConsumer (id : ConsumerId κ) : Track κ (Option (Tracked κ)) := do
  let sessionId := id.parentId
  let cs ← getConnectionState sessionId.parentId
  let ss ← found (cs.sessions.find sessionId)
  let cs := { cs with recoveringPullConsumers := cs.recoveringPullConsumers.erase id }
  setSessionState cs sessionId { ss with consumers := ss.consumers.erase id }
  pure (some .marker)

def processSessionInfo (info : SessionInfo κ) : Track κ (Option (Tracked κ)) := do
  let cs ← getConnectionState info.sessionId.parentId
  setConnectionState info.sessionId.parentId (cs.addSession info)
  pure (some .marker)

def processRemoveSession (id : SessionId κ) : Track κ (Option (Tracked κ)) := do
  let cs ← getConnectionState id.parentId
  setConnectionState id.parentId { cs with sessions := cs.sessions.erase id }
  pure (some .marker)

def processConnectionInfo (info : ConnectionInfo κ) : Track κ (Option (Tracked κ)) := do
  setConnectionState info.connectionId (ConnectionState.new info)
  pure (some .marker)

def processRemoveConnection (id : ConnectionId κ) : Track κ (Option (Tracked κ)) := do
  modify fun t => { t with connectionStates := t.connectionStates.erase id }
  pure (some .marker)

/-- `CommandVisitorAdapter::processRemoveInfo`. -/
def processRemoveInfo (info : RemoveInfo κ) : Track κ (Option (Tracked κ)) :=
  match info.objectId with
  | .connection id => processRemoveConnection id
  | .session id => processRemoveSession id
  | .consumer id => processRemoveConsumer id
  | .producer id => processRemoveProducer id
  | .other => throw (.thrown .exception "Unknown Remove Info Type.")

/-- `MessageCache::put` with its `removeEldestEntry`. -/
def cacheMessage (config : Config) (message : Message κ) (t : Tracker κ) : Tracker κ :=
  let cache := LinkedHashMap.putImpl message.messageId message t.messageCache
  if t.currentCacheSize > config.maxMessageCacheSize then
    { t with
      messageCache := cache.tail
      currentCacheSize := toInt32 (t.currentCacheSize - ((cache.head?.map fun e => e.2.size).getD 0 : Nat)) }
  else { t with messageCache := cache }

def processMessage (config : Config) (message : Message κ) : Track κ (Option (Tracked κ)) :=
  match config.trackTransactions, message.transactionId with
  | true, some transactionId => do
    let sessionId := message.producerId.parentId
    let cs ← getConnectionState sessionId.parentId
    let ref ← getTransactionState cs transactionId
    modifyTransactionState ref (TransactionState.addCommand (.message message))
    if config.trackTransactionProducers then
      let ss ← found (cs.sessions.find sessionId)
      let ps ← found (ss.producers.find message.producerId)
      setSessionState cs sessionId (ss.setTransactionState message.producerId ps ref)
    pure (some .marker)
  | _, _ => do
    if config.trackMessages then modify (cacheMessage config message)
    pure none

def processBeginTransaction (info : TransactionInfo κ) : Track κ (Option (Tracked κ)) := do
  let cs ← getConnectionState info.connectionId
  let id ← localTransactionId info.transactionId
  let t ← get
  let tx : TransactionState κ := ⟨[.transactionInfo info], .empty⟩
  set { t with transactionStates := t.transactionStates ++ [tx] }
  setConnectionState info.connectionId
    { cs with transactions := cs.transactions.insert id t.transactionStates.length }
  pure (some .marker)

/-- Record a command in the state of its transaction. -/
def recordTransactionInfo (info : TransactionInfo κ) : Track κ Unit := do
  let cs ← getConnectionState info.connectionId
  let ref ← getTransactionState cs info.transactionId
  modifyTransactionState ref (TransactionState.addCommand (.transactionInfo info))

def processPrepareTransaction (info : TransactionInfo κ) : Track κ (Option (Tracked κ)) := do
  recordTransactionInfo info
  pure (some .marker)

def processEndTransaction (info : TransactionInfo κ) : Track κ (Option (Tracked κ)) := do
  recordTransactionInfo info
  pure (some .marker)

def processCommitTransactionOnePhase (info : TransactionInfo κ) : Track κ (Option (Tracked κ)) := do
  recordTransactionInfo info
  pure (some (.removeTransaction info))

def processCommitTransactionTwoPhase (info : TransactionInfo κ) : Track κ (Option (Tracked κ)) := do
  recordTransactionInfo info
  pure (some (.removeTransaction info))

def processRollbackTransaction (info : TransactionInfo κ) : Track κ (Option (Tracked κ)) := do
  recordTransactionInfo info
  pure (some (.removeTransaction info))

/-- `CommandVisitorAdapter::processTransactionInfo`. -/
def processTransactionInfo (config : Config) (info : TransactionInfo κ) : Track κ (Option (Tracked κ)) :=
  if config.trackTransactions then
    match info.type with
    | .begin => processBeginTransaction info
    | .commitOnePhase => processCommitTransactionOnePhase info
    | .commitTwoPhase => processCommitTransactionTwoPhase info
    | .end => processEndTransaction info
    | .prepare => processPrepareTransaction info
    | .rollback => processRollbackTransaction info
    | .forget | .recover => pure none
  else pure none

/-- `MessagePullCache::put` with its `removeEldestEntry`. -/
def processMessagePull (config : Config) (pull : MessagePull κ) : Track κ (Option (Tracked κ)) := do
  modify fun t =>
    let cache := LinkedHashMap.putImpl (pull.destination, pull.consumerId) pull t.messagePullCache
    { t with
      messagePullCache := if (cache.length : Int) > config.maxMessagePullCacheSize then cache.tail else cache }
  pure none

/-- `ConnectionStateTracker::track`: the visitor is called with the command. -/
def track (config : Config) (command : Command κ) : Track κ (Option (Tracked κ)) :=
  mapError catchExceptionConvert <|
    match command with
    | .connectionInfo info => processConnectionInfo info
    | .sessionInfo info => processSessionInfo info
    | .producerInfo info => processProducerInfo info
    | .consumerInfo info => processConsumerInfo info
    | .destinationInfo info => processDestinationInfo info
    | .removeInfo info => processRemoveInfo info
    | .message message => processMessage config message
    | .messagePull pull => processMessagePull config pull
    | .transactionInfo info => processTransactionInfo config info
    | .messageAck _ | .connectionControl _ | .shutdownInfo _ | .tracked _ | .other _ => pure none

def trackBack (config : Config) (command : Command κ) (t : Tracker κ) : Tracker κ :=
  match command with
  | .message message =>
    if config.trackMessages && message.transactionId.isNone then
      { t with currentCacheSize := toInt32 (t.currentCacheSize + message.size) }
    else t
  | _ => t

def mapConnections (f : ConnectionState κ → ConnectionState κ) (t : Tracker κ) : Tracker κ :=
  { t with connectionStates := t.connectionStates.map f }

def transportInterrupted : Tracker κ → Tracker κ :=
  mapConnections fun cs => { cs with connectionInterruptProcessingComplete := false }

/-- The consumers that came back in pull mode are each sent a `ConsumerControl` with their own prefetch. The
map of them is copied before it is cleared, so it keeps its entries. -/
def connectionInterruptProcessingComplete (id : ConnectionId κ) : Track κ (List (ConsumerControl κ)) := do
  let cs ← getConnectionState id
  setConnectionState id { cs with connectionInterruptProcessingComplete := true }
  pure (cs.recoveringPullConsumers.entries.map fun e => ⟨e.1, e.2.prefetchSize, e.2.destination⟩)

end ActiveMQCpp.State
