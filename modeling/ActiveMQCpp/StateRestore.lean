import ActiveMQCpp.StateTracker

/-! `ConnectionStateTracker::restore`: the replay of the tracked state on a new transport. The transport is the list
of the commands sent on it and may fail at any of them. A transaction whose one-phase commit has not been answered is
not replayed; its commit is answered with an exception. -/

namespace ActiveMQCpp.State

open Codec Decaf

variable {κ : Type} [LinearOrder κ]

/-- "Transaction completion in doubt due to failover. Forcing rollback of `transactionId`". -/
structure ExceptionResponse (κ : Type) where
  correlationId : Int
  transactionId : TransactionId κ

/-- What a replay works on: the tracker, the requests that wait for a response, and the new transport.
The transport throws at the command whose position is `failAt`; `completed` lists the requests whose
`Tracked` object has been told of a response. -/
structure Restoring (κ : Type) [LinearOrder κ] where
  tracker : Tracker κ
  requestMap : OrderedMap Int (Command κ)
  sent : List (Command κ)
  answered : List (ExceptionResponse κ)
  completed : List (Tracked κ)
  failAt : Option Nat

abbrev Restore (κ : Type) [LinearOrder κ] := EStateM Failure (Restoring κ)

def oneway (command : Command κ) : Restore κ Unit := fun s =>
  if s.failAt = some s.sent.length then .error (.thrown .ioException "Failed to write to the transport.") s
  else .ok () { s with sent := s.sent ++ [command] }

def onewayAll : List (Command κ) → Restore κ Unit
  | [] => pure ()
  | command :: commands => do
    oneway command
    onewayAll commands

def onTracker {α : Type} (m : Track κ α) : Restore κ α := fun s =>
  match m s.tracker with
  | .ok a t => .ok a { s with tracker := t }
  | .error e t => .error e { s with tracker := t }

def modifyConnectionState (id : ConnectionId κ) (f : ConnectionState κ → ConnectionState κ) :
    Restore κ Unit :=
  onTracker (modify fun t => { t with connectionStates := t.connectionStates.modify id f })

def doRestoreTempDestinations (cs : ConnectionState κ) : Restore κ Unit :=
  onewayAll (cs.tempDestinations.map .destinationInfo)

def doRestoreProducers (ss : SessionState κ) : Restore κ Unit :=
  onewayAll (ss.producers.values.map fun state => .producerInfo state.info)

/-- Until the interruption has been dealt with a consumer comes back in pull mode. -/
def recovers (version : Int) (complete : Bool) (info : ConsumerInfo κ) : Bool :=
  !complete && decide (info.prefetchSize > 0) && decide (version > 5)

def restoreConsumers (version : Int) (complete : Bool) (id : ConnectionId κ) :
    List (ConsumerInfo κ) → Restore κ Unit
  | [] => pure ()
  | info :: infos => do
    if recovers version complete info then
      modifyConnectionState id fun cs =>
        { cs with recoveringPullConsumers := cs.recoveringPullConsumers.insert info.consumerId info }
      oneway (.consumerInfo { info with prefetchSize := 0 })
    else oneway (.consumerInfo info)
    restoreConsumers version complete id infos

def doRestoreConsumers (version : Int) (ss : SessionState κ) : Restore κ Unit := do
  let cs ← onTracker (getConnectionState ss.info.sessionId.parentId)
  restoreConsumers version cs.connectionInterruptProcessingComplete ss.info.sessionId.parentId
    ss.consumers.values

def doRestoreSessions (config : Config) (version : Int) : List (SessionState κ) → Restore κ Unit
  | [] => pure ()
  | ss :: states => do
    oneway (.sessionInfo ss.info)
    if config.restoreProducers then doRestoreProducers ss
    if config.restoreConsumers then doRestoreConsumers version ss
    doRestoreSessions config version states

/-- `lastCommand`, when it is a one-phase commit. -/
def inDoubt (tx : TransactionState κ) : Option (TransactionInfo κ) :=
  match tx.commands.getLast? with
  | some (.transactionInfo info) => if info.type = .commitOnePhase then some info else none
  | _ => none

def ProducerInfo.createRemoveCommand (info : ProducerInfo κ) : RemoveInfo κ :=
  { responseRequired := info.responseRequired, objectId := .producer info.producerId }

/-- The producers that were closed while their transaction was open are there only for the replay. -/
def replayTransaction (tx : TransactionState κ) : List (Command κ) :=
  tx.producers.values.map .producerInfo ++ tx.commands ++
    tx.producers.values.map fun info => .removeInfo info.createRemoveCommand

/-- The loop over the transaction states, with the commits to be answered. -/
def restoreTransactions : List (TransactionState κ) → Restore κ (List (TransactionInfo κ))
  | [] => pure []
  | tx :: states =>
    if tx.commands.isEmpty then throw (.thrown .noSuchElementException "The LinkedList is empty")
    else
      match inDoubt tx with
      | some info => do
        let toRollback ← restoreTransactions states
        pure (info :: toRollback)
      | none => do
        onewayAll (replayTransaction tx)
        restoreTransactions states

/-- `FailoverTransportListener::onCommand` with a response: the request it answers is forgotten, and a
`Tracked` one is told. -/
def onResponse (correlationId : Int) : Restore κ Unit := do
  let s ← get
  set { s with requestMap := s.requestMap.erase correlationId }
  match (s.requestMap.find correlationId).bind Command.tracked? with
  | some tracked => do
    onTracker tracked.onResponse
    modify fun s => { s with completed := s.completed ++ [tracked] }
  | none => pure ()

def answerAll : List (TransactionInfo κ) → Restore κ Unit
  | [] => pure ()
  | info :: infos => do
    onResponse info.commandId
    modify fun s => { s with answered := s.answered ++ [⟨info.commandId, info.transactionId⟩] }
    answerAll infos

def transactionStatesOf (cs : ConnectionState κ) (t : Tracker κ) : List (TransactionState κ) :=
  cs.transactions.values.filterMap fun ref => t.transactionStates[ref]?

def doRestoreTransactions (id : ConnectionId κ) : Restore κ Unit := do
  let cs ← onTracker (getConnectionState id)
  let s ← get
  let toRollback ← restoreTransactions (transactionStatesOf cs s.tracker)
  answerAll toRollback

/-- `info->setFailoverReconnect(true)`, on the info that the state keeps. -/
def ConnectionState.setFailoverReconnect (cs : ConnectionState κ) : ConnectionState κ :=
  { cs with info := { cs.info with failoverReconnect := true } }

def restoreConnection (config : Config) (version : Int) (id : ConnectionId κ) : Restore κ Unit := do
  modifyConnectionState id ConnectionState.setFailoverReconnect
  let cs ← onTracker (getConnectionState id)
  oneway (.connectionInfo cs.info)
  doRestoreTempDestinations cs
  if config.restoreSessions then doRestoreSessions config version cs.sessions.values
  if config.restoreTransaction then doRestoreTransactions id

def restoreConnections (config : Config) (version : Int) : List (ConnectionId κ) → Restore κ Unit
  | [] => pure ()
  | id :: ids => do
    restoreConnection config version id
    restoreConnections config version ids

/-- `restore`, on a transport that speaks OpenWire `version`. -/
def restore (config : Config) (version : Int) : Restore κ Unit :=
  mapError catchExceptionConvert do
    let s ← get
    restoreConnections config version (s.tracker.connectionStates.entries.map Prod.fst)
    let s ← get
    onewayAll (s.tracker.messageCache.map fun e => .message e.2)
    onewayAll (s.tracker.messagePullCache.map fun e => .messagePull e.2)

end ActiveMQCpp.State
