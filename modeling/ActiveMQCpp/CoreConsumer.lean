import ActiveMQCpp.CoreChannel
import ActiveMQCpp.LibStream

/-! `ActiveMQConsumerKernel`: the messages a consumer has delivered, the acknowledgements it sends for them,
and rollback. -/

namespace ActiveMQCpp.Core

open Codec

variable {μ : Type}

inductive AckType where
  | delivered
  | poison
  | consumed
  | redelivered
  | individual
  | unmatched
  | expired
  deriving DecidableEq, Repr

structure BrokerError where
  exceptionClass : String
  message : String

structure MessageAck (μ : Type) where
  ackType : AckType
  messageCount : Int
  firstMessageId : Option μ := none
  lastMessageId : μ
  transactionId : Option Int := none
  poisonCause : Option BrokerError := none

def MessageAck.ofDispatch (dispatch : MessageDispatch μ) (ackType : AckType) (messageCount : Int) : MessageAck μ where
  ackType := ackType
  messageCount := messageCount
  lastMessageId := dispatch.message.messageId

inductive AcknowledgeMode where
  | auto
  | client
  | dupsOk
  | transacted
  | individual
  deriving DecidableEq, Repr

inductive Task (μ : Type) where
  | startConsumer
  | nonBlockingRedelivery (redeliveries : List (MessageDispatch μ))

/-- What does not change while a consumer lives. The policy's next delay depends on the last one. -/
structure Setup where
  ackMode : AcknowledgeMode
  isQueue : Bool
  prefetchSize : Int
  browser : Bool := false
  transactedIndividualAck : Bool := false
  nonBlockingRedelivery : Bool := false
  optimizeAcknowledgeTimeOut : Int := 0
  hasListener : Bool := false
  maximumRedeliveries : Int := 6
  initialRedeliveryDelay : Int := 1000
  nextRedeliveryDelay : Int → Int := fun _ => 1000

/-- `submitted` are the acknowledgements given to the executor that it has not sent yet, `sessionMessages` the
messages that the session has for its consumers. What a consumer does to others is kept as it happens: the
acknowledgements sent, the messages rolled back in the duplicate audit, the tasks scheduled and the
messages given to the session to dispatch. The session fails to send an acknowledgement after `failAt` of
them have been sent. -/
structure Kernel (μ : Type) where
  deliveringAcks : Bool := false
  started : Bool := false
  unconsumedMessages : MessageDispatchChannel μ := {}
  deliveredMessages : List (MessageDispatch μ) := []
  lastDeliveredSequenceId : Int := -1
  pendingAck : Option (MessageAck μ) := none
  deliveredCounter : Int := 0
  additionalWindowSize : Int := 0
  synchronizationRegistered : Bool := false
  isClearDeliveredList : Bool := false
  inProgressClearRequiredFlag : Nat := 0
  redeliveryDelay : Int := 0
  previouslyDeliveredMessages : Option (List (μ × Bool)) := none
  optimizeAcknowledge : Bool := false
  optimizeAckTimestamp : Int := 0
  ackCounter : Int := 0
  inXATransaction : Bool := false
  transactionId : Option Int := none
  nextTransactionId : Int := 1
  submitted : List (MessageAck μ) := []
  sent : List (MessageAck μ) := []
  rolledBack : List (Message μ) := []
  scheduled : List (Task μ × Int) := []
  dispatched : List (MessageDispatch μ) := []
  sessionMessages : MessageDispatchChannel μ := {}
  failAt : Option Nat := none

inductive Fault where
  | sendFailed
  | invalidSessionState
  | transactionRolledBack (numberNotReplayed : Nat)
  deriving DecidableEq, Repr

abbrev Act (μ : Type) := EStateM Fault (Kernel μ)

/-! ### The session -/

def sendAck (ack : MessageAck μ) : Act μ Unit := fun s =>
  if s.failAt = some s.sent.length then .error .sendFailed s
  else .ok () { s with sent := s.sent ++ [ack] }

def isTransacted (setup : Setup) (s : Kernel μ) : Bool := setup.ackMode = .transacted || s.inXATransaction

def rollbackDuplicate (message : Message μ) : Act μ Unit :=
  modify fun s => { s with rolledBack := s.rolledBack ++ [message] }

/-- A local transaction is begun unless there is one. -/
def doStartTransaction (setup : Setup) : Act μ Unit :=
  modify fun s =>
    if isTransacted setup s && !s.inXATransaction && s.transactionId.isNone then
      { s with
        transactionId := some s.nextTransactionId
        nextTransactionId := s.nextTransactionId + 1 }
    else s

def registerSync (setup : Setup) : Act μ Unit := do
  doStartTransaction setup
  modify fun s => { s with synchronizationRegistered := true }

/-! ### Acknowledging -/

def Setup.isAutoAcknowledgeEach (setup : Setup) : Bool :=
  setup.ackMode = .auto || (setup.ackMode = .dupsOk && setup.isQueue)

def Setup.isAutoAcknowledgeBatch (setup : Setup) : Bool := setup.ackMode = .dupsOk && !setup.isQueue

/-- `0.65` of the prefetch size, in integers. -/
def isTimeForOptimizedAck (setup : Setup) (now : Int) (s : Kernel μ) : Bool :=
  13 * setup.prefetchSize ≤ 20 * (s.ackCounter + s.deliveredCounter) ||
    (setup.optimizeAcknowledgeTimeOut > 0 && now ≥ s.optimizeAckTimestamp + setup.optimizeAcknowledgeTimeOut)

/-- The newest delivered message comes first. -/
def makeAckForAllDeliveredMessages (ackType : AckType) (s : Kernel μ) : Option (MessageAck μ) :=
  match s.deliveredMessages with
  | [] => none
  | dispatched :: older =>
    some { MessageAck.ofDispatch dispatched ackType (s.deliveredMessages.length : Int) with
      firstMessageId := some ((dispatched :: older).getLast (List.cons_ne_nil _ _)).message.messageId }

/-- The acknowledgement that replaces the pending one. -/
def nextPendingAck (dispatch : MessageDispatch μ) (ackType : AckType) (s : Kernel μ) : MessageAck μ :=
  let ack := MessageAck.ofDispatch dispatch ackType s.deliveredCounter
  match s.pendingAck with
  | none => { ack with firstMessageId := some ack.lastMessageId }
  | some old => if old.ackType = ackType then { ack with firstMessageId := old.firstMessageId } else ack

def sendSuperseded (ackType : AckType) : Option (MessageAck μ) → Act μ Unit
  | none => pure ()
  | some old => if old.ackType ≠ ackType && old.ackType ≠ .delivered then sendAck old else pure ()

/-- Half of the prefetch size, in integers. -/
def ackLater (setup : Setup) (dispatch : MessageDispatch μ) (ackType : AckType) : Act μ Unit := do
  let s ← get
  if isTransacted setup s then registerSync setup
  modify fun s => { s with deliveredCounter := s.deliveredCounter + 1 }
  let s ← get
  modify fun s => { s with pendingAck := some (nextPendingAck dispatch ackType s) }
  sendSuperseded ackType s.pendingAck
  if isTransacted setup s then
    modify fun s => { s with pendingAck := s.pendingAck.map fun ack => { ack with transactionId := s.transactionId } }
  let s ← get
  if setup.prefetchSize ≤ 2 * (s.deliveredCounter + s.ackCounter - s.additionalWindowSize) then
    s.pendingAck.forM sendAck
    modify fun s =>
      { s with
        pendingAck := none
        deliveredCounter := 0
        additionalWindowSize := 0 }

def immediateIndividualTransactedAck (setup : Setup) (dispatch : MessageDispatch μ) : Act μ Unit := do
  registerSync setup
  let s ← get
  sendAck { MessageAck.ofDispatch dispatch .individual 1 with transactionId := s.transactionId }

def beforeMessageIsConsumed (setup : Setup) (dispatch : MessageDispatch μ) : Act μ Unit := do
  modify fun s => { s with lastDeliveredSequenceId := dispatch.message.brokerSequenceId }
  if setup.isAutoAcknowledgeBatch then pure ()
  else
    modify fun s => { s with deliveredMessages := dispatch :: s.deliveredMessages }
    let s ← get
    if isTransacted setup s then
      if setup.transactedIndividualAck then immediateIndividualTransactedAck setup dispatch
      else ackLater setup dispatch .delivered

/-- Removes the first occurrence of the object. -/
def removeDelivered (dispatch : MessageDispatch μ) (delivered : List (MessageDispatch μ)) : List (MessageDispatch μ) :=
  delivered.eraseP fun d => d.ref = dispatch.ref

def singleAck (dispatch : MessageDispatch μ) (ackType : AckType) : MessageAck μ :=
  let ack := MessageAck.ofDispatch dispatch ackType 1
  if ackType = .expired then { ack with firstMessageId := some ack.lastMessageId } else ack

def acknowledgeDispatch (dispatch : MessageDispatch μ) (ackType : AckType) : Act μ Unit := do
  sendAck (singleAck dispatch ackType)
  modify fun s => { s with deliveredMessages := removeDelivered dispatch s.deliveredMessages }

def sendOptimizedAcks (now : Int) : Act μ Unit := do
  let s ← get
  match makeAckForAllDeliveredMessages .consumed s with
  | none => pure ()
  | some ack =>
    modify fun s => { s with deliveredMessages := [], ackCounter := 0 }
    sendAck ack
    modify fun s => { s with optimizeAckTimestamp := now }
  let s ← get
  if s.deliveredCounter > 0 then
    match s.pendingAck with
    | none => pure ()
    | some pending =>
      sendAck pending
      modify fun s => { s with pendingAck := none, deliveredCounter := 0 }

/-- The part of `afterMessageIsConsumed` for the modes that acknowledge each message, with the delivered
messages locked. -/
def ackDelivered (setup : Setup) (now : Int) : Act μ Unit := do
  let s ← get
  if s.deliveredMessages.isEmpty then pure ()
  else if s.optimizeAcknowledge then
    modify fun s => { s with ackCounter := s.ackCounter + 1 }
    let s ← get
    if isTimeForOptimizedAck setup now s then sendOptimizedAcks now else pure ()
  else
    match makeAckForAllDeliveredMessages .consumed s with
    | none => pure ()
    | some ack =>
      modify fun s => { s with deliveredMessages := [] }
      sendAck ack

def afterMessageIsConsumed (setup : Setup) (now : Int) (dispatch : MessageDispatch μ) (messageExpired : Bool) :
    Act μ Unit := do
  let s ← get
  if s.unconsumedMessages.closed then pure ()
  else if messageExpired then acknowledgeDispatch dispatch .expired
  else if isTransacted setup s then pure ()
  else if setup.isAutoAcknowledgeEach then
    if s.deliveringAcks then pure ()
    else
      modify fun s => { s with deliveringAcks := true }
      ackDelivered setup now
      modify fun s => { s with deliveringAcks := false }
  else if setup.isAutoAcknowledgeBatch then ackLater setup dispatch .consumed
  else if setup.ackMode = .client || setup.ackMode = .individual then
    if s.deliveredMessages.any fun d => d.ref = dispatch.ref then ackLater setup dispatch .delivered else pure ()
  else throw .invalidSessionState

/-- The acknowledgement that `deliverAcks` takes, and what it leaves. -/
def takeAck (setup : Setup) (s : Kernel μ) : Option (MessageAck μ) × Kernel μ :=
  if setup.isAutoAcknowledgeEach then
    match makeAckForAllDeliveredMessages .consumed s with
    | some ack => (some ack, { s with deliveredMessages := [], ackCounter := 0 })
    | none => (s.pendingAck, { s with pendingAck := none })
  else
    match s.pendingAck with
    | some ack => if ack.ackType = .consumed then (some ack, { s with pendingAck := none }) else (none, s)
    | none => (none, s)

/-- The acknowledgement is sent by the executor, and until then the consumer is said to deliver one. -/
def deliverAcks (setup : Setup) : Act μ Unit :=
  modify fun s =>
    if s.deliveringAcks then s
    else
      match takeAck setup s with
      | (some ack, s') => { s' with deliveringAcks := true, submitted := s'.submitted ++ [ack] }
      | (none, s') => s'

/-- `AsyncMessageAckTask::run`. What the session throws is swallowed. -/
def runAckTask : Act μ Unit := fun s =>
  match s.submitted with
  | [] => .ok () s
  | ack :: rest => .ok () { stateOf (sendAck ack { s with submitted := rest }) with deliveringAcks := false }

def setOptimizeAcknowledge (setup : Setup) (value : Bool) : Act μ Unit := do
  let s ← get
  if s.optimizeAcknowledge && !value then deliverAcks setup
  modify fun s => { s with optimizeAcknowledge := value }

/-! ### Interruptions -/

section Interruptions

variable [DecidableEq μ]

/-- The entries that are not there yet are added, and none is marked as delivered again. -/
def notRedelivered (entries : List (μ × Bool)) (ids : List μ) : List (μ × Bool) :=
  ids.foldl (fun entries id => entries.filter (fun e => e.1 ≠ id) ++ [(id, false)]) entries

def clearDeliveredList (setup : Setup) : Act μ Unit :=
  modify fun s =>
    if !s.isClearDeliveredList then s
    else if s.deliveredMessages.isEmpty then { s with isClearDeliveredList := false }
    else if isTransacted setup s then
      { s with
        previouslyDeliveredMessages := some (notRedelivered (s.previouslyDeliveredMessages.getD [])
          (s.deliveredMessages.map fun d => d.message.messageId))
        isClearDeliveredList := false }
    else
      { s with
        rolledBack :=
          if (setup.ackMode = .client || setup.ackMode = .individual) && !setup.browser then
            s.rolledBack ++ s.deliveredMessages.map MessageDispatch.message
          else s.rolledBack
        deliveredMessages := []
        pendingAck := none
        isClearDeliveredList := false }

def rollbackOnFailedRecoveryRedelivery : Act μ Unit := fun s =>
  match s.previouslyDeliveredMessages with
  | none => .ok () s
  | some entries =>
    let numberNotReplayed := (entries.filter fun e => !e.2).length
    if numberNotReplayed > 0 then .error (.transactionRolledBack numberNotReplayed) s else .ok () s

def acknowledge (setup : Setup) : Act μ Unit := do
  clearDeliveredList setup
  let s ← get
  match makeAckForAllDeliveredMessages .consumed s with
  | none => pure ()
  | some ack =>
    if isTransacted setup s then
      rollbackOnFailedRecoveryRedelivery
      doStartTransaction setup
    modify fun s => { s with pendingAck := none }
    let s ← get
    sendAck (if isTransacted setup s then { ack with transactionId := s.transactionId } else ack)
    modify fun s =>
      { s with
        deliveredCounter := max 0 (s.deliveredCounter - s.deliveredMessages.length)
        additionalWindowSize := max 0 (s.additionalWindowSize - s.deliveredMessages.length)
        deliveredMessages := if isTransacted setup s then s.deliveredMessages else [] }

end Interruptions

end ActiveMQCpp.Core
