import ActiveMQCpp.CoreConsumer

/-! `ActiveMQConsumerKernel::rollback`: the delivered messages are delivered once more, or are given up as
poison. -/

namespace ActiveMQCpp.Core

open Codec

variable {μ : Type} [DecidableEq μ]

/-! ### Messages that are not redelivered -/

/-- The loop over the messages read but not acknowledged yet, from its round `i` on. -/
def rollbackUnacknowledged : Nat → Nat → Act μ Unit
  | 0, _ => pure ()
  | fuel + 1, i => do
    let s ← get
    if i < s.deliveredMessages.length && (i : Int) < s.ackCounter then
      match s.deliveredMessages.getLast? with
      | none => pure ()
      | some md =>
        modify fun s => { s with deliveredMessages := s.deliveredMessages.dropLast }
        rollbackDuplicate md.message
        rollbackUnacknowledged fuel (i + 1)

def removeFromDeliveredMessages (key : μ) : Act μ Unit := do
  let s ← get
  match s.deliveredMessages.find? fun d => d.message.messageId = key with
  | none => pure ()
  | some candidate =>
    rollbackDuplicate candidate.message
    modify fun s =>
      { s with deliveredMessages := s.deliveredMessages.eraseP fun d => d.message.messageId = key }

def rollbackNotRedelivered : List (μ × Bool) → Act μ Unit
  | [] => pure ()
  | (key, redelivered) :: entries => do
    if !redelivered then removeFromDeliveredMessages key
    rollbackNotRedelivered entries

def rollbackPreviouslyDeliveredAndNotRedelivered : Act μ Unit := do
  let s ← get
  match s.previouslyDeliveredMessages with
  | none => pure ()
  | some entries =>
    rollbackNotRedelivered entries
    modify fun s => { s with previouslyDeliveredMessages := none }

/-- What `rollback` does before it looks at the delivered messages. -/
def prepareRollback (setup : Setup) : Act μ Unit := do
  clearDeliveredList setup
  let s ← get
  if s.optimizeAcknowledge && !setup.browser then rollbackUnacknowledged s.deliveredMessages.length 0
  rollbackPreviouslyDeliveredAndNotRedelivered

/-! ### Redelivery -/

def noMaximumRedeliveries : Int := -1

/-- An acknowledgement for all delivered messages, with the id of the oldest of them. -/
def ackForAll (lastMsg : MessageDispatch μ) (ackType : AckType) (s : Kernel μ) : MessageAck μ :=
  { MessageAck.ofDispatch lastMsg ackType s.deliveredMessages.length with
    firstMessageId := s.deliveredMessages.getLast?.map fun d => d.message.messageId }

def poisonMessage (setup : Setup) (lastMsg : MessageDispatch μ) : String :=
  "Exceeded RedeliveryPolicy max redelivery limit: " ++ toString setup.maximumRedeliveries ++
    if lastMsg.rollbackCause.isEmpty then "" else " cause: Exception -> " ++ lastMsg.rollbackCause

def sendPoisonAck (setup : Setup) (lastMsg : MessageDispatch μ) : Act μ Unit := do
  let s ← get
  sendAck { ackForAll lastMsg .poison s with
    poisonCause := some ⟨"javax.jms.JMSException", poisonMessage setup lastMsg⟩ }
  modify fun s =>
    { s with
      additionalWindowSize := max 0 (s.additionalWindowSize - s.deliveredMessages.length)
      redeliveryDelay := 0
      deliveredCounter := s.deliveredCounter - s.deliveredMessages.length
      deliveredMessages := [] }

/-- The delivered messages go to a task, the oldest first. -/
def redeliverLater : Act μ Unit :=
  modify fun s =>
    if s.unconsumedMessages.closed then s
    else
      { s with
        deliveredCounter := s.deliveredCounter - s.deliveredMessages.length
        deliveredMessages := []
        scheduled := s.scheduled ++ [(.nonBlockingRedelivery s.deliveredMessages.reverse, s.redeliveryDelay)] }

def start : Act μ Unit :=
  modify fun s =>
    if s.unconsumedMessages.closed then s
    else
      { s with
        started := true
        unconsumedMessages := s.unconsumedMessages.start }

def redeliverNow : Act μ Unit := do
  modify fun s =>
    { s with
      unconsumedMessages := s.deliveredMessages.foldl (fun c d => enqueueFirst d c) s.unconsumedMessages.stop
      deliveredCounter := s.deliveredCounter - s.deliveredMessages.length
      deliveredMessages := [] }
  let s ← get
  if s.redeliveryDelay > 0 && !s.unconsumedMessages.closed then
    modify fun s => { s with scheduled := s.scheduled ++ [(.startConsumer, s.redeliveryDelay)] }
  else start

def redispatch : Act μ Unit :=
  modify fun s =>
    let (messages, emptied) := removeAll s.unconsumedMessages
    { s with
      unconsumedMessages := emptied
      sessionMessages := messages.reverse.foldl (fun c d => enqueueFirst d c) s.sessionMessages }

/-- The redelivery delay grows after the first redelivery only. -/
def countRedelivery (setup : Setup) (lastMsg : MessageDispatch μ) : Act μ Unit :=
  modify fun s =>
    { s with
      redeliveryDelay :=
        if lastMsg.message.redeliveryCounter > 0 then setup.nextRedeliveryDelay s.redeliveryDelay
        else setup.initialRedeliveryDelay
      deliveredMessages := s.deliveredMessages.map MessageDispatch.redelivered
      rolledBack := s.rolledBack ++ s.deliveredMessages.map fun d => d.message.redelivered }

/-- Messages that have been redelivered before are reported to the broker. -/
def sendRedeliveredAck (lastMsg : MessageDispatch μ) : Act μ Unit := do
  let s ← get
  if lastMsg.message.redeliveryCounter > 0 then sendAck (ackForAll lastMsg .redelivered s) else pure ()

def moveDelivered (setup : Setup) : Act μ Unit :=
  if setup.nonBlockingRedelivery then redeliverLater else redeliverNow

def isPoison (setup : Setup) (lastMsg : MessageDispatch μ) : Bool :=
  setup.maximumRedeliveries ≠ noMaximumRedeliveries &&
    lastMsg.message.redeliveryCounter + 1 > setup.maximumRedeliveries

def redeliver (setup : Setup) : Act μ Unit := do
  let s ← get
  match s.deliveredMessages with
  | [] => pure ()
  | lastMsg :: _ =>
    countRedelivery setup lastMsg
    if isPoison setup lastMsg then sendPoisonAck setup lastMsg
    else
      sendRedeliveredAck lastMsg
      moveDelivered setup
    if setup.hasListener then redispatch

def rollback (setup : Setup) : Act μ Unit := do
  prepareRollback setup
  redeliver setup

/-- `NonBlockingRedeliveryTask::run`. -/
def runRedeliveryTask : List (MessageDispatch μ) → Act μ Unit
  | [] => pure ()
  | dispatch :: redeliveries => do
    let s ← get
    if s.unconsumedMessages.closed then pure ()
    else
      modify fun s => { s with dispatched := s.dispatched ++ [dispatch] }
      runRedeliveryTask redeliveries

end ActiveMQCpp.Core
