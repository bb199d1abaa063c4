import ActiveMQCpp.LibOrderedMap
import ActiveMQCpp.DecafDataStream
import Mathlib.Data.Prod.Lex

/-! The commands a connection sends, with the fields that the state tracker and the failover transport
read. `κ` stands for the values of connection ids: they are only ever compared, by
`StringUtils::compareIgnoreCase`, so values that compare equal are one value of `κ`. -/

namespace ActiveMQCpp.State

open Decaf

structure ConnectionId (κ : Type) where
  value : κ

structure SessionId (κ : Type) where
  connectionId : κ
  value : Int

structure ProducerId (κ : Type) where
  connectionId : κ
  sessionId : Int
  value : Int

structure ConsumerId (κ : Type) where
  connectionId : κ
  sessionId : Int
  value : Int

structure LocalTransactionId (κ : Type) where
  connectionId : κ
  value : Int

section Ids

variable {κ : Type}

def SessionId.parentId (id : SessionId κ) : ConnectionId κ := ⟨id.connectionId⟩

def ProducerId.parentId (id : ProducerId κ) : SessionId κ := ⟨id.connectionId, id.sessionId⟩

def ConsumerId.parentId (id : ConsumerId κ) : SessionId κ := ⟨id.connectionId, id.sessionId⟩

variable [LinearOrder κ]

instance : LinearOrder (ConnectionId κ) :=
  LinearOrder.lift' ConnectionId.value fun ⟨_⟩ ⟨_⟩ h => congrArg ConnectionId.mk h

instance : LinearOrder (SessionId κ) :=
  LinearOrder.lift' (fun id => toLex (id.connectionId, id.value)) fun ⟨_, _⟩ ⟨_, _⟩ h => by
    cases h
    rfl

/-- `ProducerId::compareTo` looks at the value before the session. -/
instance : LinearOrder (ProducerId κ) :=
  LinearOrder.lift' (fun id => toLex (id.connectionId, toLex (id.value, id.sessionId)))
    fun ⟨_, _, _⟩ ⟨_, _, _⟩ h => by
      cases h
      rfl

instance : LinearOrder (ConsumerId κ) :=
  LinearOrder.lift' (fun id => toLex (id.connectionId, toLex (id.sessionId, id.value)))
    fun ⟨_, _, _⟩ ⟨_, _, _⟩ h => by
      cases h
      rfl

instance : LinearOrder (LocalTransactionId κ) :=
  LinearOrder.lift' (fun id => toLex (id.value, id.connectionId)) fun ⟨_, _⟩ ⟨_, _⟩ h => by
    cases h
    rfl

end Ids

/-- Local transactions are told apart from XA transactions by a dynamic cast. -/
inductive TransactionId (κ : Type) where
  | local (id : LocalTransactionId κ)
  | xa (formatId : Int) (globalTransactionId branchQualifier : ByteString)

inductive DestinationType where
  | queue
  | topic
  | tempQueue
  | tempTopic
  deriving DecidableEq, Repr

structure Destination where
  physicalName : ByteString
  type : DestinationType
  deriving DecidableEq

def Destination.isTemporary (destination : Destination) : Bool :=
  match destination.type with
  | .tempQueue | .tempTopic => true
  | .queue | .topic => false

inductive TransactionType where
  | begin
  | prepare
  | commitOnePhase
  | commitTwoPhase
  | rollback
  | recover
  | forget
  | end
  deriving DecidableEq, Repr

inductive DestinationOperation where
  | add
  | remove
  deriving DecidableEq, Repr

structure BaseCommand where
  commandId : Int := 0
  responseRequired : Bool := false
  deriving DecidableEq

structure ConnectionInfo (κ : Type) extends BaseCommand where
  connectionId : ConnectionId κ
  failoverReconnect : Bool := false

structure SessionInfo (κ : Type) extends BaseCommand where
  sessionId : SessionId κ

structure ProducerInfo (κ : Type) extends BaseCommand where
  producerId : ProducerId κ

structure ConsumerInfo (κ : Type) extends BaseCommand where
  consumerId : ConsumerId κ
  destination : Destination
  prefetchSize : Int

/-- The fields that the tracker sets; the others keep their defaults. -/
structure ConsumerControl (κ : Type) where
  consumerId : ConsumerId κ
  prefetch : Int
  destination : Destination

structure DestinationInfo (κ : Type) extends BaseCommand where
  connectionId : ConnectionId κ
  destination : Destination
  operationType : DestinationOperation

/-- The object id of a `RemoveInfo`; ids of other types are refused. -/
inductive ObjectId (κ : Type) where
  | connection (id : ConnectionId κ)
  | session (id : SessionId κ)
  | producer (id : ProducerId κ)
  | consumer (id : ConsumerId κ)
  | other

structure RemoveInfo (κ : Type) extends BaseCommand where
  objectId : ObjectId κ

/-- `messageId` stands for the `MessageId` object, which the message cache compares by address. -/
structure Message (κ : Type) extends BaseCommand where
  messageId : Nat
  producerId : ProducerId κ
  transactionId : Option (TransactionId κ)
  size : Nat

structure MessageAck (κ : Type) extends BaseCommand where
  consumerId : ConsumerId κ
  messageCount : Int

structure MessagePull (κ : Type) extends BaseCommand where
  consumerId : ConsumerId κ
  destination : Destination
  timeout : Int

structure TransactionInfo (κ : Type) extends BaseCommand where
  connectionId : ConnectionId κ
  transactionId : TransactionId κ
  type : TransactionType

structure ConnectionControl extends BaseCommand where
  faultTolerant : Bool
  deriving DecidableEq

structure ShutdownInfo extends BaseCommand where
  deriving DecidableEq

/-- What `ConnectionStateTracker::track` returns for a command it has dealt with: the common marker, or a
response whose `onResponse` removes the state of a completed transaction. -/
inductive Tracked (κ : Type) where
  | marker
  | removeTransaction (info : TransactionInfo κ)

def Tracked.isWaitingForResponse {κ : Type} : Tracked κ → Bool
  | .marker => false
  | .removeTransaction _ => true

/-- `other` stands for the commands the tracker passes over; `tracked` for a `Tracked` object, which is a
command as well. -/
inductive Command (κ : Type) where
  | connectionInfo (info : ConnectionInfo κ)
  | sessionInfo (info : SessionInfo κ)
  | producerInfo (info : ProducerInfo κ)
  | consumerInfo (info : ConsumerInfo κ)
  | destinationInfo (info : DestinationInfo κ)
  | removeInfo (info : RemoveInfo κ)
  | message (msg : Message κ)
  | messageAck (ack : MessageAck κ)
  | messagePull (pull : MessagePull κ)
  | transactionInfo (info : TransactionInfo κ)
  | connectionControl (control : ConnectionControl)
  | shutdownInfo (info : ShutdownInfo)
  | tracked (tracked : Tracked κ)
  | other (base : BaseCommand)

/-- `object.dynamicCast<Tracked>()`. -/
def Command.tracked? {κ : Type} : Command κ → Option (Tracked κ)
  | tracked t => some t
  | _ => none

def Command.base {κ : Type} : Command κ → BaseCommand
  | connectionInfo info => info.toBaseCommand
  | sessionInfo info => info.toBaseCommand
  | producerInfo info => info.toBaseCommand
  | consumerInfo info => info.toBaseCommand
  | destinationInfo info => info.toBaseCommand
  | removeInfo info => info.toBaseCommand
  | message msg => msg.toBaseCommand
  | messageAck ack => ack.toBaseCommand
  | messagePull pull => pull.toBaseCommand
  | transactionInfo info => info.toBaseCommand
  | connectionControl control => control.toBaseCommand
  | shutdownInfo info => info.toBaseCommand
  | tracked _ => {}
  | other base => base

end ActiveMQCpp.State
