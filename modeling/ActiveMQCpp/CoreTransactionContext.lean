import Mathlib.Data.List.Sort
import ActiveMQCpp.StateCommands

/-! `ActiveMQTransactionContext`: local transactions and the methods of `XAResource`. Every call that leaves the context
(to the connection or to a synchronization) is recorded, and what becomes of it is an oracle over the calls before it. -/

namespace ActiveMQCpp.Core

open Codec Decaf State

/-- What the getters of a `cms::Xid` return. Both qualifiers fit into the buffers of the context. -/
structure Xid where
  formatId : Int
  globalTransactionId : ByteString
  branchQualifier : ByteString
  globalTransactionId_le : globalTransactionId.length ≤ 64 := by decide
  branchQualifier_le : branchQualifier.length ≤ 64 := by decide
  deriving DecidableEq

def xidBuffer (qualifier : ByteString) : ByteString := qualifier ++ List.replicate (64 - qualifier.length) 0

/-- `equals`: the buffers are compared, and two pointers that are `NULL` are equal. -/
def xidEquals : Option Xid → Option Xid → Bool
  | none, none => true
  | some xid, some remote =>
    xid.formatId = remote.formatId && xidBuffer xid.branchQualifier = xidBuffer remote.branchQualifier &&
      xidBuffer xid.globalTransactionId = xidBuffer remote.globalTransactionId
  | _, _ => false

/-- `XATransactionId(xid)`. -/
def Xid.transactionId {κ : Type} (xid : Xid) : TransactionId κ :=
  .xa xid.formatId xid.globalTransactionId xid.branchQualifier

inductive XAErrorCode where
  | protocol
  | invalid
  | resourceManagerFailed
  /-- The constructor with a message sets none. -/
  | none
  deriving DecidableEq

/-- The classes of exceptions that the clauses of the context tell apart. The `cms` exceptions and the `decaf` ones,
`ActiveMQException` among these, are unrelated. -/
inductive TransactionException where
  | xa (code : XAErrorCode)
  /-- A pointer to an `XAException`, by `throw new`. -/
  | xaPointer
  | transactionRolledBack
  | cms
  | activemq
  | decaf
  | other
  deriving DecidableEq

namespace TransactionException

/-- `catch (cms::CMSException&)`. -/
def isCms : TransactionException → Bool
  | xa _ | transactionRolledBack | cms => true
  | _ => false

/-- `catch (Exception&)`. -/
def isException : TransactionException → Bool
  | activemq | decaf => true
  | _ => false

/-- The clauses at the end of `begin`, `commit` and `rollback`. -/
def toActiveMQException (e : TransactionException) : TransactionException := if e.isCms then e else .activemq

/-- `catch (Exception& e) { throw toXAException(e); } catch (CMSException& e) { throw toXAException(e); }`. -/
def toXAException (e : TransactionException) : TransactionException :=
  if e.isException || e.isCms then .xa .resourceManagerFailed else e

/-- `catch (CMSException& e) { throw toXAException(e); }`. -/
def cmsToXAException (e : TransactionException) : TransactionException :=
  if e.isCms then .xa .resourceManagerFailed else e

end TransactionException

inductive SynchronizationCallback where
  | beforeEnd
  | afterCommit
  | afterRollback
  deriving DecidableEq

inductive ContextCall (κ σ : Type) where
  /-- `checkClosedOrFailed` and `ensureConnectionInfoSent` of the connection. -/
  | checkConnection
  | send (type : TransactionType) (id : TransactionId κ)
  | notify (callback : SynchronizationCallback) (sync : σ)

/-- `synchronizations` are in the order in which the set is iterated. The id of the connection and its next transaction
id belong to the connection. -/
structure TransactionContext (κ σ : Type) where
  connectionId : κ
  nextLocalTransactionId : Int := 1
  transactionId : Option (TransactionId κ) := none
  associatedXid : Option Xid := none
  synchronizations : List σ := []
  calls : List (ContextCall κ σ) := []

/-- What becomes of a call, and whether the answer to a prepare is `XA_RDONLY`, by the calls before it. -/
structure ContextOracle (κ σ : Type) where
  fails : List (ContextCall κ σ) → ContextCall κ σ → Option TransactionException
  readOnly : List (ContextCall κ σ) → Bool

namespace TransactionContext

open TransactionException

variable {κ σ : Type}

abbrev Action (κ σ α : Type) : Type := EStateM TransactionException (TransactionContext κ σ) α

def isInTransaction (c : TransactionContext κ σ) : Bool := c.transactionId.isSome

def isInLocalTransaction (c : TransactionContext κ σ) : Bool :=
  match c.transactionId with
  | some (.local _) => true
  | _ => false

def isInXATransaction (c : TransactionContext κ σ) : Bool :=
  match c.transactionId with
  | some (.xa ..) => true
  | _ => false

section Synchronizations

variable [LinearOrder σ]

def addSynchronization (sync : σ) (c : TransactionContext κ σ) : TransactionContext κ σ :=
  if sync ∈ c.synchronizations then c
  else { c with synchronizations := c.synchronizations.orderedInsert (· ≤ ·) sync }

def removeSynchronization (sync : σ) (c : TransactionContext κ σ) : TransactionContext κ σ :=
  { c with synchronizations := c.synchronizations.erase sync }

end Synchronizations

variable (oracle : ContextOracle κ σ)

def call (called : ContextCall κ σ) : Action κ σ Unit := fun c =>
  match oracle.fails c.calls called with
  | none => .ok () { c with calls := c.calls ++ [called] }
  | some e => .error e { c with calls := c.calls ++ [called] }

section Call

variable {oracle} {c : TransactionContext κ σ} {called : ContextCall κ σ} {e : TransactionException}

theorem call_ok (h : oracle.fails c.calls called = none) :
    call oracle called c = .ok () { c with calls := c.calls ++ [called] } := by
  rw [call, h]

theorem call_error (h : oracle.fails c.calls called = some e) :
    call oracle called c = .error e { c with calls := c.calls ++ [called] } := by
  rw [call, h]

end Call

def notifyAll (callback : SynchronizationCallback) (syncs : List σ) : Action κ σ Unit :=
  syncs.forM fun sync => call oracle (.notify callback sync)

def beforeEnd : Action κ σ Unit := fun c => notifyAll oracle .beforeEnd c.synchronizations c

/-- `Finally`: the set is cleared however the loop ends. -/
def afterAll (callback : SynchronizationCallback) : Action κ σ Unit := fun c =>
  match notifyAll oracle callback c.synchronizations c with
  | .ok () c' => .ok () { c' with synchronizations := [] }
  | .error e c' => .error e { c' with synchronizations := [] }

def afterCommit : Action κ σ Unit := afterAll oracle .afterCommit

def afterRollback : Action κ σ Unit := afterAll oracle .afterRollback

/-! ### Local transactions -/

def begin : Action κ σ Unit :=
  mapError toActiveMQException do
    let c ← get
    throwIf c.isInXATransaction .cms
    if !c.isInTransaction then
      let id := TransactionId.local ⟨c.connectionId, c.nextLocalTransactionId⟩
      modify fun c => { c with synchronizations := [], nextLocalTransactionId := c.nextLocalTransactionId + 1 }
      call oracle (.send .begin id)
      modify fun c => { c with transactionId := some id }

def sendRollback : Option (TransactionId κ) → Action κ σ Unit
  | none => pure ()
  | some id => do
    modify fun c => { c with transactionId := none }
    call oracle (.send .rollback id)
    afterRollback oracle

def rollback : Action κ σ Unit :=
  mapError toActiveMQException do
    throwIf (← get).isInXATransaction .cms
    tryCatch (beforeEnd oracle) fun e => if e = .transactionRolledBack then pure () else throw e
    sendRollback oracle (← get).transactionId

def sendCommit : Option (TransactionId κ) → Action κ σ Unit
  | none => pure ()
  | some id => do
    modify fun c => { c with transactionId := none }
    tryCatch (do
      call oracle (.send .commitOnePhase id)
      afterCommit oracle) fun e => do
        if e.isCms then afterRollback oracle
        throw e

def commit : Action κ σ Unit :=
  mapError toActiveMQException do
    throwIf (← get).isInXATransaction .cms
    tryCatch (beforeEnd oracle) fun e => do
      if e.isCms then rollback oracle
      throw e
    sendCommit oracle (← get).transactionId

/-! ### XA transactions -/

/-- `XAResource::TMFAIL` and the others. -/
def tmFail : UInt32 := 0x20000000

def tmJoin : UInt32 := 0x200000

def tmResume : UInt32 := 0x8000000

def tmSuccess : UInt32 := 0x4000000

def tmSuspend : UInt32 := 0x2000000

/-- The command that ends an association, if there is one. -/
def sendEnd : Option (TransactionId κ) → Action κ σ Unit
  | some id => mapError cmsToXAException (call oracle (.send .end id))
  | none => pure ()

/-- What is associated is stored before the command is sent, and removed after it was answered. -/
def setXid (xid : Option Xid) : Action κ σ Unit := do
  mapError toXAException (call oracle .checkConnection)
  match xid with
  | some xid =>
    modify fun c => { c with associatedXid := some xid, transactionId := some xid.transactionId }
    mapError toXAException (call oracle (.send .begin xid.transactionId))
  | none =>
    sendEnd oracle (← get).transactionId
    modify fun c => { c with associatedXid := none, transactionId := none }

def start (xid : Option Xid) (flags : UInt32) : Action κ σ Unit := do
  let c ← get
  throwIf c.isInLocalTransaction (.xa .protocol)
  throwIf c.associatedXid.isSome .xaPointer
  throwIf (flags &&& tmJoin = tmJoin) (.xa .none)
  throwIf (flags &&& tmResume = tmResume) (.xa .none)
  modify fun c => { c with synchronizations := [] }
  setXid oracle xid

/-- The synchronizations are told before the association is given up. -/
def leave : Action κ σ Unit := do
  mapError toXAException (beforeEnd oracle)
  setXid oracle none

def «end» (xid : Option Xid) (flags : UInt32) : Action κ σ Unit := do
  let c ← get
  throwIf c.isInLocalTransaction (.xa .protocol)
  if flags &&& (tmSuspend ||| tmFail) ≠ 0 then do
    throwIf (!xidEquals c.associatedXid xid) (.xa .protocol)
    leave oracle
  else if flags &&& tmSuccess = tmSuccess then
    if xidEquals c.associatedXid xid then leave oracle else pure ()
  else throw (.xa .invalid)

/-- `try { afterRollback(); } catch (...) {}`, before what was caught is thrown as an `XAException`. -/
def rollbackQuietly {α : Type} (e : TransactionException) : Action κ σ α :=
  if e.isException || e.isCms then do
    tryCatch (afterRollback oracle) fun _ => pure ()
    throw (.xa .resourceManagerFailed)
  else throw e

/-- What is thrown for an `xid` that is `NULL` or still associated. -/
def throwIfAssociated : Option Xid → Action κ σ Xid
  | none => throw (.xa .protocol)
  | some xid => do
    throwIf (xidEquals (← get).associatedXid (some xid)) (.xa .protocol)
    pure xid

/-- The result says whether it is `XA_RDONLY`. -/
def prepare (xid : Option Xid) : Action κ σ Bool := do
  let xid ← throwIfAssociated xid
  tryCatch (do
    call oracle (.send .prepare xid.transactionId)
    let readOnly := oracle.readOnly (← get).calls
    if readOnly then afterCommit oracle
    pure readOnly) (rollbackQuietly oracle)

/-- Both arms of the conditional that picks the type of the command are the same. -/
def commitXA (xid : Option Xid) (onePhase : Bool) : Action κ σ Unit := do
  let xid ← throwIfAssociated xid
  tryCatch (do
    call oracle .checkConnection
    call oracle (.send (if onePhase then .commitOnePhase else .commitOnePhase) xid.transactionId)
    afterCommit oracle) (rollbackQuietly oracle)

/-- The id of the transaction, which the dynamic cast refuses if it is none of XA. -/
def xaTransactionId : Option Xid → Action κ σ (TransactionId κ)
  | none => throw (.xa .protocol)
  | some xid => fun c =>
    if xidEquals c.associatedXid (some xid) then
      match c.transactionId with
      | some (.xa formatId gtrid bqual) => .ok (.xa formatId gtrid bqual) c
      | _ => .error .decaf c
    else .ok xid.transactionId c

def rollbackXA (xid : Option Xid) : Action κ σ Unit := do
  let id ← xaTransactionId xid
  mapError toXAException do
    call oracle .checkConnection
    call oracle (.send .rollback id)
    afterRollback oracle

def forget (xid : Option Xid) : Action κ σ Unit := do
  let id ← xaTransactionId xid
  mapError toXAException (call oracle (.send .forget id))

end TransactionContext

end ActiveMQCpp.Core
