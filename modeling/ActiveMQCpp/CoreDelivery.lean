import ActiveMQCpp.CoreRedelivery

/-! `ActiveMQConsumerKernel`: how a message comes to the application, through a listener or a call of `receive`,
and what the session and the application then ask of the consumer. -/

namespace ActiveMQCpp.Core

open Codec List

variable {μ : Type}

/-! ### Channels -/

/-- The first message of the highest priority that has one. -/
def Channels.removeFirst : Channels μ → Option (MessageDispatch μ × Channels μ)
  | .fifo [] => none
  | .fifo (dispatch :: rest) => some (dispatch, .fifo rest)
  | .priority channels =>
    ((List.finRange 10).reverse.find? fun i => !(channels i).isEmpty).bind fun i =>
      match channels i with
      | [] => none
      | dispatch :: rest => some (dispatch, .priority (Function.update channels i rest))

def dequeueNoWait (c : MessageDispatchChannel μ) : Option (MessageDispatch μ × MessageDispatchChannel μ) :=
  if c.closed || !c.running then none
  else c.held.removeFirst.map fun (dispatch, held) => (dispatch, { c with held := held })

def Kernel.created (s : Kernel μ) : Kernel μ :=
  { s with
    deliveredMessages := []
    pendingAck := none
    deliveredCounter := 0
    additionalWindowSize := 0
    ackCounter := 0
    submitted := []
    sent := [] }

/-! ### Interruptions and commits -/

def inProgressClearRequired : Act μ Unit :=
  modify fun s =>
    { s with
      inProgressClearRequiredFlag := s.inProgressClearRequiredFlag + 1
      isClearDeliveredList := true }

def clearMessagesInProgress (setup : Setup) : Act μ Unit :=
  modify fun s =>
    if s.inProgressClearRequiredFlag > 0 then
      let (list, emptied) := removeAll s.unconsumedMessages
      { s with
        unconsumedMessages := emptied
        rolledBack := if setup.browser then s.rolledBack else s.rolledBack ++ list.map MessageDispatch.message
        inProgressClearRequiredFlag := s.inProgressClearRequiredFlag - 1 }
    else s

def commit : Act μ Unit :=
  modify fun s => { s with deliveredMessages := [], previouslyDeliveredMessages := none, redeliveryDelay := 0 }

/-! ### Messages that are not delivered -/

/-- The counter is the one that the broker has set. -/
def redeliveryExceeded (setup : Setup) (dispatch : MessageDispatch μ) (s : Kernel μ) : Bool :=
  isTransacted setup s && setup.maximumRedeliveries ≠ noMaximumRedeliveries &&
    dispatch.redeliveryCounter > setup.maximumRedeliveries && !dispatch.message.hasRedeliveryDelay

def posionAck (dispatch : MessageDispatch μ) (cause : String) : Act μ Unit :=
  sendAck { MessageAck.ofDispatch dispatch .poison 1 with
    firstMessageId := some dispatch.message.messageId
    poisonCause := some ⟨"javax.jms.JMSException", cause⟩ }

/-- What the connection says of a message: it is new, or it has been seen before, and then whether another
transaction waits for it. In that case it is rolled back in the audit and dispatched once more. -/
inductive Seen where
  | never
  | before
  | inCompetingTransaction (next : Seen)

section Delivery

variable [DecidableEq μ]
variable {s : Kernel μ}

def redeliveryExpectedInCurrentTransaction (setup : Setup) (dispatch : MessageDispatch μ) (markReceipt : Bool) :
    Act μ Bool := fun s =>
  match s.previouslyDeliveredMessages with
  | none => .ok false s
  | some entries =>
    if isTransacted setup s && entries.any fun e => e.1 = dispatch.message.messageId then
      let received := entries.map fun e => if e.1 = dispatch.message.messageId then (e.1, true) else e
      .ok true (if markReceipt then { s with previouslyDeliveredMessages := some received } else s)
    else .ok false s

/-- The message is expected once more in the transaction, or it is a duplicate that nobody waits for. -/
def suppressDuplicate (setup : Setup) (consumerId : String) (dispatch : MessageDispatch μ) (expected : Bool) :
    Act μ Unit :=
  if expected then
    if setup.transactedIndividualAck then immediateIndividualTransactedAck setup dispatch
    else sendAck (MessageAck.ofDispatch dispatch .delivered 1)
  else posionAck dispatch ("Suppressing duplicate delivery on connection, consumer " ++ consumerId)

def exceedsLimit (setup : Setup) (consumerId : String) (what : String) : String :=
  "dispatch to " ++ consumerId ++ what ++ toString setup.maximumRedeliveries

/-- A message that the connection has not seen before. It is handed to the listener, which is what the result
says, or waits in the channel. -/
def deliverNew (setup : Setup) (consumerId : String) (now : Int) (expired : Bool) (dispatch : MessageDispatch μ) :
    Act μ Bool := do
  let s ← get
  if setup.hasListener && s.unconsumedMessages.running then
    if redeliveryExceeded setup dispatch s then
      posionAck dispatch (exceedsLimit setup consumerId " exceeds redelivery policy limit:")
      pure false
    else
      beforeMessageIsConsumed setup dispatch
      if expired then
        afterMessageIsConsumed setup now dispatch true
        pure false
      else pure true
  else
    if !s.unconsumedMessages.running then rollbackDuplicate dispatch.message
    modify fun s => { s with unconsumedMessages := enqueue dispatch s.unconsumedMessages }
    pure false

/-- What `dispatch` does with a message that is new, or that the connection has seen before. -/
def dispatchAs (setup : Setup) (unseen seen : Act μ Bool) : Act μ Bool := do
  clearMessagesInProgress setup
  clearDeliveredList setup
  let s ← get
  if s.unconsumedMessages.closed then pure false
  else if setup.browser then unseen
  else seen

/-- `dispatch`, up to the call of the listener. -/
def dispatch (setup : Setup) (consumerId : String) (now : Int) (expired : Bool) (message : MessageDispatch μ) :
    Seen → Act μ Bool
  | .never =>
    dispatchAs setup (deliverNew setup consumerId now expired message)
      (deliverNew setup consumerId now expired message)
  | .before =>
    dispatchAs setup (deliverNew setup consumerId now expired message) do
      suppressDuplicate setup consumerId message (← redeliveryExpectedInCurrentTransaction setup message true)
      pure false
  | .inCompetingTransaction next =>
    dispatchAs setup (deliverNew setup consumerId now expired message) do
      if ← redeliveryExpectedInCurrentTransaction setup message true then
        suppressDuplicate setup consumerId message true
        pure false
      else
        rollbackDuplicate message.message
        dispatch setup consumerId now expired message next

/-- One turn of the loop of `dequeue`, with the message it got and, when it leaves the loop with the message, what
`receive` does before it returns it. -/
def receive (setup : Setup) (consumerId : String) (now : Int) (expired : Bool) (dispatch : MessageDispatch μ) :
    Act μ Bool := do
  let s ← get
  if expired && !setup.browser then
    beforeMessageIsConsumed setup dispatch
    afterMessageIsConsumed setup now dispatch true
    clearDeliveredList setup
    pure false
  else if redeliveryExceeded setup dispatch s then
    posionAck dispatch (exceedsLimit setup consumerId " exceeds RedeliveryPolicy limit: ")
    clearDeliveredList setup
    pure false
  else
    beforeMessageIsConsumed setup dispatch
    afterMessageIsConsumed setup now dispatch false
    pure true

def setRollbackCause (dispatch : MessageDispatch μ) (cause : String) (s : Kernel μ) : Kernel μ :=
  { s with
    deliveredMessages := s.deliveredMessages.map fun d =>
      if d.ref = dispatch.ref then { d with rollbackCause := cause } else d }

/-- The listener has thrown a `RuntimeException`. -/
def listenerThrew (setup : Setup) (now : Int) (dispatch : MessageDispatch μ) (cause : String) : Act μ Unit := do
  modify (setRollbackCause dispatch cause)
  if setup.isAutoAcknowledgeBatch || setup.isAutoAcknowledgeEach || setup.ackMode = .individual then rollback setup
  else afterMessageIsConsumed setup now dispatch false

/-! ### Calls -/

/-- What is asked of a consumer. The last two are what happens outside of it: the session begins or ends a
transaction and the network fails or is back, and the channel is stopped or closed. -/
inductive Call (μ : Type) where
  | beforeMessageIsConsumed (dispatch : MessageDispatch μ)
  | afterMessageIsConsumed (now : Int) (dispatch : MessageDispatch μ) (messageExpired : Bool)
  | ackLater (dispatch : MessageDispatch μ) (ackType : AckType)
  | deliverAcks
  | runAckTask
  | acknowledge
  | acknowledgeDispatch (dispatch : MessageDispatch μ)
  | commit
  | rollback
  | listenerThrew (now : Int) (dispatch : MessageDispatch μ) (cause : String)
  | inProgressClearRequired
  | clearMessagesInProgress
  | clearDeliveredList
  | setOptimizeAcknowledge (value : Bool)
  | posionAck (dispatch : MessageDispatch μ) (cause : String)
  | runTask (index : Nat)
  | session (transactionId : Option Int) (inXATransaction : Bool) (failAt : Option Nat)
  | channel (running closed : Bool)

/-- `StartConsumerTask::run` and `NonBlockingRedeliveryTask::run`. -/
def runTask (index : Nat) : Act μ Unit := do
  let s ← get
  match s.scheduled[index]? with
  | none => pure ()
  | some (task, _) =>
    modify fun s => { s with scheduled := s.scheduled.eraseIdx index }
    match task with
    | .startConsumer => start
    | .nonBlockingRedelivery redeliveries => runRedeliveryTask redeliveries

def perform (setup : Setup) : Call μ → Act μ Unit
  | .beforeMessageIsConsumed dispatch => beforeMessageIsConsumed setup dispatch
  | .afterMessageIsConsumed now dispatch messageExpired => afterMessageIsConsumed setup now dispatch messageExpired
  | .ackLater dispatch ackType => ackLater setup dispatch ackType
  | .deliverAcks => deliverAcks setup
  | .runAckTask => runAckTask
  | .acknowledge => acknowledge setup
  | .acknowledgeDispatch dispatch => acknowledgeDispatch dispatch .individual
  | .commit => commit
  | .rollback => rollback setup
  | .listenerThrew now dispatch cause => listenerThrew setup now dispatch cause
  | .inProgressClearRequired => inProgressClearRequired
  | .clearMessagesInProgress => clearMessagesInProgress setup
  | .clearDeliveredList => clearDeliveredList setup
  | .setOptimizeAcknowledge value => setOptimizeAcknowledge setup value
  | .posionAck dispatch cause => posionAck dispatch cause
  | .runTask index => runTask index
  | .session transactionId inXATransaction failAt =>
    modify fun s => { s with transactionId := transactionId, inXATransaction := inXATransaction, failAt := failAt }
  | .channel running closed =>
    modify fun s => { s with unconsumedMessages := { s.unconsumedMessages with running := running, closed := closed } }

/-- The state that a call of `rollback` finds, if the call leads to one. -/
def rollbackFrom (setup : Setup) (s : Kernel μ) : Call μ → Option (Kernel μ)
  | .rollback => some s
  | .listenerThrew _ dispatch cause =>
    if setup.isAutoAcknowledgeBatch || setup.isAutoAcknowledgeEach || setup.ackMode = .individual then
      some (setRollbackCause dispatch cause s)
    else none
  | _ => none

theorem perform_eq_rollback (setup : Setup) {r : Kernel μ} {call : Call μ}
    (hsome : rollbackFrom setup s call = some r) :
    perform setup call s = rollback setup r ∧ (r = s ∨ ∃ d cause, r = setRollbackCause d cause s) := by
  cases call with
  | rollback =>
    cases hsome
    exact ⟨rfl, .inl rfl⟩
  | listenerThrew now d cause =>
    rw [perform, listenerThrew, bind_ok (modify_run _ s)]
    rw [rollbackFrom] at hsome
    split_ifs at hsome ⊢
    cases hsome
    exact ⟨rfl, .inr ⟨d, cause, rfl⟩⟩
  | _ => cases hsome

/-! ### The messages that a rollback takes back -/

/-- Of the messages read but not acknowledged yet the older half goes, as many of them as have been counted. -/
def unacknowledged (ackCounter : Int) (delivered : List (MessageDispatch μ)) : List (MessageDispatch μ) :=
  delivered.take (delivered.length - min ((delivered.length + 1) / 2) ackCounter.toNat)

def notReplayed (entries : List (μ × Bool)) (delivered : List (MessageDispatch μ)) : List (MessageDispatch μ) :=
  entries.foldl (fun l e => if e.2 then l else l.eraseP fun d => d.message.messageId = e.1) delivered

/-- The delivered messages that are left when `rollback` decides what to do with them. -/
def Kernel.takenBack (setup : Setup) (s : Kernel μ) : List (MessageDispatch μ) :=
  let interrupted := s.isClearDeliveredList && !s.deliveredMessages.isEmpty
  let delivered := if interrupted && !isTransacted setup s then [] else s.deliveredMessages
  let read := if s.optimizeAcknowledge && !setup.browser then unacknowledged s.ackCounter delivered else delivered
  let before := s.previouslyDeliveredMessages.getD []
  let entries :=
    if interrupted && isTransacted setup s then
      notRedelivered before (s.deliveredMessages.map fun d => d.message.messageId)
    else before
  notReplayed entries read

theorem length_taken {length acks i : Nat} (hlength : i < length) (hacks : i < acks) :
    min (length - 1 - min ((length - 1 - (i + 1) + 1) / 2) (acks - (i + 1))) (length - 1) =
      length - min ((length - i + 1) / 2) (acks - i) := by
  have hhalf : (length - i + 1) / 2 = (length - 1 - (i + 1) + 1) / 2 + 1 := by omega
  have hrest : acks - i = acks - (i + 1) + 1 := by omega
  rw [hhalf, hrest, Nat.add_min_add_right, Nat.min_eq_left (Nat.sub_le _ _), Nat.sub_sub, Nat.add_comm 1]

omit [DecidableEq μ] in
theorem rollbackUnacknowledged_delivered (fuel i : Nat) (s : Kernel μ) (hfuel : s.deliveredMessages.length ≤ fuel + i) :
    (stateOf (rollbackUnacknowledged fuel i s)).deliveredMessages = s.deliveredMessages.take
      (s.deliveredMessages.length - min ((s.deliveredMessages.length - i + 1) / 2) (s.ackCounter.toNat - i)) := by
  induction fuel generalizing i s with
  | zero =>
    have hzero : (s.deliveredMessages.length - i + 1) / 2 = 0 := by omega
    rw [hzero, Nat.zero_min, Nat.sub_zero, take_length]
    rfl
  | succ fuel ih =>
    rw [rollbackUnacknowledged, bind_ok (get_run s)]
    split_ifs with hmore
    · simp only [Bool.and_eq_true, decide_eq_true_eq] at hmore
      cases hlast : s.deliveredMessages.getLast? with
      | none =>
        rw [List.getLast?_eq_none_iff.mp hlast, take_nil]
        exact List.getLast?_eq_none_iff.mp hlast
      | some md =>
        have hrest := ih (i + 1) { s with
          deliveredMessages := s.deliveredMessages.dropLast
          rolledBack := s.rolledBack ++ [md.message] } (by
            simp only [length_dropLast]
            omega)
        refine Eq.trans hrest ?_
        simp only [dropLast_eq_take, take_take, length_take, Nat.min_eq_left (Nat.sub_le _ 1)]
        exact congrArg (List.take · s.deliveredMessages) (length_taken hmore.1 (Int.lt_toNat.mpr hmore.2))
    · have hzero : min ((s.deliveredMessages.length - i + 1) / 2) (s.ackCounter.toNat - i) = 0 := by
        simp only [Bool.and_eq_true, decide_eq_true_eq, not_and] at hmore
        omega
      rw [hzero, Nat.sub_zero, take_length]
      rfl

omit [DecidableEq μ] in
theorem rollbackUnacknowledged_previously (fuel i : Nat) :
    Frames (fun s : Kernel μ => s.previouslyDeliveredMessages) (rollbackUnacknowledged fuel i) := by
  induction fuel generalizing i with
  | zero => exact frames_pure _
  | succ fuel ih =>
    rw [rollbackUnacknowledged]
    refine frames_get.bind fun s => ?_
    split_ifs
    · cases s.deliveredMessages.getLast? with
      | none => exact frames_pure _
      | some md =>
        refine Frames.bind (fun _ => rfl) fun _ => ?_
        exact Frames.bind (fun _ => rfl) fun _ => ih (i + 1)
    · exact frames_pure _

theorem removeFromDeliveredMessages_delivered (key : μ) (s : Kernel μ) :
    (stateOf (removeFromDeliveredMessages key s)).deliveredMessages =
      s.deliveredMessages.eraseP fun d => d.message.messageId = key := by
  rw [removeFromDeliveredMessages, bind_ok (get_run s)]
  cases hfind : s.deliveredMessages.find? fun d => d.message.messageId = key with
  | none =>
    rw [eraseP_of_forall_not fun d hd => List.find?_eq_none.mp hfind d hd]
    rfl
  | some candidate => rfl

theorem rollbackNotRedelivered_delivered (entries : List (μ × Bool)) (s : Kernel μ) :
    (stateOf (rollbackNotRedelivered entries s)).deliveredMessages = notReplayed entries s.deliveredMessages := by
  induction entries generalizing s with
  | nil => rfl
  | cons entry entries ih =>
    obtain ⟨key, redelivered⟩ := entry
    cases redelivered with
    | true => exact ih s
    | false =>
      obtain ⟨s₁, hrun, -⟩ := removeFromDeliveredMessages_drops key s
      have hfirst := removeFromDeliveredMessages_delivered key s
      rw [hrun] at hfirst
      have hsecond := ih s₁
      rw [show s₁.deliveredMessages = _ from hfirst] at hsecond
      rw [rollbackNotRedelivered]
      simp only [Bool.not_false, if_true]
      rw [bind_ok hrun]
      exact hsecond

/-- What the beginning of a rollback leaves alone. -/
structure SameBut (s p : Kernel μ) : Prop where
  unconsumedMessages : p.unconsumedMessages = s.unconsumedMessages
  deliveredCounter : p.deliveredCounter = s.deliveredCounter
  additionalWindowSize : p.additionalWindowSize = s.additionalWindowSize
  ackCounter : p.ackCounter = s.ackCounter
  pendingAck : p.pendingAck = s.pendingAck ∨ p.pendingAck = none
  submitted : p.submitted = s.submitted
  sent : p.sent = s.sent
  scheduled : p.scheduled = s.scheduled
  dispatched : p.dispatched = s.dispatched
  sessionMessages : p.sessionMessages = s.sessionMessages
  failAt : p.failAt = s.failAt

omit [DecidableEq μ] in
theorem SameBut.refl (s : Kernel μ) : SameBut s s := ⟨rfl, rfl, rfl, rfl, .inl rfl, rfl, rfl, rfl, rfl, rfl, rfl⟩

omit [DecidableEq μ] in
theorem SameBut.drops {p p' : Kernel μ} (h : SameBut s p) (hdrops : Drops p p') : SameBut s p' := by
  obtain ⟨kept, removed, previously, -, -, rfl⟩ := hdrops
  exact ⟨h.1, h.2, h.3, h.4, h.5, h.6, h.7, h.8, h.9, h.10, h.11⟩

theorem clearDeliveredList_same (setup : Setup) (s : Kernel μ) :
    ∃ s₁, clearDeliveredList setup s = .ok () s₁ ∧ SameBut s s₁ ∧ s₁.optimizeAcknowledge = s.optimizeAcknowledge ∧
      s₁.deliveredMessages = (if s.isClearDeliveredList && !s.deliveredMessages.isEmpty && !isTransacted setup s
        then [] else s.deliveredMessages) ∧
      s₁.previouslyDeliveredMessages.getD [] =
        (if s.isClearDeliveredList && !s.deliveredMessages.isEmpty && isTransacted setup s
          then notRedelivered (s.previouslyDeliveredMessages.getD [])
            (s.deliveredMessages.map fun d => d.message.messageId)
          else s.previouslyDeliveredMessages.getD []) := by
  refine ⟨_, modify_run _ s, ?_⟩
  cases hclear : s.isClearDeliveredList with
  | false => exact ⟨.refl s, rfl, rfl, rfl⟩
  | true =>
    cases hempty : s.deliveredMessages.isEmpty with
    | true => exact ⟨⟨rfl, rfl, rfl, rfl, .inl rfl, rfl, rfl, rfl, rfl, rfl, rfl⟩, rfl, rfl, rfl⟩
    | false =>
      cases htransacted : isTransacted setup s with
      | true => exact ⟨⟨rfl, rfl, rfl, rfl, .inl rfl, rfl, rfl, rfl, rfl, rfl, rfl⟩, rfl, rfl, rfl⟩
      | false => exact ⟨⟨rfl, rfl, rfl, rfl, .inr rfl, rfl, rfl, rfl, rfl, rfl, rfl⟩, rfl, rfl, rfl⟩

theorem rollbackPreviously_delivered (s : Kernel μ) :
    (stateOf (rollbackPreviouslyDeliveredAndNotRedelivered s)).deliveredMessages =
      notReplayed (s.previouslyDeliveredMessages.getD []) s.deliveredMessages := by
  rw [rollbackPreviouslyDeliveredAndNotRedelivered, bind_ok (get_run s)]
  cases s.previouslyDeliveredMessages with
  | none => rfl
  | some entries =>
    obtain ⟨s', hrun, -⟩ := rollbackNotRedelivered_drops entries s
    have hdelivered := rollbackNotRedelivered_delivered entries s
    rw [hrun] at hdelivered
    simp only [bind_ok hrun, modify_run, stateOf, Option.getD_some]
    exact hdelivered

theorem prepareRollback_takenBack (setup : Setup) (s : Kernel μ) :
    ∃ p, prepareRollback setup s = .ok () p ∧ SameBut s p ∧ p.deliveredMessages = s.takenBack setup := by
  obtain ⟨s₁, hclear, hsame, hoptimize, hdelivered, hpreviously⟩ := clearDeliveredList_same setup s
  rw [prepareRollback, bind_ok hclear, bind_ok (get_run s₁), Kernel.takenBack]
  simp only [← hdelivered, ← hpreviously, ← hoptimize, ← hsame.ackCounter]
  split_ifs
  · obtain ⟨s₂, hrun₂, hdrops₂⟩ := rollbackUnacknowledged_drops s₁.deliveredMessages.length 0 s₁
    obtain ⟨p, hrun, hdrops⟩ := rollbackPreviouslyDeliveredAndNotRedelivered_drops s₂
    refine ⟨p, (bind_ok hrun₂).trans hrun, (hsame.drops hdrops₂).drops hdrops, ?_⟩
    have hread := rollbackUnacknowledged_delivered s₁.deliveredMessages.length 0 s₁ (Nat.le_add_right _ _)
    have hleft := rollbackPreviously_delivered s₂
    have hsame₂ := rollbackUnacknowledged_previously s₁.deliveredMessages.length 0 s₁
    rw [hrun₂] at hread hsame₂
    rw [hrun, show s₂.deliveredMessages = _ from hread, show s₂.previouslyDeliveredMessages = _ from hsame₂] at hleft
    exact hleft
  · obtain ⟨p, hrun, hdrops⟩ := rollbackPreviouslyDeliveredAndNotRedelivered_drops s₁
    refine ⟨p, hrun, hsame.drops hdrops, ?_⟩
    have hleft := rollbackPreviously_delivered s₁
    rw [hrun] at hleft
    exact hleft

end Delivery

/-! ### What a rollback does with them -/

def Task.messages : Task μ → List (MessageDispatch μ)
  | .startConsumer => []
  | .nonBlockingRedelivery redeliveries => redeliveries

/-- The messages that the consumer, or the session for it, has still to deliver. -/
def Kernel.waiting (s : Kernel μ) : List (MessageDispatch μ) :=
  s.unconsumedMessages.held.messages ++ (s.sessionMessages.held.messages ++
    (s.dispatched ++ s.scheduled.flatMap fun t => t.1.messages))

/-- A rollback forgets the delivered messages, unless it fails to send its acknowledgement, or the channel is
closed and the messages would go to a task. -/
def Kernel.forgets (setup : Setup) (s : Kernel μ) (newest : MessageDispatch μ) : Bool :=
  if isPoison setup newest then s.failAt ≠ some s.sent.length
  else
    (newest.message.redeliveryCounter ≤ 0 || s.failAt ≠ some s.sent.length) &&
      !(setup.nonBlockingRedelivery && s.unconsumedMessages.closed)

/-- What a rollback has sent, if it has sent anything. -/
inductive Sends (newest : MessageDispatch μ) (ackType : AckType) (p s' : Kernel μ) : Prop where
  | nothing (hsent : s'.sent = p.sent)
  | one (ack : MessageAck μ) (htype : ack.ackType = ackType) (hcount : ack.messageCount = p.deliveredMessages.length)
      (hsent : s'.sent = p.sent ++ [ack])

/-- The fields that a rollback does not touch once it has begun. -/
structure Resumes (p s' : Kernel μ) : Prop where
  ackCounter : s'.ackCounter = p.ackCounter
  pendingAck : s'.pendingAck = p.pendingAck
  submitted : s'.submitted = p.submitted

/-- The delivered messages are kept, given up as poison, or redelivered, all of them alike. -/
inductive Verdict (setup : Setup) (p s' : Kernel μ) : Prop where
  | nothing (hempty : p.deliveredMessages = []) (hsame : s' = p)
  | kept (newest : MessageDispatch μ) (hnewest : p.deliveredMessages.head? = some newest)
      (hforgets : p.forgets setup newest = false)
      (hdelivered : s'.deliveredMessages = p.deliveredMessages.map MessageDispatch.redelivered)
      (hwaiting : s'.waiting.Perm p.waiting) (hcounter : s'.deliveredCounter = p.deliveredCounter)
      (hwindow : s'.additionalWindowSize = p.additionalWindowSize) (hsends : Sends newest .redelivered p s')
  | poisoned (newest : MessageDispatch μ) (hnewest : p.deliveredMessages.head? = some newest)
      (hforgets : p.forgets setup newest = true) (hpoison : isPoison setup newest = true)
      (hdelivered : s'.deliveredMessages = []) (hwaiting : s'.waiting.Perm p.waiting)
      (hcounter : s'.deliveredCounter = p.deliveredCounter - p.deliveredMessages.length)
      (hwindow : s'.additionalWindowSize = max 0 (p.additionalWindowSize - p.deliveredMessages.length))
      (hsends : Sends newest .poison p s')
  | moved (newest : MessageDispatch μ) (hnewest : p.deliveredMessages.head? = some newest)
      (hforgets : p.forgets setup newest = true) (hpoison : isPoison setup newest = false)
      (hdelivered : s'.deliveredMessages = [])
      (hwaiting : s'.waiting.Perm (p.deliveredMessages.map MessageDispatch.redelivered ++ p.waiting))
      (hcounter : s'.deliveredCounter = p.deliveredCounter - p.deliveredMessages.length)
      (hwindow : s'.additionalWindowSize = p.additionalWindowSize) (hsends : Sends newest .redelivered p s')

/-- The delivered messages wait again. -/
structure Requeued (s s' : Kernel μ) : Prop extends Resumes s s' where
  deliveredMessages : s'.deliveredMessages = []
  waiting : s'.waiting.Perm (s.deliveredMessages ++ s.waiting)
  deliveredCounter : s'.deliveredCounter = s.deliveredCounter - s.deliveredMessages.length
  additionalWindowSize : s'.additionalWindowSize = s.additionalWindowSize
  sent : s'.sent = s.sent

theorem clear_messages (c : Channels μ) : c.clear.messages = [] := by
  cases c with
  | fifo channel => rfl
  | priority channels => exact flatMap_eq_nil_iff.mpr fun _ _ => rfl

/-- The end of a rollback, at which nothing but the place of the waiting messages changes. -/
structure Redispatched (s s' : Kernel μ) : Prop extends Resumes s s' where
  deliveredMessages : s'.deliveredMessages = s.deliveredMessages
  waiting : s'.waiting.Perm s.waiting
  deliveredCounter : s'.deliveredCounter = s.deliveredCounter
  additionalWindowSize : s'.additionalWindowSize = s.additionalWindowSize
  sent : s'.sent = s.sent

theorem redispatch_waiting (setup : Setup) (s : Kernel μ) :
    ∃ s', (if setup.hasListener then redispatch else pure ()) s = .ok () s' ∧ Redispatched s s' := by
  split_ifs
  · refine ⟨_, modify_run _ s, ⟨rfl, rfl, rfl⟩, rfl, ?_, rfl, rfl, rfl⟩
    simp only [Kernel.waiting, removeAll, foldl_enqueueFirst, reverse_reverse, clear_messages, nil_append]
    rw [← append_assoc s.unconsumedMessages.held.messages]
    exact (putBack_messages _ _).append_right _
  · exact ⟨s, rfl, ⟨rfl, rfl, rfl⟩, rfl, .refl _, rfl, rfl, rfl⟩

theorem redeliverNow_requeued (s : Kernel μ) : ∃ s', redeliverNow s = .ok () s' ∧ Requeued s s' := by
  have hheld := congrArg MessageDispatchChannel.held (foldl_enqueueFirst s.deliveredMessages s.unconsumedMessages.stop)
  have hback : ((s.deliveredMessages.foldl (fun c d => enqueueFirst d c) s.unconsumedMessages.stop).held.messages).Perm
      (s.deliveredMessages ++ s.unconsumedMessages.held.messages) := by
    rw [hheld]
    exact (putBack_messages _ _).trans ((reverse_perm _).append_right _)
  rw [redeliverNow, bind_ok (modify_run _ s), bind_ok (get_run _)]
  split_ifs
  · refine ⟨_, modify_run _ _, ⟨rfl, rfl, rfl⟩, rfl, ?_, rfl, rfl, rfl⟩
    simp only [Kernel.waiting, flatMap_append, flatMap_singleton, Task.messages, append_nil]
    rw [← append_assoc s.deliveredMessages]
    exact hback.append_right _
  · refine ⟨_, modify_run _ _, ?_⟩
    split_ifs
    · refine ⟨⟨rfl, rfl, rfl⟩, rfl, ?_, rfl, rfl, rfl⟩
      rw [Kernel.waiting, Kernel.waiting, ← append_assoc s.deliveredMessages]
      exact hback.append_right _
    · refine ⟨⟨rfl, rfl, rfl⟩, rfl, ?_, rfl, rfl, rfl⟩
      simp only [Kernel.waiting, start_held]
      rw [← append_assoc s.deliveredMessages]
      exact hback.append_right _

theorem redeliverLater_requeued (s : Kernel μ) (hopen : s.unconsumedMessages.closed = false) :
    ∃ s', redeliverLater s = .ok () s' ∧ Requeued s s' := by
  refine ⟨_, modify_run _ s, ?_⟩
  rw [if_neg (by rw [hopen]; exact Bool.false_ne_true)]
  refine ⟨⟨rfl, rfl, rfl⟩, rfl, ?_, rfl, rfl, rfl⟩
  simp only [Kernel.waiting, flatMap_append, flatMap_singleton, Task.messages, ← append_assoc]
  refine perm_append_comm.trans ?_
  simp only [← append_assoc]
  exact ((((reverse_perm _).append_right _).append_right _).append_right _).append_right _

theorem moveDelivered_requeued (setup : Setup) (s : Kernel μ) : ∃ s', moveDelivered setup s = .ok () s' ∧
      if setup.nonBlockingRedelivery && s.unconsumedMessages.closed then s' = s else Requeued s s' := by
  rw [moveDelivered]
  cases hblocking : setup.nonBlockingRedelivery with
  | false => exact redeliverNow_requeued s
  | true =>
    cases hclosed : s.unconsumedMessages.closed with
    | false => exact redeliverLater_requeued s hclosed
    | true =>
      refine ⟨s, ?_, rfl⟩
      simp only [if_true, redeliverLater, modify_run, hclosed]

theorem sendAck_cases (ack : MessageAck μ) (s : Kernel μ) :
    s.failAt = some s.sent.length ∧ sendAck ack s = .error .sendFailed s ∨
      s.failAt ≠ some s.sent.length ∧ sendAck ack s = .ok () { s with sent := s.sent ++ [ack] } := by
  by_cases hfails : s.failAt = some s.sent.length
  · exact .inl ⟨hfails, if_pos hfails⟩
  · exact .inr ⟨hfails, if_neg hfails⟩

/-- The redelivery counters of the delivered messages have been raised. -/
structure Raised (p s : Kernel μ) : Prop extends Resumes p s where
  deliveredMessages : s.deliveredMessages = p.deliveredMessages.map MessageDispatch.redelivered
  unconsumedMessages : s.unconsumedMessages = p.unconsumedMessages
  waiting : s.waiting = p.waiting
  deliveredCounter : s.deliveredCounter = p.deliveredCounter
  additionalWindowSize : s.additionalWindowSize = p.additionalWindowSize
  failAt : s.failAt = p.failAt

theorem Raised.length {p s : Kernel μ} (h : Raised p s) :
    (s.deliveredMessages.length : Int) = p.deliveredMessages.length := by
  rw [h.deliveredMessages, length_map]

theorem countRedelivery_raised (setup : Setup) (newest : MessageDispatch μ) (p : Kernel μ) :
    ∃ s, countRedelivery setup newest p = .ok () s ∧ Raised p s ∧ s.sent = p.sent :=
  ⟨_, modify_run _ p, ⟨⟨rfl, rfl, rfl⟩, rfl, rfl, rfl, rfl, rfl, rfl⟩, rfl⟩

section Verdict

variable {setup : Setup} {p s s' : Kernel μ} {newest : MessageDispatch μ}

theorem Raised.resumes (h : Raised p s) (h' : Resumes s s') : Resumes p s' :=
  ⟨h'.ackCounter.trans h.ackCounter, h'.pendingAck.trans h.pendingAck, h'.submitted.trans h.submitted⟩

theorem Raised.kept (h : Raised p s) (hnewest : p.deliveredMessages.head? = some newest)
    (hforgets : p.forgets setup newest = false) (hsends : Sends newest .redelivered p s')
    (hend : Redispatched s s') : Verdict setup p s' :=
  .kept newest hnewest hforgets (hend.deliveredMessages.trans h.deliveredMessages)
    (hend.waiting.trans (.of_eq h.waiting)) (hend.deliveredCounter.trans h.deliveredCounter)
    (hend.additionalWindowSize.trans h.additionalWindowSize) hsends

theorem sendPoisonAck_verdict (h : Raised p s) (hsame : s.sent = p.sent)
    (hnewest : p.deliveredMessages.head? = some newest) (hpoison : isPoison setup newest = true) :
    let run := (sendPoisonAck setup newest >>= fun _ => if setup.hasListener then redispatch else pure ()) s
    Verdict setup p (stateOf run) ∧ Resumes p (stateOf run) := by
  have hforgets : p.forgets setup newest = decide (s.failAt ≠ some s.sent.length) := by
    rw [Kernel.forgets, if_pos hpoison, h.failAt, hsame]
  simp only
  rw [sendPoisonAck, bind_assoc, bind_ok (get_run s), bind_assoc]
  generalize hack : { ackForAll newest .poison s with
    poisonCause := some ⟨"javax.jms.JMSException", poisonMessage setup newest⟩ } = ack
  have htype : ack.ackType = .poison := by rw [← hack]; rfl
  have hcount : ack.messageCount = s.deliveredMessages.length := by rw [← hack]; rfl
  rcases sendAck_cases ack s with ⟨hfails, hrun⟩ | ⟨hsends, hrun⟩
  · rw [bind_error hrun]
    refine ⟨h.kept hnewest ?_ (.nothing hsame) ⟨⟨rfl, rfl, rfl⟩, rfl, .refl _, rfl, rfl, rfl⟩, h.toResumes⟩
    rw [hforgets]
    simp [hfails]
  · rw [bind_ok hrun, bind_ok (modify_run _ _)]
    obtain ⟨s', hrun', hend⟩ := redispatch_waiting setup { s with
      sent := s.sent ++ [ack]
      additionalWindowSize := max 0 (s.additionalWindowSize - s.deliveredMessages.length)
      redeliveryDelay := 0
      deliveredCounter := s.deliveredCounter - s.deliveredMessages.length
      deliveredMessages := [] }
    simp only [hrun', stateOf]
    refine ⟨.poisoned newest hnewest ?_ hpoison hend.deliveredMessages (hend.waiting.trans (.of_eq h.waiting)) ?_ ?_
      (.one ack htype (hcount.trans h.length) ?_), h.resumes ⟨hend.ackCounter, hend.pendingAck, hend.submitted⟩⟩
    · rw [hforgets]
      simp [hsends]
    · rw [hend.deliveredCounter, h.deliveredCounter, h.length]
    · rw [hend.additionalWindowSize, h.additionalWindowSize, h.length]
    · rw [hend.sent, hsame]

theorem moveDelivered_verdict (h : Raised p s) (hnewest : p.deliveredMessages.head? = some newest)
    (hpoison : isPoison setup newest = false) (hsends : Sends newest .redelivered p s)
    (hforgets : p.forgets setup newest = !(setup.nonBlockingRedelivery && p.unconsumedMessages.closed)) :
    let run := (moveDelivered setup >>= fun _ => if setup.hasListener then redispatch else pure ()) s
    Verdict setup p (stateOf run) ∧ Resumes p (stateOf run) := by
  obtain ⟨s₁, hmove, hmoved⟩ := moveDelivered_requeued setup s
  obtain ⟨s₂, hrun, hend⟩ := redispatch_waiting setup s₁
  have hsends' : s₁.sent = s.sent → Sends newest .redelivered p s₂ := by
    intro hsent
    cases hsends with
    | nothing hsame => exact .nothing (hend.sent.trans (hsent.trans hsame))
    | one ack htype hcount hsame => exact .one ack htype hcount (hend.sent.trans (hsent.trans hsame))
  simp only [bind_ok hmove, hrun, stateOf]
  rw [h.unconsumedMessages] at hmoved
  split_ifs at hmoved with hcloses
  · subst hmoved
    rw [hcloses] at hforgets
    exact ⟨h.kept hnewest hforgets (hsends' rfl) hend, h.resumes hend.toResumes⟩
  · rw [Bool.eq_false_iff.mpr hcloses] at hforgets
    refine ⟨.moved newest hnewest hforgets hpoison (hend.deliveredMessages.trans hmoved.deliveredMessages) ?_ ?_ ?_
      (hsends' hmoved.sent), h.resumes ⟨?_, ?_, ?_⟩⟩
    · rw [← h.deliveredMessages, ← h.waiting]
      exact hend.waiting.trans hmoved.waiting
    · rw [hend.deliveredCounter, hmoved.deliveredCounter, h.deliveredCounter, h.length]
    · rw [hend.additionalWindowSize, hmoved.additionalWindowSize, h.additionalWindowSize]
    · exact hend.ackCounter.trans hmoved.ackCounter
    · exact hend.pendingAck.trans hmoved.pendingAck
    · exact hend.submitted.trans hmoved.submitted

theorem sendRedeliveredAck_verdict (h : Raised p s) (hsame : s.sent = p.sent)
    (hnewest : p.deliveredMessages.head? = some newest) (hpoison : isPoison setup newest = false) :
    let run := (sendRedeliveredAck newest >>= fun _ => moveDelivered setup >>= fun _ =>
      if setup.hasListener then redispatch else pure ()) s
    Verdict setup p (stateOf run) ∧ Resumes p (stateOf run) := by
  have hforgets : p.forgets setup newest =
      ((decide (newest.message.redeliveryCounter ≤ 0) || decide (s.failAt ≠ some s.sent.length)) &&
        !(setup.nonBlockingRedelivery && p.unconsumedMessages.closed)) := by
    rw [Kernel.forgets, if_neg (by rw [hpoison]; exact Bool.false_ne_true), h.failAt, hsame]
  simp only
  rw [sendRedeliveredAck, bind_assoc, bind_ok (get_run s)]
  by_cases hcounter : newest.message.redeliveryCounter > 0
  · rw [if_pos hcounter]
    rcases sendAck_cases (ackForAll newest .redelivered s) s with ⟨hfails, hrun⟩ | ⟨hsends, hrun⟩
    · rw [bind_error hrun]
      refine ⟨h.kept hnewest ?_ (.nothing hsame) ⟨⟨rfl, rfl, rfl⟩, rfl, .refl _, rfl, rfl, rfl⟩, h.toResumes⟩
      rw [hforgets]
      simp [hfails, hcounter]
    · rw [bind_ok hrun]
      refine moveDelivered_verdict (s := { s with sent := s.sent ++ [ackForAll newest .redelivered s] })
        ⟨⟨h.ackCounter, h.pendingAck, h.submitted⟩, h.2, h.3, h.4, h.5, h.6, h.7⟩ hnewest hpoison
        (.one (ackForAll newest .redelivered s) rfl h.length ?_) ?_
      · rw [hsame]
      · rw [hforgets]
        simp [hsends]
  · rw [if_neg hcounter, bind_ok (pure_run () s)]
    refine moveDelivered_verdict h hnewest hpoison (.nothing hsame) ?_
    rw [hforgets]
    simp [not_lt.mp hcounter]

/-- One verdict for all delivered messages, which the counter of the newest of them decides. -/
theorem redeliver_verdict (setup : Setup) (p : Kernel μ) :
    Verdict setup p (stateOf (redeliver setup p)) ∧ Resumes p (stateOf (redeliver setup p)) := by
  rw [redeliver, bind_ok (get_run p)]
  cases hdelivered : p.deliveredMessages with
  | nil => exact ⟨.nothing hdelivered rfl, rfl, rfl, rfl⟩
  | cons newest older =>
    have hnewest : p.deliveredMessages.head? = some newest := by rw [hdelivered]; rfl
    obtain ⟨s, hcount, hraised, hsame⟩ := countRedelivery_raised setup newest p
    simp only [bind_ok hcount]
    cases hpoison : isPoison setup newest with
    | true => exact sendPoisonAck_verdict hraised hsame hnewest hpoison
    | false => exact sendRedeliveredAck_verdict hraised hsame hnewest hpoison

end Verdict

end ActiveMQCpp.Core
