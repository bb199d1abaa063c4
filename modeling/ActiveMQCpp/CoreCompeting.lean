import ActiveMQCpp.CoreDelivery

/-! Duplicates that the transaction of another consumer waits for: the search through the consumers of the connection,
and what `dispatch` does with its answer. -/

namespace ActiveMQCpp.Core

open Codec

variable {μ : Type} [DecidableEq μ]

structure Consumer (μ : Type) where
  setup : Setup
  kernel : Kernel μ

structure Session (μ : Type) where
  consumers : List (Consumer μ)

/-- `isRedeliveryExpectedInCurrentTransaction`: the receipt is not marked. -/
def Consumer.isRedeliveryExpected (dispatch : MessageDispatch μ) (consumer : Consumer μ) : Bool :=
  match redeliveryExpectedInCurrentTransaction consumer.setup dispatch false consumer.kernel with
  | .ok expected _ => expected
  | .error _ _ => false

/-- The loop over the consumers of a session, which returns from the function in its first round. -/
def searchConsumers (dispatch : MessageDispatch μ) : List (Consumer μ) → Option Bool
  | [] => none
  | consumer :: _ => some (consumer.isRedeliveryExpected dispatch)

def redeliveryPendingInCompetingTransaction (dispatch : MessageDispatch μ) : List (Session μ) → Bool
  | [] => false
  | session :: sessions =>
    match searchConsumers dispatch session.consumers with
    | some answer => answer
    | none => redeliveryPendingInCompetingTransaction dispatch sessions

/-! ### The branch for duplicates -/

inductive DuplicateHandling where
  | acknowledged
  | dispatchedAgain
  | poisoned
  deriving DecidableEq

def handleDuplicate (own : Consumer μ) (sessions : List (Session μ)) (dispatch : MessageDispatch μ) : DuplicateHandling :=
  if own.isRedeliveryExpected dispatch then .acknowledged
  else if redeliveryPendingInCompetingTransaction dispatch sessions then .dispatchedAgain
  else .poisoned

/-- What the connection says of a duplicate. -/
def seenBefore (sessions : List (Session μ)) (dispatch : MessageDispatch μ) (next : Seen) : Seen :=
  if redeliveryPendingInCompetingTransaction dispatch sessions then .inCompetingTransaction next else .before

/-- The answer is the same whether or not the receipt is marked. -/
theorem redeliveryExpected_run (setup : Setup) (dispatch : MessageDispatch μ) (markReceipt : Bool) (s : Kernel μ) :
    ∃ s', redeliveryExpectedInCurrentTransaction setup dispatch markReceipt s =
      .ok ((Consumer.mk setup s).isRedeliveryExpected dispatch) s' := by
  rw [Consumer.isRedeliveryExpected, redeliveryExpectedInCurrentTransaction, redeliveryExpectedInCurrentTransaction]
  cases s.previouslyDeliveredMessages with
  | none => exact ⟨s, rfl⟩
  | some entries =>
    dsimp only
    by_cases hexpected : (isTransacted setup s && entries.any (·.1 = dispatch.message.messageId)) = true
    · rw [if_pos hexpected, if_pos hexpected]
      exact ⟨_, rfl⟩
    · rw [if_neg hexpected, if_neg hexpected]
      exact ⟨_, rfl⟩

/-- `dispatch` of a duplicate to a consumer that is open and no browser, by how it is handled. -/
theorem dispatch_duplicate (setup : Setup) (consumerId : String) (now : Int) (expired : Bool)
    (message : MessageDispatch μ) (sessions : List (Session μ)) (next : Seen) {s s₁ s₂ : Kernel μ}
    (hprogress : clearMessagesInProgress setup s = .ok () s₁) (hclear : clearDeliveredList setup s₁ = .ok () s₂)
    (hopen : s₂.unconsumedMessages.closed = false) (hbrowser : setup.browser = false) :
    ∃ s₃, redeliveryExpectedInCurrentTransaction setup message true s₂ =
        .ok ((Consumer.mk setup s₂).isRedeliveryExpected message) s₃ ∧
      dispatch setup consumerId now expired message (seenBefore sessions message next) s =
        match handleDuplicate ⟨setup, s₂⟩ sessions message with
        | .acknowledged => (suppressDuplicate setup consumerId message true >>= fun _ => pure false) s₃
        | .dispatchedAgain =>
          (rollbackDuplicate message.message >>= fun _ => dispatch setup consumerId now expired message next) s₃
        | .poisoned =>
          (posionAck message ("Suppressing duplicate delivery on connection, consumer " ++ consumerId) >>= fun _ =>
            pure false) s₃ := by
  obtain ⟨s₃, hexpected⟩ := redeliveryExpected_run setup message true s₂
  refine ⟨s₃, hexpected, ?_⟩
  have hstart : ∀ unseen seen : Act μ Bool, dispatchAs setup unseen seen s = seen s₂ := by
    intro unseen seen
    rw [dispatchAs, bind_ok hprogress, bind_ok hclear, bind_ok (get_run s₂), hopen, hbrowser]
    rfl
  rw [handleDuplicate, seenBefore]
  cases redeliveryPendingInCompetingTransaction message sessions with
  | true =>
    rw [if_pos rfl, dispatch, hstart, bind_ok hexpected]
    cases (Consumer.mk setup s₂).isRedeliveryExpected message <;> rfl
  | false =>
    rw [if_neg Bool.false_ne_true, dispatch, hstart, bind_ok hexpected]
    cases (Consumer.mk setup s₂).isRedeliveryExpected message <;> rfl

/-! ### The search -/

def Awaited (dispatch : MessageDispatch μ) (sessions : List (Session μ)) : Prop :=
  ∃ session ∈ sessions, ∃ consumer ∈ session.consumers, consumer.isRedeliveryExpected dispatch = true

/-- The search finds a consumer that expects the message, and then no consumer gives it up as poison. -/
structure SearchExact (dispatch : MessageDispatch μ) (sessions : List (Session μ)) : Prop where
  answer : redeliveryPendingInCompetingTransaction dispatch sessions = true ↔ Awaited dispatch sessions
  spared : Awaited dispatch sessions → ∀ own, handleDuplicate own sessions dispatch ≠ .poisoned

/-- Nobody expects the message, or the first consumer of the first session that has consumers does. -/
def FirstDecides (dispatch : MessageDispatch μ) (sessions : List (Session μ)) : Prop :=
  Awaited dispatch sessions → ∀ first ∈ (sessions.flatMap Session.consumers).head?,
    first.isRedeliveryExpected dispatch = true

theorem redeliveryPending_eq (dispatch : MessageDispatch μ) (sessions : List (Session μ)) :
    redeliveryPendingInCompetingTransaction dispatch sessions =
      (((sessions.flatMap Session.consumers).head?.map (Consumer.isRedeliveryExpected dispatch)).getD false) := by
  induction sessions with
  | nil => rfl
  | cons session sessions ih =>
    rw [redeliveryPendingInCompetingTransaction, List.flatMap_cons]
    cases session.consumers with
    | nil => exact ih
    | cons consumer consumers => rfl

theorem awaited_of_head {dispatch : MessageDispatch μ} {sessions : List (Session μ)} {first : Consumer μ}
    (hfirst : (sessions.flatMap Session.consumers).head? = some first)
    (hexpected : first.isRedeliveryExpected dispatch = true) : Awaited dispatch sessions := by
  obtain ⟨session, hsession, hconsumer⟩ := List.mem_flatMap.mp (List.mem_of_head? hfirst)
  exact ⟨session, hsession, first, hconsumer, hexpected⟩

def waitingConsumer (ids : List Nat) : Consumer Nat where
  setup := { ackMode := .transacted, isQueue := true, prefetchSize := 100 }
  kernel := { previouslyDeliveredMessages := some (ids.map (·, false)) }

end ActiveMQCpp.Core
