import ActiveMQCpp.CoreDelivery
import ActiveMQCpp.LibPreserves
import ActiveMQCpp.LibRuns

/-! The counters of a consumer and the acknowledgements that it makes of them. Every operation but `rollback` keeps
them sound; a rollback subtracts the number of the delivered messages from a counter that a full window has
set to zero in between. -/

namespace ActiveMQCpp.Core

open Codec Runs Keeps List

variable {μ : Type}
variable {s : Kernel μ}
variable {ack : MessageAck μ}

structure Sound (s : Kernel μ) : Prop where
  deliveredCounter : 0 ≤ s.deliveredCounter
  ackCounter : 0 ≤ s.ackCounter
  additionalWindowSize : 0 ≤ s.additionalWindowSize
  sent : ∀ ack ∈ s.sent, 1 ≤ ack.messageCount

/-- The acknowledgements that are still to be sent are sound too. -/
structure Backed (s : Kernel μ) : Prop extends Sound s where
  pendingAck : ∀ ack, s.pendingAck = some ack → 1 ≤ ack.messageCount
  submitted : ∀ ack ∈ s.submitted, 1 ≤ ack.messageCount

/-! ### The session -/

theorem keeps_sendAck (hack : 1 ≤ ack.messageCount) : Keeps Backed (sendAck ack) := by
  intro s h
  rw [sendAck]
  split_ifs
  · exact h
  · refine ⟨⟨h.deliveredCounter, h.ackCounter, h.additionalWindowSize, fun a ha => ?_⟩, h.pendingAck, h.submitted⟩
    rcases mem_append.mp ha with ha | ha
    · exact h.sent a ha
    · rw [mem_singleton.mp ha]
      exact hack

theorem Backed.same {s' : Kernel μ} (h : Backed s) (hdelivered : s'.deliveredCounter = s.deliveredCounter)
    (hack : s'.ackCounter = s.ackCounter) (hwindow : s'.additionalWindowSize = s.additionalWindowSize)
    (hsent : s'.sent = s.sent) (hpending : s'.pendingAck = s.pendingAck ∨ s'.pendingAck = none)
    (hsubmitted : s'.submitted = s.submitted) : Backed s' where
  deliveredCounter := hdelivered ▸ h.deliveredCounter
  ackCounter := hack ▸ h.ackCounter
  additionalWindowSize := hwindow ▸ h.additionalWindowSize
  sent := hsent ▸ h.sent
  pendingAck ack hpend := by
    rcases hpending with hsame | hnone
    · exact h.pendingAck ack (hsame ▸ hpend)
    · rw [hnone] at hpend
      cases hpend
  submitted := hsubmitted ▸ h.submitted

theorem keeps_doStartTransaction (setup : Setup) : Keeps Backed (doStartTransaction setup : Act μ Unit) := by
  refine keeps_modify fun s h => ?_
  split_ifs
  · exact h.same rfl rfl rfl rfl (.inl rfl) rfl
  · exact h

theorem keeps_registerSync (setup : Setup) : Keeps Backed (registerSync setup : Act μ Unit) := by
  rw [registerSync]
  refine (keeps_doStartTransaction setup).bind fun _ => ?_
  exact keeps_modify fun s h => h.same rfl rfl rfl rfl (.inl rfl) rfl

/-! ### Acknowledging -/

theorem nextPendingAck_messageCount (d : MessageDispatch μ) (ackType : AckType) (s : Kernel μ) :
    (nextPendingAck d ackType s).messageCount = s.deliveredCounter := by
  rw [nextPendingAck]
  cases s.pendingAck with
  | none => rfl
  | some old =>
    simp only
    split_ifs <;> rfl

theorem keeps_sendSuperseded (ackType : AckType) {old : Option (MessageAck μ)}
    (hold : ∀ ack, old = some ack → 1 ≤ ack.messageCount) : Keeps Backed (sendSuperseded ackType old) := by
  cases old with
  | none => exact keeps_pure _
  | some ack =>
    rw [sendSuperseded]
    exact ite (keeps_sendAck (hold ack rfl)) (keeps_pure _)

theorem keeps_sendPending {pending : Option (MessageAck μ)} (h : ∀ ack, pending = some ack → 1 ≤ ack.messageCount) :
    Keeps Backed (pending.forM sendAck : Act μ Unit) := by
  cases pending with
  | none => exact keeps_pure _
  | some ack => exact keeps_sendAck (h ack rfl)

theorem keeps_ackLater (setup : Setup) (d : MessageDispatch μ) (ackType : AckType) :
    Keeps Backed (ackLater setup d ackType) := by
  rw [ackLater]
  refine keeps_get_bind fun s h => keeps_when (keeps_registerSync setup) (fun s h => ?_) s h
  beta_reduce
  rw [bind_ok (modify_run _ s), bind_ok (get_run _), bind_ok (modify_run _ _)]
  have hpending : Backed { s with
      deliveredCounter := s.deliveredCounter + 1
      pendingAck := some (nextPendingAck d ackType { s with deliveredCounter := s.deliveredCounter + 1 }) } := by
    have hcounter := h.deliveredCounter
    refine ⟨⟨Int.le_add_one hcounter, h.ackCounter, h.additionalWindowSize, h.sent⟩, fun ack hack => ?_, h.submitted⟩
    cases hack
    rw [nextPendingAck_messageCount]
    exact Int.add_le_add_right hcounter 1
  refine bind (keeps_sendSuperseded ackType h.pendingAck) (fun _ => ?_) _ hpending
  refine keeps_when (keeps_modify fun s h => ?_) (keeps_get_bind fun s h => ?_)
  · refine ⟨⟨h.deliveredCounter, h.ackCounter, h.additionalWindowSize, h.sent⟩, fun ack hack => ?_, h.submitted⟩
    obtain ⟨old, hold, rfl⟩ := Option.map_eq_some_iff.mp hack
    exact h.pendingAck old hold
  · split_ifs
    · refine bind (keeps_sendPending h.pendingAck) (fun _ => keeps_modify fun s h => ?_) s h
      exact ⟨⟨le_refl 0, h.ackCounter, le_refl 0, h.sent⟩, (fun ack hack => by cases hack), h.submitted⟩
    · exact h

theorem makeAck_messageCount {ackType : AckType}
    (h : makeAckForAllDeliveredMessages ackType s = some ack) : 1 ≤ ack.messageCount := by
  unfold makeAckForAllDeliveredMessages at h
  split at h
  · cases h
  · rename_i newest older hdelivered
    cases h
    simp only [MessageAck.ofDispatch, hdelivered, length_cons]
    omega

theorem keeps_immediateIndividualTransactedAck (setup : Setup) (d : MessageDispatch μ) :
    Keeps Backed (immediateIndividualTransactedAck setup d) := by
  rw [immediateIndividualTransactedAck]
  refine (keeps_registerSync setup).bind fun _ => keeps_get_bind fun s h => ?_
  exact keeps_sendAck (le_refl 1) s h

theorem keeps_beforeMessageIsConsumed (setup : Setup) (d : MessageDispatch μ) :
    Keeps Backed (beforeMessageIsConsumed setup d) := by
  rw [beforeMessageIsConsumed]
  refine (keeps_modify fun s h => h.same rfl rfl rfl rfl (.inl rfl) rfl).bind fun _ => ?_
  refine ite (keeps_pure _) ?_
  refine (keeps_modify fun s h => h.same rfl rfl rfl rfl (.inl rfl) rfl).bind fun _ => keeps_get_bind fun s h => ?_
  have htransacted := ite (p := setup.transactedIndividualAck = true)
    (keeps_immediateIndividualTransactedAck setup d) (keeps_ackLater setup d .delivered)
  exact ite htransacted (keeps_pure _) s h

theorem keeps_acknowledgeDispatch (d : MessageDispatch μ) (ackType : AckType) :
    Keeps Backed (acknowledgeDispatch d ackType) := by
  have hone : 1 ≤ (singleAck d ackType).messageCount := by
    rw [singleAck]
    split_ifs <;> exact le_refl 1
  rw [acknowledgeDispatch]
  refine (keeps_sendAck hone).bind fun _ => ?_
  exact keeps_modify fun s h => h.same rfl rfl rfl rfl (.inl rfl) rfl

theorem keeps_sendPendingAck : Keeps Backed (do
    let s : Kernel μ ← get
    if s.deliveredCounter > 0 then
      match s.pendingAck with
      | none => pure ()
      | some pending =>
        sendAck pending
        modify fun s => { s with pendingAck := none, deliveredCounter := 0 } : Act μ Unit) := by
  refine keeps_get_bind fun s h => ?_
  split_ifs
  · cases hpending : s.pendingAck with
    | none => exact h
    | some pending =>
      refine bind (keeps_sendAck (h.pendingAck pending hpending)) (fun _ => keeps_modify fun s h => ?_) s h
      exact ⟨⟨le_refl 0, h.ackCounter, h.additionalWindowSize, h.sent⟩, (fun ack hack => by cases hack), h.submitted⟩
  · exact h

theorem keeps_sendOptimizedAcks (now : Int) : Keeps Backed (sendOptimizedAcks now : Act μ Unit) := by
  rw [sendOptimizedAcks]
  refine keeps_get_bind fun s h => ?_
  cases hack : makeAckForAllDeliveredMessages .consumed s with
  | none => exact keeps_sendPendingAck s h
  | some ack =>
    refine bind (keeps_modify fun s h => ?_) (fun _ => ?_) s h
    · exact ⟨⟨h.deliveredCounter, le_refl 0, h.additionalWindowSize, h.sent⟩, h.pendingAck, h.submitted⟩
    · refine (keeps_sendAck (makeAck_messageCount hack)).bind fun _ => ?_
      exact (keeps_modify fun s h => h.same rfl rfl rfl rfl (.inl rfl) rfl).bind fun _ => keeps_sendPendingAck

theorem keeps_ackDelivered (setup : Setup) (now : Int) : Keeps Backed (ackDelivered setup now : Act μ Unit) := by
  rw [ackDelivered]
  refine keeps_get_bind fun s h => ?_
  split_ifs
  · exact h
  · refine bind (keeps_modify fun s h => ?_) (fun _ => keeps_get_bind fun s h => ?_) s h
    · exact ⟨⟨h.deliveredCounter, Int.le_add_one h.ackCounter, h.additionalWindowSize, h.sent⟩, h.pendingAck, h.submitted⟩
    · exact ite (keeps_sendOptimizedAcks now) (keeps_pure _) s h
  · cases hack : makeAckForAllDeliveredMessages .consumed s with
    | none => exact h
    | some ack =>
      refine bind (keeps_modify fun s h => ?_) (fun _ => keeps_sendAck (makeAck_messageCount hack)) s h
      exact h.same rfl rfl rfl rfl (.inl rfl) rfl

theorem keeps_afterMessageIsConsumed (setup : Setup) (now : Int) (d : MessageDispatch μ) (messageExpired : Bool) :
    Keeps Backed (afterMessageIsConsumed setup now d messageExpired) := by
  rw [afterMessageIsConsumed]
  refine keeps_get_bind fun s h => ?_
  split_ifs
  · exact h
  · exact keeps_acknowledgeDispatch d .expired s h
  · exact h
  · exact h
  · refine bind (keeps_modify fun s h => h.same rfl rfl rfl rfl (.inl rfl) rfl) (fun _ => ?_) s h
    refine (keeps_ackDelivered setup now).bind fun _ => ?_
    exact keeps_modify fun s h => h.same rfl rfl rfl rfl (.inl rfl) rfl
  · exact keeps_ackLater setup d .consumed s h
  · exact keeps_ackLater setup d .delivered s h
  · exact h
  · exact h

theorem Backed.takeAck (h : Backed s) (setup : Setup) :
    Backed (takeAck setup s).2 ∧ ∀ ack, (takeAck setup s).1 = some ack → 1 ≤ ack.messageCount := by
  have hnone : Backed { s with pendingAck := none } := h.same rfl rfl rfl rfl (.inr rfl) rfl
  rw [Core.takeAck]
  split_ifs
  · cases hack : makeAckForAllDeliveredMessages .consumed s with
    | none => exact ⟨hnone, h.pendingAck⟩
    | some ack =>
      refine ⟨⟨⟨h.deliveredCounter, le_refl 0, h.additionalWindowSize, h.sent⟩, h.pendingAck, h.submitted⟩, ?_⟩
      intro ack' hack'
      cases hack'
      exact makeAck_messageCount hack
  · cases hpending : s.pendingAck with
    | none => exact ⟨h, fun ack hack => by cases hack⟩
    | some pending =>
      simp only
      split_ifs
      · refine ⟨hnone, fun ack hack => ?_⟩
        cases hack
        exact h.pendingAck pending hpending
      · exact ⟨h, fun ack hack => by cases hack⟩

theorem keeps_deliverAcks (setup : Setup) : Keeps Backed (deliverAcks setup : Act μ Unit) := by
  refine keeps_modify fun s h => ?_
  split_ifs
  · exact h
  · obtain ⟨hback, hcount⟩ := h.takeAck setup
    generalize takeAck setup s = taken at hback hcount
    obtain ⟨ack, s'⟩ := taken
    cases ack with
    | none => exact hback
    | some ack =>
      have hcount := hcount ack rfl
      refine ⟨⟨hback.deliveredCounter, hback.ackCounter, hback.additionalWindowSize, hback.sent⟩, hback.pendingAck, ?_⟩
      intro a ha
      rcases mem_append.mp ha with ha | ha
      · exact hback.submitted a ha
      · rw [mem_singleton.mp ha]
        exact hcount

theorem keeps_runAckTask : Keeps Backed (runAckTask : Act μ Unit) := by
  intro s h
  rw [runAckTask]
  cases hsubmitted : s.submitted with
  | nil => exact h
  | cons ack rest =>
    have hmem := h.submitted
    rw [hsubmitted] at hmem
    have hrest : Backed { s with submitted := rest } :=
      ⟨⟨h.deliveredCounter, h.ackCounter, h.additionalWindowSize, h.sent⟩, h.pendingAck,
        fun a ha => hmem a (mem_cons_of_mem _ ha)⟩
    exact (keeps_sendAck (hmem ack mem_cons_self) _ hrest).same rfl rfl rfl rfl (.inl rfl) rfl

theorem keeps_setOptimizeAcknowledge (setup : Setup) (value : Bool) :
    Keeps Backed (setOptimizeAcknowledge setup value : Act μ Unit) := by
  rw [setOptimizeAcknowledge]
  refine keeps_get_bind fun s h => ?_
  refine keeps_when (keeps_deliverAcks setup) ?_ s h
  exact keeps_modify fun s h => h.same rfl rfl rfl rfl (.inl rfl) rfl

/-! ### Interruptions and tasks -/

theorem SameBut.backed {p : Kernel μ} (hsame : SameBut s p) (h : Backed s) : Backed p :=
  h.same hsame.deliveredCounter hsame.ackCounter hsame.additionalWindowSize hsame.sent hsame.pendingAck hsame.submitted

theorem keeps_clearMessagesInProgress (setup : Setup) : Keeps Backed (clearMessagesInProgress setup : Act μ Unit) := by
  refine keeps_modify fun s h => ?_
  by_cases hflag : s.inProgressClearRequiredFlag > 0
  · rw [if_pos hflag]
    exact h.same rfl rfl rfl rfl (.inl rfl) rfl
  · rw [if_neg hflag]
    exact h

theorem keeps_runRedeliveryTask (redeliveries : List (MessageDispatch μ)) :
    Keeps Backed (runRedeliveryTask redeliveries) := by
  induction redeliveries with
  | nil => exact keeps_pure _
  | cons d redeliveries ih =>
    rw [runRedeliveryTask]
    refine keeps_get_bind fun s h => ?_
    split_ifs
    · exact h
    · exact bind (keeps_modify fun s h => h.same rfl rfl rfl rfl (.inl rfl) rfl) (fun _ => ih) s h

theorem keeps_start : Keeps Backed (start : Act μ Unit) := by
  refine keeps_modify fun s h => ?_
  split_ifs
  · exact h
  · exact h.same rfl rfl rfl rfl (.inl rfl) rfl

theorem keeps_runTask (index : Nat) : Keeps Backed (runTask index : Act μ Unit) := by
  rw [runTask]
  refine keeps_get_bind fun s h => ?_
  cases s.scheduled[index]? with
  | none => exact h
  | some entry =>
    obtain ⟨task, delay⟩ := entry
    refine bind (keeps_modify fun s h => h.same rfl rfl rfl rfl (.inl rfl) rfl) (fun _ => ?_) s h
    cases task with
    | startConsumer => exact keeps_start
    | nonBlockingRedelivery redeliveries => exact keeps_runRedeliveryTask redeliveries

section Ids

variable [DecidableEq μ]
variable {s : Kernel μ}
variable {p s' : Kernel μ} {call : Call μ}

theorem keeps_clearDeliveredList (setup : Setup) : Keeps Backed (clearDeliveredList setup : Act μ Unit) := by
  intro s h
  obtain ⟨s₁, hrun, hsame, -⟩ := clearDeliveredList_same setup s
  rw [hrun]
  exact hsame.backed h

omit [DecidableEq μ] in
theorem keeps_rollbackOnFailedRecoveryRedelivery :
    Keeps Backed (rollbackOnFailedRecoveryRedelivery : Act μ Unit) := by
  intro s h
  rw [rollbackOnFailedRecoveryRedelivery]
  split
  · exact h
  · simp only
    split_ifs <;> exact h

theorem keeps_acknowledge (setup : Setup) : Keeps Backed (acknowledge setup : Act μ Unit) := by
  rw [acknowledge]
  refine (keeps_clearDeliveredList setup).bind fun _ => keeps_get_bind fun s h => ?_
  cases hack : makeAckForAllDeliveredMessages .consumed s with
  | none => exact h
  | some ack =>
    have hcount := makeAck_messageCount hack
    have hsend : Keeps Backed (do
        modify fun s => { s with pendingAck := none }
        let s ← get
        sendAck (if isTransacted setup s then { ack with transactionId := s.transactionId } else ack)
        modify fun s =>
          { s with
            deliveredCounter := max 0 (s.deliveredCounter - s.deliveredMessages.length)
            additionalWindowSize := max 0 (s.additionalWindowSize - s.deliveredMessages.length)
            deliveredMessages := if isTransacted setup s then s.deliveredMessages else [] } : Act μ Unit) := by
      refine (keeps_modify fun s h => h.same rfl rfl rfl rfl (.inr rfl) rfl).bind fun _ => ?_
      refine keeps_get_bind fun s h => bind (keeps_sendAck ?_) (fun _ => keeps_modify fun s h => ?_) s h
      · split_ifs <;> exact hcount
      · exact ⟨⟨le_max_left _ _, h.ackCounter, le_max_left _ _, h.sent⟩, h.pendingAck, h.submitted⟩
    split_ifs
    · exact (keeps_rollbackOnFailedRecoveryRedelivery.bind fun _ => (keeps_doStartTransaction setup).bind fun _ => hsend) s h
    · exact hsend s h

/-! ### Rollbacks -/

/-- What a rollback forgets has been counted. -/
def Covered (setup : Setup) (s : Kernel μ) : Prop :=
  ∀ newest ∈ (s.takenBack setup).head?,
    s.forgets setup newest = true → ((s.takenBack setup).length : Int) ≤ s.deliveredCounter

instance (setup : Setup) (s : Kernel μ) : Decidable (Covered setup s) :=
  inferInstanceAs (Decidable (∀ newest ∈ (s.takenBack setup).head?, _))

omit [DecidableEq μ] in
theorem SameBut.forgets (h : SameBut s p) (setup : Setup) (newest : MessageDispatch μ) :
    p.forgets setup newest = s.forgets setup newest := by
  rw [Kernel.forgets, Kernel.forgets, h.failAt, h.sent, h.unconsumedMessages]

omit [DecidableEq μ] in
theorem Sends.sound {newest : MessageDispatch μ} {ackType : AckType} (h : Sends newest ackType p s')
    (hnewest : p.deliveredMessages.head? = some newest) (hsent : ∀ ack ∈ p.sent, 1 ≤ ack.messageCount) :
    ∀ ack ∈ s'.sent, 1 ≤ ack.messageCount := by
  cases h with
  | nothing hsame =>
    rw [hsame]
    exact hsent
  | one ack htype hcount hsame =>
    intro a ha
    rw [hsame] at ha
    rcases mem_append.mp ha with ha | ha
    · exact hsent a ha
    · rw [mem_singleton.mp ha, hcount]
      have hpos := length_pos_of_mem (mem_of_mem_head? hnewest)
      omega

omit [DecidableEq μ] in
theorem Verdict.sound_iff {setup : Setup} (hverdict : Verdict setup p s') (hresumes : Resumes p s')
    (h : Backed p) : (Sound s' ↔ ∀ newest ∈ p.deliveredMessages.head?, p.forgets setup newest = true →
      (p.deliveredMessages.length : Int) ≤ p.deliveredCounter) ∧ (Sound s' → Backed s') := by
  have hback : Sound s' → Backed s' := fun hsound =>
    ⟨hsound, hresumes.pendingAck ▸ h.pendingAck, hresumes.submitted ▸ h.submitted⟩
  have hack : 0 ≤ s'.ackCounter := hresumes.ackCounter ▸ h.ackCounter
  refine ⟨?_, hback⟩
  cases hverdict with
  | nothing hempty hsame =>
    rw [hsame, hempty]
    exact iff_of_true h.toSound fun newest hnewest => by cases hnewest
  | kept newest hnewest hforgets hdelivered hwaiting hcounter hwindow hsends =>
    refine iff_of_true ⟨hcounter ▸ h.deliveredCounter, hack, hwindow ▸ h.additionalWindowSize,
      hsends.sound hnewest h.sent⟩ fun other hother => ?_
    rw [hnewest] at hother
    cases hother
    rw [hforgets]
    exact fun hfalse => absurd hfalse Bool.false_ne_true
  | poisoned newest hnewest hforgets hpoison hdelivered hwaiting hcounter hwindow hsends =>
    rw [hnewest]
    constructor
    · intro hsound other hother _
      have hle := hsound.deliveredCounter
      omega
    · intro hcovered
      have hle := hcovered newest rfl hforgets
      exact ⟨by omega, hack, hwindow ▸ le_max_left _ _, hsends.sound hnewest h.sent⟩
  | moved newest hnewest hforgets hpoison hdelivered hwaiting hcounter hwindow hsends =>
    rw [hnewest]
    constructor
    · intro hsound other hother _
      have hle := hsound.deliveredCounter
      omega
    · intro hcovered
      have hle := hcovered newest rfl hforgets
      exact ⟨by omega, hack, hwindow ▸ h.additionalWindowSize, hsends.sound hnewest h.sent⟩

theorem rollback_sound_iff (setup : Setup) (h : Backed s) : (Sound (stateOf (rollback setup s)) ↔ Covered setup s) ∧
      (Sound (stateOf (rollback setup s)) → Backed (stateOf (rollback setup s))) := by
  obtain ⟨p, hprepare, hsame, htaken⟩ := prepareRollback_takenBack setup s
  obtain ⟨hverdict, hresumes⟩ := redeliver_verdict setup p
  have hiff := hverdict.sound_iff hresumes (hsame.backed h)
  simp only [htaken, hsame.deliveredCounter, hsame.forgets] at hiff
  rw [rollback, bind_ok hprepare]
  exact hiff

/-! ### Runs -/

def callStep (setup : Setup) (s : Kernel μ) (call : Call μ) : Option (Kernel μ) := some (stateOf (perform setup call s))

/-- The rollback that a call leads to, if it leads to one, has counted what it forgets. -/
def CoveredCall (setup : Setup) (s : Kernel μ) (call : Call μ) : Prop :=
  ∀ r ∈ rollbackFrom setup s call, Covered setup r

omit [DecidableEq μ] in
theorem created_backed (s : Kernel μ) : Backed s.created := by
  refine ⟨⟨le_refl 0, le_refl 0, le_refl 0, fun ack hack => ?_⟩, fun ack hack => ?_, fun ack hack => ?_⟩
  · exact absurd hack not_mem_nil
  · cases hack
  · exact absurd hack not_mem_nil

theorem keeps_perform (setup : Setup) (hnone : rollbackFrom setup s call = none)
    (h : Backed s) : Backed (stateOf (perform setup call s)) := by
  cases call with
  | beforeMessageIsConsumed d => exact keeps_beforeMessageIsConsumed setup d s h
  | afterMessageIsConsumed now d messageExpired => exact keeps_afterMessageIsConsumed setup now d messageExpired s h
  | ackLater d ackType => exact keeps_ackLater setup d ackType s h
  | deliverAcks => exact keeps_deliverAcks setup s h
  | runAckTask => exact keeps_runAckTask s h
  | acknowledge => exact keeps_acknowledge setup s h
  | acknowledgeDispatch d => exact keeps_acknowledgeDispatch d .individual s h
  | commit => exact h.same rfl rfl rfl rfl (.inl rfl) rfl
  | rollback => cases hnone
  | listenerThrew now d cause =>
    rw [perform, listenerThrew, bind_ok (modify_run _ s)]
    rw [rollbackFrom] at hnone
    split_ifs at hnone ⊢
    exact keeps_afterMessageIsConsumed setup now d false _ (h.same rfl rfl rfl rfl (.inl rfl) rfl)
  | inProgressClearRequired => exact h.same rfl rfl rfl rfl (.inl rfl) rfl
  | clearMessagesInProgress => exact keeps_clearMessagesInProgress setup s h
  | clearDeliveredList => exact keeps_clearDeliveredList setup s h
  | setOptimizeAcknowledge value => exact keeps_setOptimizeAcknowledge setup value s h
  | posionAck d cause => exact keeps_sendAck (le_refl 1) s h
  | runTask index => exact keeps_runTask index s h
  | session transactionId inXATransaction failAt => exact h.same rfl rfl rfl rfl (.inl rfl) rfl
  | channel running closed => exact h.same rfl rfl rfl rfl (.inl rfl) rfl

theorem rollbackFrom_backed (setup : Setup) {r : Kernel μ}
    (hsome : rollbackFrom setup s call = some r) (h : Backed s) : Backed r := by
  rcases (perform_eq_rollback setup hsome).2 with rfl | ⟨d, cause, rfl⟩
  · exact h
  · exact h.same rfl rfl rfl rfl (.inl rfl) rfl

/-- The counters are sound in every state of a run, and every acknowledgement that is sent counts a message,
exactly when no rollback of the run forgets more messages than have been counted. -/
theorem counters_sound_iff (setup : Setup) (s : Kernel μ) (calls : List (Call μ)) :
    Throughout (callStep setup) Sound s.created calls ↔ Always (callStep setup) (CoveredCall setup) s.created calls := by
  refine throughout_iff (fun s call s' h hs' => ?_) (fun s call _ hnone => by cases hnone) (created_backed s) calls
  cases hs'
  cases hfrom : rollbackFrom setup s call with
  | none =>
    have hback := keeps_perform setup hfrom h
    have hcovered : CoveredCall setup s call := by
      intro r hr
      rw [hfrom] at hr
      cases hr
    exact ⟨iff_of_true hback.toSound hcovered, fun _ => hback⟩
  | some r =>
    obtain ⟨hiff, hback⟩ := rollback_sound_iff setup (rollbackFrom_backed setup hfrom h)
    have hcovered : CoveredCall setup s call ↔ Covered setup r := by
      rw [CoveredCall, hfrom]
      exact ⟨fun hall => hall r rfl, fun hone _ heq => Option.some.inj heq ▸ hone⟩
    rw [hcovered, (perform_eq_rollback setup hfrom).1]
    exact ⟨hiff, fun hcovers => hback (hiff.mpr hcovers)⟩

/-- The window is full after one message, which is then rolled back. -/
theorem counter_negative :
    ¬∀ (setup : Setup) (s : Kernel Nat) (calls : List (Call Nat)), Throughout (callStep setup) Sound s.created calls := by
  intro hall
  have hrun := hall { ackMode := .client, isQueue := true, prefetchSize := 2 } {}
    [.beforeMessageIsConsumed { ref := 1, message := { messageId := 7 } },
      .afterMessageIsConsumed 0 { ref := 1, message := { messageId := 7 } } false, .rollback]
  have hsound := ((hrun.2 _ rfl).2 _ rfl).1 _ rfl
  exact absurd hsound.deliveredCounter (by decide)

end Ids

end ActiveMQCpp.Core
