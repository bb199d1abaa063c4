import ActiveMQCpp.CoreConsumer
import Mathlib.Algebra.BigOperators.Group.List.Basic
import Mathlib.Algebra.Order.Group.Multiset
import Mathlib.Algebra.Ring.Int.Defs

/-! Every message that a consumer has consumed is counted in one acknowledgement. The balance is lost when
`deliverAcks` takes the pending acknowledgement of a batch, since the counter of the batch goes on. -/

namespace ActiveMQCpp.Core

open Codec Kernel List MessageAck MessageDispatch

variable {μ : Type}

/-! ### The balance -/

/-- The acknowledgements after which the broker forgets a message. -/
def AckType.isFinal : AckType → Bool
  | .consumed | .individual | .expired => true
  | _ => false

/-- The final acknowledgements that the consumer has sent, or given to its executor to send. -/
def Kernel.finals (s : Kernel μ) : List (MessageAck μ) := (s.sent ++ s.submitted).filter fun ack => ack.ackType.isFinal

def Kernel.pendingCount (s : Kernel μ) : Int :=
  match s.pendingAck with
  | some ack => if ack.ackType = .consumed then ack.messageCount else 0
  | none => 0

/-- A consumer with the messages it has taken so far and those it is working on. -/
structure Consumption (μ : Type) where
  kernel : Kernel μ
  taken : List (MessageDispatch μ)
  inProgress : List (MessageDispatch μ)

/-- The messages that are being consumed and that a consumer in batch mode keeps nowhere. -/
def Consumption.underway (setup : Setup) (c : Consumption μ) : List (MessageDispatch μ) :=
  if setup.isAutoAcknowledgeBatch then c.inProgress else []

/-- The final acknowledgements, the delivered messages and the pending acknowledgement count each message
once. -/
def Balanced (setup : Setup) (c : Consumption μ) : Prop :=
  (c.kernel.finals.map MessageAck.messageCount).sum + c.kernel.deliveredMessages.length + c.kernel.pendingCount +
    (c.underway setup).length = c.taken.length

instance (setup : Setup) (c : Consumption μ) : Decidable (Balanced setup c) := inferInstanceAs (Decidable (_ = _))

/-- An acknowledgement says how many messages it is for, and which are the last and the first of them; the
newest comes first. -/
def Covers (ack : MessageAck μ) (group : List (MessageDispatch μ)) : Prop :=
  ack.messageCount = group.length ∧ group.head?.map (fun d => d.message.messageId) = some ack.lastMessageId ∧
    ∀ first, ack.firstMessageId = some first → group.getLast?.map (fun d => d.message.messageId) = some first

/-- The messages that a pending acknowledgement will settle. -/
def PendingCovers (s : Kernel μ) (batch : List (MessageDispatch μ)) : Prop :=
  match s.pendingAck with
  | some ack => if ack.ackType = .consumed then Covers ack batch else batch = []
  | none => batch = []

def Consumption.held (setup : Setup) (c : Consumption μ) (batch : List (MessageDispatch μ)) : List Nat :=
  (c.kernel.deliveredMessages ++ batch ++ c.underway setup).map MessageDispatch.ref

/-- Each message taken is in exactly one place: settled by one of the final acknowledgements, delivered, in the
pending acknowledgement, or on its way. -/
structure Settled (setup : Setup) (c : Consumption μ) (entries : List (MessageAck μ × List (MessageDispatch μ)))
    (batch : List (MessageDispatch μ)) : Prop where
  finals : (entries.map Prod.fst).Perm c.kernel.finals
  covers : ∀ entry ∈ entries, Covers entry.1 entry.2
  pending : PendingCovers c.kernel batch
  balance : ((entries.flatMap Prod.snd).map MessageDispatch.ref ++ c.held setup batch).Perm
    (c.taken.map MessageDispatch.ref)

section Balance

variable {setup : Setup} {c c' : Consumption μ} {s s' : Kernel μ} {ack : MessageAck μ}
  {entries : List (MessageAck μ × List (MessageDispatch μ))} {batch batch' group : List (MessageDispatch μ)}

theorem PendingCovers.count (h : PendingCovers s batch) : s.pendingCount = batch.length := by
  unfold PendingCovers at h
  unfold pendingCount
  cases hp : s.pendingAck with
  | none =>
    rw [hp] at h
    simp only at h
    rw [h]
    rfl
  | some ack =>
    rw [hp] at h
    simp only at h ⊢
    split_ifs at h ⊢
    · exact h.1
    · rw [h]
      rfl

theorem sum_covers (h : ∀ entry ∈ entries, Covers entry.1 entry.2) :
    ((entries.map Prod.fst).map messageCount).sum = ((entries.flatMap Prod.snd).length : Int) := by
  induction entries with
  | nil => rfl
  | cons entry entries ih =>
    rw [map_cons, map_cons, sum_cons, flatMap_cons, length_append,
      ih fun e he => h e (mem_cons_of_mem _ he), (h entry mem_cons_self).1, Int.natCast_add]

theorem Settled.balanced (h : Settled setup c entries batch) : Balanced setup c := by
  have hsum : (c.kernel.finals.map messageCount).sum = ((entries.flatMap Prod.snd).length : Int) := by
    rw [← sum_covers h.covers]
    exact ((h.finals.map _).sum_eq).symm
  have hlength := h.balance.length_eq
  simp only [length_append, length_map, Consumption.held] at hlength
  rw [Balanced, hsum, h.pending.count]
  omega

theorem Settled.settle (h : Settled setup c entries batch) (hfinals : c'.kernel.finals.Perm (ack :: c.kernel.finals))
    (hcovers : Covers ack group) (hpending : PendingCovers c'.kernel batch')
    (hheld : (group.map ref ++ c'.held setup batch').Perm (c.held setup batch))
    (htaken : c'.taken = c.taken) : Settled setup c' ((ack, group) :: entries) batch' where
  finals := (h.finals.cons ack).trans hfinals.symm
  covers := forall_mem_cons.mpr ⟨hcovers, h.covers⟩
  pending := hpending
  balance := by
    rw [htaken, flatMap_cons, map_append]
    refine List.Perm.trans ?_ h.balance
    calc (group.map ref ++ (entries.flatMap Prod.snd).map ref ++ c'.held setup batch')
        |>.Perm ((entries.flatMap Prod.snd).map ref ++ group.map ref ++
          c'.held setup batch') := perm_append_comm.append_right _
      _ = (entries.flatMap Prod.snd).map ref ++ (group.map ref ++
          c'.held setup batch') := append_assoc _ _ _
      _ |>.Perm ((entries.flatMap Prod.snd).map ref ++ c.held setup batch) := hheld.append_left _

theorem Settled.keep (h : Settled setup c entries batch) (new : List (MessageDispatch μ))
    (hfinals : c'.kernel.finals.Perm c.kernel.finals) (hpending : PendingCovers c'.kernel batch')
    (hheld : (c'.held setup batch').Perm (new.map ref ++ c.held setup batch))
    (htaken : c'.taken = c.taken ++ new) : Settled setup c' entries batch' where
  finals := h.finals.trans hfinals.symm
  covers := h.covers
  pending := hpending
  balance := by
    rw [htaken, map_append]
    refine (hheld.append_left _).trans ?_
    rw [← append_assoc]
    refine (perm_append_comm.append_right _).trans ?_
    rw [append_assoc]
    exact perm_append_comm.trans (h.balance.append_right _)

theorem finals_sent (hsent : s'.sent = s.sent ++ [ack]) (hsubmitted : s'.submitted = s.submitted)
    (hfinal : ack.ackType.isFinal = true) : s'.finals.Perm (ack :: s.finals) := by
  rw [finals, finals, hsent, hsubmitted, append_assoc, singleton_append,
    ← filter_cons_of_pos (p := fun a : MessageAck μ => a.ackType.isFinal) hfinal]
  exact perm_middle.filter _

theorem finals_sent_other (hsent : s'.sent = s.sent ++ [ack]) (hsubmitted : s'.submitted = s.submitted)
    (hfinal : ack.ackType.isFinal = false) : s'.finals = s.finals := by
  rw [finals, finals, hsent, hsubmitted, filter_append, filter_append, filter_append,
    filter_singleton, hfinal]
  simp only [cond_false, append_nil]

theorem finals_submitted (hsent : s'.sent = s.sent) (hsubmitted : s'.submitted = s.submitted ++ [ack])
    (hfinal : ack.ackType.isFinal = true) : s'.finals.Perm (ack :: s.finals) := by
  rw [finals, finals, hsent, hsubmitted, ← append_assoc,
    ← filter_cons_of_pos (p := fun a : MessageAck μ => a.ackType.isFinal) hfinal]
  exact (perm_append_singleton _ _).filter _

end Balance

/-! ### What the operations do -/

/-- The type of the acknowledgements that `ackLater` is asked for. -/
def Setup.laterType (setup : Setup) : AckType := if setup.isAutoAcknowledgeBatch then .consumed else .delivered

/-- A consumer that is neither in a transaction nor closed nor interrupted, and what its pending acknowledgement
is then. -/
structure Calm (setup : Setup) (s : Kernel μ) : Prop where
  failAt_eq : s.failAt = none
  notTransacted : isTransacted setup s = false
  notClosed : s.unconsumedMessages.closed = false
  notCleared : s.isClearDeliveredList = false
  each : setup.isAutoAcknowledgeEach = true → s.pendingAck = none
  later : ∀ ack, s.pendingAck = some ack → ack.ackType = setup.laterType
  batch : setup.isAutoAcknowledgeBatch = true → s.deliveredMessages = [] ∧
    ∀ ack, s.pendingAck = some ack → ack.messageCount = s.deliveredCounter

section Operations

variable {setup : Setup} {s : Kernel μ}
variable {ackType : AckType}

theorem sendAck_run (ack : MessageAck μ) (hfail : s.failAt = none) :
    sendAck ack s = .ok () { s with sent := s.sent ++ [ack] } := by
  simp only [sendAck, hfail, reduceCtorEq, if_false]

theorem makeAck_covers {ack : MessageAck μ} (h : makeAckForAllDeliveredMessages ackType s = some ack) :
    Covers ack s.deliveredMessages ∧ ack.ackType = ackType := by
  unfold makeAckForAllDeliveredMessages at h
  split at h
  · cases h
  · rename_i newest older hdelivered
    cases h
    rw [hdelivered]
    refine ⟨⟨rfl, rfl, ?_⟩, rfl⟩
    intro first hfirst
    cases hfirst
    rw [List.getLast?_eq_some_getLast (cons_ne_nil _ _)]
    rfl

theorem makeAck_none (h : makeAckForAllDeliveredMessages ackType s = none) : s.deliveredMessages = [] := by
  unfold makeAckForAllDeliveredMessages at h
  split at h
  · assumption
  · cases h

theorem singleAck_covers (d : MessageDispatch μ) (ackType : AckType) :
    Covers (singleAck d ackType) [d] ∧ (singleAck d ackType).ackType = ackType := by
  unfold singleAck
  simp only
  split_ifs
  · refine ⟨⟨rfl, rfl, fun first hfirst => ?_⟩, rfl⟩
    cases hfirst
    rfl
  · exact ⟨⟨rfl, rfl, fun first hfirst => by cases hfirst⟩, rfl⟩

theorem beforeMessageIsConsumed_run (d : MessageDispatch μ) (h : isTransacted setup s = false) :
    beforeMessageIsConsumed setup d s = .ok ()
      { s with
        lastDeliveredSequenceId := d.message.brokerSequenceId
        deliveredMessages := if setup.isAutoAcknowledgeBatch then s.deliveredMessages else d :: s.deliveredMessages } := by
  have h' : ∀ n l, isTransacted setup { s with lastDeliveredSequenceId := n, deliveredMessages := l } = false :=
    fun _ _ => h
  cases hbatch : setup.isAutoAcknowledgeBatch with
  | true => simp only [beforeMessageIsConsumed, bind_run, modify_run, hbatch, if_true, pure_run]
  | false =>
    simp only [beforeMessageIsConsumed, bind_run, modify_run, hbatch, get_run, h', Bool.false_eq_true, if_false,
      pure_run]

theorem acknowledgeDispatch_run (d : MessageDispatch μ) (ackType : AckType) (hfail : s.failAt = none) :
    acknowledgeDispatch d ackType s = .ok ()
      { s with
        sent := s.sent ++ [singleAck d ackType]
        deliveredMessages := removeDelivered d s.deliveredMessages } := by
  simp only [acknowledgeDispatch, bind_run, sendAck_run _ hfail, modify_run]

theorem ackLater_run (d : MessageDispatch μ) (hfail : s.failAt = none)
    (htransacted : isTransacted setup s = false) (hold : ∀ old, s.pendingAck = some old → old.ackType = ackType) :
    ackLater setup d ackType s = .ok () (
      let ack := nextPendingAck d ackType { s with deliveredCounter := s.deliveredCounter + 1 }
      if setup.prefetchSize ≤ 2 * (s.deliveredCounter + 1 + s.ackCounter - s.additionalWindowSize) then
        { s with sent := s.sent ++ [ack], pendingAck := none, deliveredCounter := 0, additionalWindowSize := 0 }
      else { s with deliveredCounter := s.deliveredCounter + 1, pendingAck := some ack }) := by
  have hsuper : ∀ s' : Kernel μ, sendSuperseded ackType s.pendingAck s' = .ok () s' := by
    intro s'
    cases hp : s.pendingAck with
    | none => rfl
    | some old => simp [sendSuperseded, hold old hp]
  have htransacted' : ∀ n, isTransacted setup { s with deliveredCounter := n } = false := fun _ => htransacted
  simp only [ackLater, bind_run, get_run, htransacted, modify_run, htransacted', hsuper, Bool.false_eq_true, if_false]
  split_ifs
  · simp [bind_run, sendAck_run, hfail]
  · rfl

/-- What the operations leave alone. -/
structure Unmoved (s s' : Kernel μ) : Prop where
  failAt_eq : s'.failAt = s.failAt
  inXATransaction_eq : s'.inXATransaction = s.inXATransaction
  unconsumedMessages_eq : s'.unconsumedMessages = s.unconsumedMessages
  isClearDeliveredList_eq : s'.isClearDeliveredList = s.isClearDeliveredList

theorem Calm.unmoved {s' : Kernel μ} (h : Calm setup s) (hsame : Unmoved s s')
    (heach : setup.isAutoAcknowledgeEach = true → s'.pendingAck = none)
    (hlater : ∀ ack, s'.pendingAck = some ack → ack.ackType = setup.laterType)
    (hbatch : setup.isAutoAcknowledgeBatch = true → s'.deliveredMessages = [] ∧
      ∀ ack, s'.pendingAck = some ack → ack.messageCount = s'.deliveredCounter) : Calm setup s' where
  failAt_eq := hsame.failAt_eq.trans h.failAt_eq
  notTransacted := by
    rw [isTransacted, hsame.inXATransaction_eq]
    exact h.notTransacted
  notClosed := by
    rw [hsame.unconsumedMessages_eq]
    exact h.notClosed
  notCleared := hsame.isClearDeliveredList_eq.trans h.notCleared
  each := heach
  later := hlater
  batch := hbatch

/-- The delivered messages are acknowledged together, or nothing is sent. -/
inductive SendsDelivered (s s' : Kernel μ) : Prop where
  | nothing (hsent : s'.sent = s.sent) (hdelivered : s'.deliveredMessages = s.deliveredMessages)
  | all (ack : MessageAck μ) (hack : makeAckForAllDeliveredMessages .consumed s = some ack)
      (hsent : s'.sent = s.sent ++ [ack]) (hdelivered : s'.deliveredMessages = [])

theorem sendOptimizedAcks_run {ack : MessageAck μ} (now : Int) (hfail : s.failAt = none)
    (hpending : s.pendingAck = none) (hack : makeAckForAllDeliveredMessages .consumed s = some ack) :
    sendOptimizedAcks now s = .ok ()
      { s with deliveredMessages := [], ackCounter := 0, sent := s.sent ++ [ack], optimizeAckTimestamp := now } := by
  simp only [sendOptimizedAcks, bind_run, get_run, hack, modify_run, sendAck, hfail, hpending, reduceCtorEq, if_false,
    pure_run, ite_self]

theorem ackDelivered_run (setup : Setup) (now : Int) (hfail : s.failAt = none) (hpending : s.pendingAck = none) :
    ∃ s', ackDelivered setup now s = .ok () s' ∧ Unmoved s s' ∧ s'.pendingAck = none ∧ s'.submitted = s.submitted ∧
      SendsDelivered s s' := by
  rw [ackDelivered, bind_ok (get_run s)]
  cases hack : makeAckForAllDeliveredMessages .consumed s with
  | none =>
    rw [if_pos (isEmpty_iff.mpr (makeAck_none hack))]
    exact ⟨s, rfl, ⟨rfl, rfl, rfl, rfl⟩, hpending, rfl, .nothing rfl rfl⟩
  | some ack =>
    have hempty : ¬s.deliveredMessages.isEmpty = true := by
      intro h
      rw [makeAckForAllDeliveredMessages, isEmpty_iff.mp h] at hack
      cases hack
    rw [if_neg hempty]
    by_cases hoptimize : s.optimizeAcknowledge = true
    · rw [if_pos hoptimize, bind_ok (modify_run _ s), bind_ok (get_run _)]
      split_ifs
      · exact ⟨_, sendOptimizedAcks_run now hfail hpending hack, ⟨rfl, rfl, rfl, rfl⟩, hpending, rfl,
          .all ack hack rfl rfl⟩
      · exact ⟨_, rfl, ⟨rfl, rfl, rfl, rfl⟩, hpending, rfl, .nothing rfl rfl⟩
    · rw [if_neg hoptimize]
      simp only [bind_ok (modify_run _ s)]
      exact ⟨_, sendAck_run ack hfail, ⟨rfl, rfl, rfl, rfl⟩, hpending, rfl, .all ack hack rfl rfl⟩

/-- The delivered messages, or the pending acknowledgement of a batch, are given to the executor. -/
inductive Submits (s s' : Kernel μ) : Prop where
  | nothing (hsubmitted : s'.submitted = s.submitted) (hdelivered : s'.deliveredMessages = s.deliveredMessages)
      (hpending : s'.pendingAck = s.pendingAck) (hcounter : s'.deliveredCounter = s.deliveredCounter)
  | delivered (ack : MessageAck μ) (hack : makeAckForAllDeliveredMessages .consumed s = some ack)
      (hsubmitted : s'.submitted = s.submitted ++ [ack]) (hdelivered : s'.deliveredMessages = [])
      (hpending : s'.pendingAck = s.pendingAck)
  | pending (ack : MessageAck μ) (hack : s.pendingAck = some ack) (htype : ack.ackType = .consumed)
      (hsubmitted : s'.submitted = s.submitted ++ [ack]) (hdelivered : s'.deliveredMessages = s.deliveredMessages)
      (hpending : s'.pendingAck = none)

theorem deliverAcks_run (setup : Setup) (s : Kernel μ) (heach : setup.isAutoAcknowledgeEach = true → s.pendingAck = none) :
    ∃ s', deliverAcks setup s = .ok () s' ∧ Unmoved s s' ∧ s'.sent = s.sent ∧ Submits s s' := by
  refine ⟨_, modify_run _ s, ?_⟩
  by_cases hdelivering : s.deliveringAcks = true
  · rw [if_pos hdelivering]
    exact ⟨⟨rfl, rfl, rfl, rfl⟩, rfl, .nothing rfl rfl rfl rfl⟩
  · rw [if_neg hdelivering]
    by_cases hmode : setup.isAutoAcknowledgeEach = true
    · cases hack : makeAckForAllDeliveredMessages .consumed s with
      | some ack =>
        have htake : takeAck setup s = (some ack, { s with deliveredMessages := [], ackCounter := 0 }) := by
          simp only [takeAck, hmode, if_true, hack]
        rw [htake]
        exact ⟨⟨rfl, rfl, rfl, rfl⟩, rfl, .delivered ack hack rfl rfl rfl⟩
      | none =>
        have htake : takeAck setup s = (none, { s with pendingAck := none }) := by
          simp only [takeAck, hmode, if_true, hack, heach hmode]
        rw [htake]
        exact ⟨⟨rfl, rfl, rfl, rfl⟩, rfl, .nothing rfl rfl (heach hmode).symm rfl⟩
    · cases hpending : s.pendingAck with
      | none =>
        have htake : takeAck setup s = (none, s) := by
          rw [takeAck, if_neg hmode, hpending]
        rw [htake]
        exact ⟨⟨rfl, rfl, rfl, rfl⟩, rfl, .nothing rfl rfl rfl rfl⟩
      | some ack =>
        by_cases htype : ack.ackType = .consumed
        · have htake : takeAck setup s = (some ack, { s with pendingAck := none }) := by
            rw [takeAck, if_neg hmode, hpending]
            exact if_pos htype
          rw [htake]
          exact ⟨⟨rfl, rfl, rfl, rfl⟩, rfl, .pending ack hpending htype rfl rfl rfl⟩
        · have htake : takeAck setup s = (none, s) := by
            rw [takeAck, if_neg hmode, hpending]
            exact if_neg htype
          rw [htake]
          exact ⟨⟨rfl, rfl, rfl, rfl⟩, rfl, .nothing rfl rfl rfl rfl⟩

theorem setOptimizeAcknowledge_run (value : Bool) (heach : setup.isAutoAcknowledgeEach = true → s.pendingAck = none) :
    ∃ s', setOptimizeAcknowledge setup value s = .ok () s' ∧ Unmoved s s' ∧ s'.sent = s.sent ∧ Submits s s' := by
  rw [setOptimizeAcknowledge, bind_ok (get_run s)]
  split_ifs
  · obtain ⟨s', hrun, hsame, hsent, hsubmits⟩ := deliverAcks_run setup s heach
    rw [bind_ok hrun]
    refine ⟨_, modify_run _ s', ⟨hsame.1, hsame.2, hsame.3, hsame.4⟩, hsent, ?_⟩
    cases hsubmits with
    | nothing h₁ h₂ h₃ h₄ => exact .nothing h₁ h₂ h₃ h₄
    | delivered ack hack h₁ h₂ h₃ => exact .delivered ack hack h₁ h₂ h₃
    | pending ack hack htype h₁ h₂ h₃ => exact .pending ack hack htype h₁ h₂ h₃
  · exact ⟨_, modify_run _ s, ⟨rfl, rfl, rfl, rfl⟩, rfl, .nothing rfl rfl rfl rfl⟩

theorem runAckTask_run (hfail : s.failAt = none) :
    ∃ s', runAckTask s = .ok () s' ∧ Unmoved s s' ∧ s'.pendingAck = s.pendingAck ∧
      s'.deliveredCounter = s.deliveredCounter ∧ s'.deliveredMessages = s.deliveredMessages ∧ s'.finals = s.finals := by
  rw [runAckTask]
  cases hsubmitted : s.submitted with
  | nil => exact ⟨s, rfl, ⟨rfl, rfl, rfl, rfl⟩, rfl, rfl, rfl, rfl⟩
  | cons ack rest =>
    have hrun := sendAck_run (s := { s with submitted := rest }) ack hfail
    refine ⟨_, rfl, ?_⟩
    rw [hrun]
    refine ⟨⟨rfl, rfl, rfl, rfl⟩, rfl, rfl, rfl, ?_⟩
    simp only [finals, stateOf, hsubmitted, append_assoc, singleton_append]

theorem acknowledge_run [DecidableEq μ] (hcalm : Calm setup s) :
    ∃ s', acknowledge setup s = .ok () s' ∧ Unmoved s s' ∧ s'.submitted = s.submitted ∧
      (s' = s ∨ s'.pendingAck = none ∧ s'.deliveredMessages = [] ∧
        ∃ ack, makeAckForAllDeliveredMessages .consumed s = some ack ∧ s'.sent = s.sent ++ [ack]) := by
  have hclear : clearDeliveredList setup s = .ok () s := by
    simp only [clearDeliveredList, modify_run, hcalm.notCleared, Bool.not_false, if_true]
  have htransacted : ∀ o, isTransacted setup { s with pendingAck := o } = false := fun _ => hcalm.notTransacted
  cases hack : makeAckForAllDeliveredMessages .consumed s with
  | none =>
    refine ⟨s, ?_, ⟨rfl, rfl, rfl, rfl⟩, rfl, .inl rfl⟩
    simp only [acknowledge, bind_run, hclear, get_run, hack, pure_run]
  | some ack =>
    refine ⟨{ s with
        pendingAck := none
        sent := s.sent ++ [ack]
        deliveredCounter := max 0 (s.deliveredCounter - s.deliveredMessages.length)
        additionalWindowSize := max 0 (s.additionalWindowSize - s.deliveredMessages.length)
        deliveredMessages := [] }, ?_, ⟨rfl, rfl, rfl, rfl⟩, rfl, .inr ⟨rfl, rfl, ack, rfl, rfl⟩⟩
    have htransacted' : ∀ l, isTransacted setup { s with pendingAck := none, sent := l } = false :=
      fun _ => hcalm.notTransacted
    have hsend := sendAck_run (s := { s with pendingAck := none }) ack hcalm.failAt_eq
    simp only [acknowledge, bind_run, hclear, get_run, hack, hcalm.notTransacted, modify_run, htransacted,
      htransacted', hsend, Bool.false_eq_true, if_false]

end Operations

/-! ### Runs -/

/-- What is done with a consumer. A message is consumed between `before` and `after`; meanwhile, and at any
other time, acknowledgements may be asked for, the executor may send one, and the channel may change. -/
inductive Op (μ : Type) where
  | before (dispatch : MessageDispatch μ)
  | after (now : Int) (dispatch : MessageDispatch μ) (messageExpired : Bool)
  | deliverAcks
  | runAckTask
  | acknowledge
  | acknowledgeDispatch (dispatch : MessageDispatch μ)
  | setOptimizeAcknowledge (value : Bool)
  | channel (unconsumedMessages : MessageDispatchChannel μ)

variable [DecidableEq μ]

inductive Step (setup : Setup) : Consumption μ → Op μ → Consumption μ → Prop where
  | before {c : Consumption μ} {s : Kernel μ} (d : MessageDispatch μ)
      (hrun : beforeMessageIsConsumed setup d c.kernel = .ok () s) :
      Step setup c (.before d) ⟨s, c.taken ++ [d], d :: c.inProgress⟩
  | after {c : Consumption μ} {s : Kernel μ} {l l' : List (MessageDispatch μ)} (now : Int) (d : MessageDispatch μ)
      (messageExpired : Bool) (hprogress : c.inProgress = l ++ d :: l')
      (hrun : afterMessageIsConsumed setup now d messageExpired c.kernel = .ok () s) :
      Step setup c (.after now d messageExpired) ⟨s, c.taken, l ++ l'⟩
  | deliverAcks {c : Consumption μ} {s : Kernel μ} (hrun : deliverAcks setup c.kernel = .ok () s) :
      Step setup c .deliverAcks ⟨s, c.taken, c.inProgress⟩
  | runAckTask {c : Consumption μ} {s : Kernel μ} (hrun : runAckTask c.kernel = .ok () s) :
      Step setup c .runAckTask ⟨s, c.taken, c.inProgress⟩
  | acknowledge {c : Consumption μ} {s : Kernel μ} (hrun : acknowledge setup c.kernel = .ok () s) :
      Step setup c .acknowledge ⟨s, c.taken, c.inProgress⟩
  | acknowledgeDispatch {c : Consumption μ} {s : Kernel μ} (d : MessageDispatch μ)
      (hrun : acknowledgeDispatch d .individual c.kernel = .ok () s) :
      Step setup c (.acknowledgeDispatch d) ⟨s, c.taken, c.inProgress⟩
  | setOptimizeAcknowledge {c : Consumption μ} {s : Kernel μ} (value : Bool)
      (hrun : setOptimizeAcknowledge setup value c.kernel = .ok () s) :
      Step setup c (.setOptimizeAcknowledge value) ⟨s, c.taken, c.inProgress⟩
  | channel {c : Consumption μ} (unconsumedMessages : MessageDispatchChannel μ)
      (hopen : unconsumedMessages.closed = false) :
      Step setup c (.channel unconsumedMessages)
        ⟨{ c.kernel with unconsumedMessages := unconsumedMessages }, c.taken, c.inProgress⟩

/-- The message is among the delivered ones. -/
def Kernel.Delivered (s : Kernel μ) (d : MessageDispatch μ) : Prop := ∃ e ∈ s.deliveredMessages, e.ref = d.ref

/-- The counter of a batch starts at zero, and a message that is acknowledged alone has not been acknowledged
with others before. -/
def Meets (setup : Setup) (s : Kernel μ) : Op μ → Prop
  | .after _ _ false => setup.isAutoAcknowledgeBatch = true → s.pendingAck = none → s.deliveredCounter = 0
  | .after _ d true => setup.isAutoAcknowledgeBatch = false → s.Delivered d
  | .acknowledgeDispatch d => s.Delivered d
  | _ => True

/-- The runs of a new consumer whose steps all meet a condition. -/
inductive Run (setup : Setup) (condition : Kernel μ → Op μ → Prop) : Consumption μ → Prop where
  | new (optimizeAcknowledge : Bool) (optimizeAckTimestamp : Int) :
      Run setup condition ⟨{ optimizeAcknowledge, optimizeAckTimestamp }, [], []⟩
  | step {c c' : Consumption μ} {op : Op μ} (h : Run setup condition c) (hstep : Step setup c op c')
      (hcondition : condition c.kernel op) : Run setup condition c'

section Later

omit [DecidableEq μ]

variable {setup : Setup} {s : Kernel μ} {batch : List (MessageDispatch μ)}

theorem nextPendingAck_fields (d : MessageDispatch μ) (ackType : AckType) (s : Kernel μ) :
    (nextPendingAck d ackType s).ackType = ackType ∧ (nextPendingAck d ackType s).messageCount = s.deliveredCounter ∧
      (nextPendingAck d ackType s).lastMessageId = d.message.messageId := by
  unfold nextPendingAck
  cases s.pendingAck with
  | none => exact ⟨rfl, rfl, rfl⟩
  | some old =>
    simp only
    split_ifs <;> exact ⟨rfl, rfl, rfl⟩

theorem nextPendingAck_covers (d : MessageDispatch μ) (hcalm : Calm setup s)
    (hbatch : setup.isAutoAcknowledgeBatch = true) (hpending : PendingCovers s batch)
    (hcounter : s.pendingAck = none → s.deliveredCounter = 0) :
    Covers (nextPendingAck d .consumed { s with deliveredCounter := s.deliveredCounter + 1 }) (d :: batch) := by
  obtain ⟨-, hcount, hlast⟩ := nextPendingAck_fields d .consumed { s with deliveredCounter := s.deliveredCounter + 1 }
  rcases Option.eq_none_or_eq_some s.pendingAck with hp | ⟨old, hp⟩
  · simp only [PendingCovers, hp] at hpending
    subst hpending
    refine ⟨?_, congrArg some hlast.symm, ?_⟩
    · rw [hcount, hcounter hp]
      rfl
    · intro first hfirst
      simp only [nextPendingAck, hp] at hfirst
      exact hfirst
  · have htype : old.ackType = .consumed := by
      rw [hcalm.later old hp, Setup.laterType, if_pos hbatch]
    simp only [PendingCovers, hp, htype, if_true] at hpending
    obtain ⟨hold, hhead, hfirst⟩ := hpending
    have hne : batch ≠ [] := by
      rintro rfl
      cases hhead
    refine ⟨?_, congrArg some hlast.symm, ?_⟩
    · rw [hcount, length_cons, ← (hcalm.batch hbatch).2 old hp, hold]
      rfl
    · intro first hfirst'
      simp only [nextPendingAck, hp, htype, if_true] at hfirst'
      rw [List.getLast?_cons_of_ne_nil hne]
      exact hfirst first hfirst'

theorem ackLater_calm {s' : Kernel μ} {ackType : AckType} (d : MessageDispatch μ) (hcalm : Calm setup s)
    (hnot : setup.isAutoAcknowledgeEach = false) (htype : ackType = setup.laterType)
    (hrun : ackLater setup d ackType s = .ok () s') : Calm setup s' := by
  subst htype
  rw [ackLater_run d hcalm.failAt_eq hcalm.notTransacted hcalm.later] at hrun
  obtain ⟨hack, hcount, -⟩ := nextPendingAck_fields d setup.laterType
    { s with deliveredCounter := s.deliveredCounter + 1 }
  have hnone : setup.isAutoAcknowledgeEach = true → ∀ o : Option (MessageAck μ), o = none :=
    fun h => absurd (hnot.symm.trans h) Bool.false_ne_true
  simp only at hrun
  split_ifs at hrun
  · cases hrun
    refine hcalm.unmoved ⟨rfl, rfl, rfl, rfl⟩ (fun h => hnone h _) (fun ack h => by cases h) fun hbatch => ?_
    exact ⟨(hcalm.batch hbatch).1, fun ack h => by cases h⟩
  · cases hrun
    refine hcalm.unmoved ⟨rfl, rfl, rfl, rfl⟩ (fun h => hnone h _) (fun ack h => ?_) fun hbatch => ?_
    · cases h
      exact hack
    · refine ⟨(hcalm.batch hbatch).1, fun ack h => ?_⟩
      cases h
      exact hcount

theorem isAutoAcknowledgeEach_of_batch (h : setup.isAutoAcknowledgeBatch = true) :
    setup.isAutoAcknowledgeEach = false := by
  simp only [Setup.isAutoAcknowledgeBatch, Bool.and_eq_true, decide_eq_true_eq, Bool.not_eq_true'] at h
  simp only [Setup.isAutoAcknowledgeEach, h.1, h.2]
  rfl

theorem after_expired (now : Int) (d : MessageDispatch μ) (hcalm : Calm setup s) :
    afterMessageIsConsumed setup now d true s = acknowledgeDispatch d .expired s := by
  simp only [afterMessageIsConsumed, bind_run, get_run, hcalm.notClosed, Bool.false_eq_true, if_false, if_true]

theorem after_each (now : Int) (d : MessageDispatch μ) (hcalm : Calm setup s)
    (heach : setup.isAutoAcknowledgeEach = true) :
    ∃ s', afterMessageIsConsumed setup now d false s = .ok () s' ∧ Unmoved s s' ∧ s'.pendingAck = none ∧
      s'.submitted = s.submitted ∧ SendsDelivered s s' := by
  have hpending := hcalm.each heach
  rw [afterMessageIsConsumed, bind_ok (get_run s), if_neg (by rw [hcalm.notClosed]; exact Bool.false_ne_true),
    if_neg Bool.false_ne_true, if_neg (by rw [hcalm.notTransacted]; exact Bool.false_ne_true), if_pos heach]
  by_cases hdelivering : s.deliveringAcks = true
  · rw [if_pos hdelivering]
    exact ⟨s, rfl, ⟨rfl, rfl, rfl, rfl⟩, hpending, rfl, .nothing rfl rfl⟩
  · rw [if_neg hdelivering, bind_ok (modify_run _ s)]
    obtain ⟨s', hrun, hsame, hnone, hsubmitted, hsends⟩ :=
      ackDelivered_run (s := { s with deliveringAcks := true }) setup now hcalm.failAt_eq hpending
    rw [bind_ok hrun]
    refine ⟨_, modify_run _ s', ⟨hsame.1, hsame.2, hsame.3, hsame.4⟩, hnone, hsubmitted, ?_⟩
    cases hsends with
    | nothing hsent hdelivered => exact .nothing hsent hdelivered
    | all ack hack hsent hdelivered => exact .all ack hack hsent hdelivered

theorem after_batch (now : Int) (d : MessageDispatch μ) (hcalm : Calm setup s)
    (hbatch : setup.isAutoAcknowledgeBatch = true) :
    afterMessageIsConsumed setup now d false s = ackLater setup d .consumed s := by
  simp only [afterMessageIsConsumed, bind_run, get_run, hcalm.notClosed, hcalm.notTransacted,
    isAutoAcknowledgeEach_of_batch hbatch, hbatch, Bool.false_eq_true, if_false, if_true]

theorem after_other (now : Int) (d : MessageDispatch μ) (hcalm : Calm setup s)
    (heach : setup.isAutoAcknowledgeEach = false) (hbatch : setup.isAutoAcknowledgeBatch = false) :
    afterMessageIsConsumed setup now d false s = ackLater setup d .delivered s ∨
      afterMessageIsConsumed setup now d false s = .ok () s := by
  have hmode : (setup.ackMode = .client || setup.ackMode = .individual) = true := by
    have htransacted := hcalm.notTransacted
    simp only [isTransacted, Bool.or_eq_false_iff, decide_eq_false_iff_not] at htransacted
    simp only [Setup.isAutoAcknowledgeEach, Setup.isAutoAcknowledgeBatch] at heach hbatch
    cases hmode : setup.ackMode with
    | client => rfl
    | individual => rfl
    | auto =>
      rw [hmode] at heach
      cases heach
    | transacted => exact absurd hmode htransacted.1
    | dupsOk =>
      rw [hmode] at heach hbatch
      cases hqueue : setup.isQueue with
      | true =>
        rw [hqueue] at heach
        cases heach
      | false =>
        rw [hqueue] at hbatch
        cases hbatch
  simp only [afterMessageIsConsumed, bind_run, get_run, hcalm.notClosed, hcalm.notTransacted, heach, hbatch, hmode,
    Bool.false_eq_true, if_false, if_true]
  split_ifs
  · exact .inl rfl
  · exact .inr rfl

end Later

/-! ### Steps -/

section Steps

omit [DecidableEq μ]

variable {setup : Setup} {c c' : Consumption μ} {s : Kernel μ} {entries : List (MessageAck μ × List (MessageDispatch μ))}
  {batch : List (MessageDispatch μ)}
variable {d : MessageDispatch μ}

theorem removeDelivered_perm (h : s.Delivered d) : (s.deliveredMessages.map ref).Perm
      (d.ref :: (removeDelivered d s.deliveredMessages).map ref) := by
  obtain ⟨e, hmem, href⟩ := h
  obtain ⟨a, l₁, l₂, -, ha, heq, herase⟩ := exists_of_eraseP
    (p := fun e : MessageDispatch μ => decide (e.ref = d.ref)) hmem (decide_eq_true href)
  rw [removeDelivered, herase, heq, map_append, map_cons, map_append, of_decide_eq_true ha]
  exact perm_middle

theorem removeDelivered_of_not (h : ¬s.Delivered d) :
    removeDelivered d s.deliveredMessages = s.deliveredMessages := by
  apply eraseP_of_forall_not
  intro e hmem href
  exact h ⟨e, hmem, of_decide_eq_true href⟩

theorem pendingCovers_iff (hcalm : Calm setup s) (hnot : setup.isAutoAcknowledgeBatch = false) :
    PendingCovers s batch ↔ batch = [] := by
  unfold PendingCovers
  rcases Option.eq_none_or_eq_some s.pendingAck with hp | ⟨ack, hp⟩
  · rw [hp]
  · have htype : ack.ackType ≠ .consumed := by
      rw [hcalm.later ack hp, Setup.laterType, hnot]
      decide
    rw [hp]
    simp only [htype, if_false]

theorem underway_of_not (hnot : setup.isAutoAcknowledgeBatch = false) (c : Consumption μ) : c.underway setup = [] := by
  rw [Consumption.underway, hnot]
  rfl

theorem underway_of_batch (hbatch : setup.isAutoAcknowledgeBatch = true) (c : Consumption μ) :
    c.underway setup = c.inProgress := by
  rw [Consumption.underway, if_pos hbatch]

theorem Settled.quiet (h : Settled setup c entries batch) (hfinals : c'.kernel.finals.Perm c.kernel.finals)
    (hdelivered : c'.kernel.deliveredMessages = c.kernel.deliveredMessages)
    (hpending : c'.kernel.pendingAck = c.kernel.pendingAck) (hunderway : c'.underway setup = c.underway setup)
    (htaken : c'.taken = c.taken) : Settled setup c' entries batch := by
  refine h.keep [] hfinals ?_ ?_ (by rw [htaken, append_nil])
  · unfold PendingCovers
    rw [hpending]
    exact h.pending
  · rw [Consumption.held, Consumption.held, hdelivered, hunderway]
    exact .refl _

theorem Settled.delivered {ack : MessageAck μ} (h : Settled setup c entries batch) (hcalm : Calm setup c.kernel)
    (hcalm' : Calm setup c'.kernel) (hack : makeAckForAllDeliveredMessages .consumed c.kernel = some ack)
    (hfinals : c'.kernel.finals.Perm (ack :: c.kernel.finals)) (hdelivered : c'.kernel.deliveredMessages = [])
    (htaken : c'.taken = c.taken) : Settled setup c' ((ack, c.kernel.deliveredMessages) :: entries) [] := by
  have hnot : setup.isAutoAcknowledgeBatch = false := by
    by_contra hbatch
    rw [Bool.not_eq_false] at hbatch
    rw [makeAckForAllDeliveredMessages, (hcalm.batch hbatch).1] at hack
    cases hack
  have hnil : batch = [] := (pendingCovers_iff hcalm hnot).mp h.pending
  refine h.settle hfinals (makeAck_covers hack).1 ((pendingCovers_iff hcalm' hnot).mpr rfl) ?_ htaken
  rw [Consumption.held, Consumption.held, hdelivered, hnil, underway_of_not hnot, underway_of_not hnot]
  simp only [append_nil, map_nil, List.Perm.refl]

theorem Settled.single {ackType : AckType} (d : MessageDispatch μ) (h : Settled setup c entries batch)
    (hfinal : ackType.isFinal = true)
    (hkernel : c'.kernel = { c.kernel with
      sent := c.kernel.sent ++ [singleAck d ackType]
      deliveredMessages := removeDelivered d c.kernel.deliveredMessages })
    (hheld : ((c.kernel.deliveredMessages ++ c.underway setup).map ref).Perm
      (d.ref :: (removeDelivered d c.kernel.deliveredMessages ++ c'.underway setup).map ref))
    (htaken : c'.taken = c.taken) : Settled setup c' ((singleAck d ackType, [d]) :: entries) batch := by
  obtain ⟨hcovers, htype⟩ := singleAck_covers d ackType
  refine h.settle (finals_sent ?_ ?_ ?_) hcovers ?_ ?_ htaken
  · rw [hkernel]
  · rw [hkernel]
  · rw [htype]
    exact hfinal
  · unfold PendingCovers
    rw [hkernel]
    exact h.pending
  · rw [Consumption.held, Consumption.held, hkernel]
    simp only [map_append, map_cons, map_nil, singleton_append] at hheld ⊢
    have hmove : ∀ l₁ l₂ l₃ : List Nat, (l₁ ++ l₂ ++ l₃).Perm (l₂ ++ (l₁ ++ l₃)) := fun l₁ l₂ l₃ => by
      rw [← append_assoc]
      exact perm_append_comm.append_right _
    refine List.Perm.trans (List.Perm.cons _ (hmove _ _ _)) ?_
    refine List.Perm.trans ?_ (hmove _ _ _).symm
    exact perm_middle.symm.trans (hheld.symm.append_left _)

theorem removeDelivered_nil (d : MessageDispatch μ) : removeDelivered d [] = [] := rfl

theorem Calm.single {ackType : AckType} (d : MessageDispatch μ) (h : Calm setup s) : Calm setup { s with
      sent := s.sent ++ [singleAck d ackType]
      deliveredMessages := removeDelivered d s.deliveredMessages } := by
  refine h.unmoved ⟨rfl, rfl, rfl, rfl⟩ h.each h.later fun hbatch => ⟨?_, (h.batch hbatch).2⟩
  change removeDelivered d s.deliveredMessages = []
  rw [(h.batch hbatch).1]
  rfl

theorem Calm.submits {s' : Kernel μ} (h : Calm setup s) (hsame : Unmoved s s') (hsubmits : Submits s s') :
    Calm setup s' := by
  cases hsubmits with
  | nothing _ hdelivered hpending hcounter =>
    refine h.unmoved hsame ?_ ?_ ?_ <;> rw [hpending]
    · exact h.each
    · exact h.later
    · rw [hdelivered, hcounter]
      exact h.batch
  | delivered ack hack _ hdelivered hpending =>
    refine h.unmoved hsame (by rw [hpending]; exact h.each) (by rw [hpending]; exact h.later) fun hbatch => ?_
    rw [makeAckForAllDeliveredMessages, (h.batch hbatch).1] at hack
    cases hack
  | pending ack _ _ _ hdelivered hpending =>
    refine h.unmoved hsame (fun _ => hpending) (fun a ha => ?_) fun hbatch => ⟨?_, fun a ha => ?_⟩
    · rw [hpending] at ha
      cases ha
    · rw [hdelivered]
      exact (h.batch hbatch).1
    · rw [hpending] at ha
      cases ha

theorem Calm.after {s' : Kernel μ} {now : Int} {messageExpired : Bool} (h : Calm setup s)
    (hrun : afterMessageIsConsumed setup now d messageExpired s = .ok () s') : Calm setup s' := by
  cases messageExpired with
  | true =>
    rw [after_expired now d h, acknowledgeDispatch_run d _ h.failAt_eq] at hrun
    cases hrun
    exact h.single d
  | false =>
    cases heach : setup.isAutoAcknowledgeEach with
    | true =>
      obtain ⟨s'', hrun', hsame, hnone, -, -⟩ := after_each now d h heach
      cases hrun.symm.trans hrun'
      have hnot : setup.isAutoAcknowledgeBatch = true → False := fun hbatch =>
        Bool.false_ne_true ((isAutoAcknowledgeEach_of_batch hbatch).symm.trans heach)
      exact h.unmoved hsame (fun _ => hnone) (fun a ha => by rw [hnone] at ha; cases ha) fun hb => (hnot hb).elim
    | false =>
      cases hbatch : setup.isAutoAcknowledgeBatch with
      | true =>
        rw [after_batch now d h hbatch] at hrun
        exact ackLater_calm d h heach (by rw [Setup.laterType, if_pos hbatch]) hrun
      | false =>
        rcases after_other now d h heach hbatch with hafter | hafter
        · rw [hafter] at hrun
          exact ackLater_calm d h heach (by rw [Setup.laterType, hbatch]; rfl) hrun
        · cases hrun.symm.trans hafter
          exact h

end Steps

theorem step_calm {setup : Setup} {c c' : Consumption μ} {op : Op μ} (h : Step setup c op c')
    (hcalm : Calm setup c.kernel) : Calm setup c'.kernel := by
  cases h with
  | before d hrun =>
    rw [beforeMessageIsConsumed_run d hcalm.notTransacted] at hrun
    cases hrun
    refine hcalm.unmoved ⟨rfl, rfl, rfl, rfl⟩ hcalm.each hcalm.later fun hbatch => ?_
    rw [if_pos hbatch]
    exact hcalm.batch hbatch
  | after now d messageExpired _ hrun => exact hcalm.after hrun
  | deliverAcks hrun =>
    obtain ⟨s', hrun', hsame, -, hsubmits⟩ := deliverAcks_run setup c.kernel hcalm.each
    cases hrun.symm.trans hrun'
    exact hcalm.submits hsame hsubmits
  | runAckTask hrun =>
    obtain ⟨s', hrun', hsame, hpending, hcounter, hdelivered, -⟩ := runAckTask_run hcalm.failAt_eq
    cases hrun.symm.trans hrun'
    refine hcalm.unmoved hsame ?_ ?_ ?_ <;> rw [hpending]
    · exact hcalm.each
    · exact hcalm.later
    · rw [hdelivered, hcounter]
      exact hcalm.batch
  | acknowledge hrun =>
    obtain ⟨s', hrun', hsame, -, hcases⟩ := acknowledge_run hcalm
    cases hrun.symm.trans hrun'
    rcases hcases with rfl | ⟨hnone, hdelivered, -⟩
    · exact hcalm
    · have hno : ∀ {p : MessageAck μ → Prop} {o : Option (MessageAck μ)}, o = none → ∀ ack, o = some ack → p ack := by
        rintro p _ rfl ack h
        cases h
      exact hcalm.unmoved hsame (fun _ => hnone) (hno hnone) fun _ => ⟨hdelivered, hno hnone⟩
  | acknowledgeDispatch d hrun =>
    rw [acknowledgeDispatch_run d _ hcalm.failAt_eq] at hrun
    cases hrun
    exact hcalm.single d
  | setOptimizeAcknowledge value hrun =>
    obtain ⟨s', hrun', hsame, -, hsubmits⟩ := setOptimizeAcknowledge_run value hcalm.each
    cases hrun.symm.trans hrun'
    exact hcalm.submits hsame hsubmits
  | channel unconsumedMessages hopen =>
    exact ⟨hcalm.failAt_eq, hcalm.notTransacted, hopen, hcalm.notCleared, hcalm.each, hcalm.later, hcalm.batch⟩

section Settling

omit [DecidableEq μ]

variable {setup : Setup} {c : Consumption μ} {s' : Kernel μ} {entries : List (MessageAck μ × List (MessageDispatch μ))}
  {batch : List (MessageDispatch μ)} {l l' : List (MessageDispatch μ)}

theorem Settled.sends (h : Settled setup c entries batch) (hcalm : Calm setup c.kernel) (hcalm' : Calm setup s')
    (hsubmitted : s'.submitted = c.kernel.submitted) (hsends : SendsDelivered c.kernel s')
    (hpending : s'.deliveredMessages = c.kernel.deliveredMessages → s'.pendingAck = c.kernel.pendingAck)
    {inProgress : List (MessageDispatch μ)}
    (hunderway : (⟨s', c.taken, inProgress⟩ : Consumption μ).underway setup = c.underway setup) :
    ∃ entries' batch', Settled setup ⟨s', c.taken, inProgress⟩ entries' batch' := by
  cases hsends with
  | nothing hsent hdelivered =>
    refine ⟨entries, batch, h.quiet ?_ hdelivered (hpending hdelivered) hunderway rfl⟩
    rw [Kernel.finals, Kernel.finals, hsent, hsubmitted]
  | all ack hack hsent hdelivered =>
    have hfinal : ack.ackType.isFinal = true := by
      rw [(makeAck_covers hack).2]
      rfl
    exact ⟨_, _, h.delivered hcalm hcalm' hack (finals_sent hsent hsubmitted hfinal) hdelivered rfl⟩

theorem Settled.submits (h : Settled setup c entries batch) (hcalm : Calm setup c.kernel) (hcalm' : Calm setup s')
    (hsent : s'.sent = c.kernel.sent) (hsubmits : Submits c.kernel s') :
    ∃ entries' batch', Settled setup ⟨s', c.taken, c.inProgress⟩ entries' batch' := by
  cases hsubmits with
  | nothing hsubmitted hdelivered hpending =>
    refine ⟨entries, batch, h.quiet ?_ hdelivered hpending rfl rfl⟩
    rw [Kernel.finals, Kernel.finals, hsent, hsubmitted]
  | delivered ack hack hsubmitted hdelivered =>
    have hfinal : ack.ackType.isFinal = true := by
      rw [(makeAck_covers hack).2]
      rfl
    exact ⟨_, _, h.delivered hcalm hcalm' hack (finals_submitted hsent hsubmitted hfinal) hdelivered rfl⟩
  | pending ack hack htype hsubmitted hdelivered hnone =>
    have hfinal : ack.ackType.isFinal = true := by
      rw [htype]
      rfl
    have hcovers : Covers ack batch := by
      have hpending := h.pending
      simp only [PendingCovers, hack, htype, if_true] at hpending
      exact hpending
    refine ⟨_, [], h.settle (finals_submitted hsent hsubmitted hfinal) hcovers ?_ ?_ rfl⟩
    · simp only [PendingCovers, hnone]
    · simp only [Consumption.held, hdelivered, append_nil, map_append]
      rw [← append_assoc]
      exact perm_append_comm.append_right _

theorem Settled.batched {d : MessageDispatch μ} (h : Settled setup c entries batch) (hcalm : Calm setup c.kernel)
    (hbatch : setup.isAutoAcknowledgeBatch = true) (hprogress : c.inProgress = l ++ d :: l')
    (hcounter : c.kernel.pendingAck = none → c.kernel.deliveredCounter = 0)
    (hrun : ackLater setup d .consumed c.kernel = .ok () s') :
    ∃ entries' batch', Settled setup ⟨s', c.taken, l ++ l'⟩ entries' batch' := by
  have hlater : setup.laterType = .consumed := if_pos hbatch
  have hcovers := nextPendingAck_covers d hcalm hbatch h.pending hcounter
  obtain ⟨htype, -, -⟩ := nextPendingAck_fields d .consumed
    { c.kernel with deliveredCounter := c.kernel.deliveredCounter + 1 }
  rw [ackLater_run d hcalm.failAt_eq hcalm.notTransacted (by rw [← hlater]; exact hcalm.later)] at hrun
  have hheld : ∀ s'' : Kernel μ, s''.deliveredMessages = c.kernel.deliveredMessages →
      ((⟨s'', c.taken, l ++ l'⟩ : Consumption μ).held setup (d :: batch)).Perm (c.held setup batch) := by
    intro s'' hdelivered
    rw [Consumption.held, Consumption.held, hdelivered, underway_of_batch hbatch, underway_of_batch hbatch, hprogress,
      (hcalm.batch hbatch).1]
    simp only [nil_append, map_append, map_cons, cons_append]
    refine List.Perm.trans ?_ (perm_middle.append_left _).symm
    exact perm_middle.symm
  simp only at hrun
  split_ifs at hrun
  · cases hrun
    refine ⟨_, [], h.settle (finals_sent rfl rfl (by rw [htype]; rfl)) hcovers rfl ?_ rfl⟩
    refine List.Perm.trans ?_ (hheld c.kernel rfl)
    rw [Consumption.held, Consumption.held, (hcalm.batch hbatch).1, underway_of_batch hbatch, underway_of_batch hbatch]
    simp only [nil_append, map_append, List.Perm.refl]
  · cases hrun
    refine ⟨entries, d :: batch, h.keep [] (.refl _) ?_ (hheld _ rfl) (append_nil _).symm⟩
    simp only [PendingCovers, htype, if_true]
    exact hcovers

theorem Settled.noted {d : MessageDispatch μ} (h : Settled setup c entries batch) (hcalm : Calm setup c.kernel)
    (heach : setup.isAutoAcknowledgeEach = false) (hnot : setup.isAutoAcknowledgeBatch = false)
    {inProgress : List (MessageDispatch μ)} (hrun : ackLater setup d .delivered c.kernel = .ok () s') :
    Settled setup ⟨s', c.taken, inProgress⟩ entries batch := by
  have hlater : setup.laterType = .delivered := by
    rw [Setup.laterType, hnot]
    rfl
  have hcalm' : Calm setup s' := ackLater_calm d hcalm heach hlater.symm hrun
  have hnil : batch = [] := (pendingCovers_iff hcalm hnot).mp h.pending
  obtain ⟨htype, -, -⟩ := nextPendingAck_fields d .delivered
    { c.kernel with deliveredCounter := c.kernel.deliveredCounter + 1 }
  rw [ackLater_run d hcalm.failAt_eq hcalm.notTransacted (by rw [← hlater]; exact hcalm.later)] at hrun
  have hkeep : s'.finals = c.kernel.finals ∧ s'.deliveredMessages = c.kernel.deliveredMessages := by
    simp only at hrun
    split_ifs at hrun <;> cases hrun
    · exact ⟨finals_sent_other rfl rfl (by rw [htype]; rfl), rfl⟩
    · exact ⟨rfl, rfl⟩
  refine h.keep [] (by rw [hkeep.1]) ((pendingCovers_iff hcalm' hnot).mpr hnil) ?_ (append_nil _).symm
  rw [Consumption.held, Consumption.held, hkeep.2, underway_of_not hnot, underway_of_not hnot]
  exact .refl _

end Settling

section Balancing

variable {setup : Setup} {c c' : Consumption μ} {op : Op μ} {entries : List (MessageAck μ × List (MessageDispatch μ))}
  {batch : List (MessageDispatch μ)}
variable {d : MessageDispatch μ}

omit [DecidableEq μ] in
theorem after_settled {s' : Kernel μ} {now : Int} {messageExpired : Bool}
    {l l' : List (MessageDispatch μ)} (hprogress : c.inProgress = l ++ d :: l')
    (hrun : afterMessageIsConsumed setup now d messageExpired c.kernel = .ok () s') (hcalm : Calm setup c.kernel)
    (hmeets : Meets setup c.kernel (.after now d messageExpired)) (h : Settled setup c entries batch) :
    ∃ entries' batch', Settled setup ⟨s', c.taken, l ++ l'⟩ entries' batch' := by
  have hcalm' : Calm setup s' := hcalm.after hrun
  cases messageExpired with
  | true =>
    rw [after_expired now d hcalm, acknowledgeDispatch_run d _ hcalm.failAt_eq] at hrun
    cases hrun
    refine ⟨_, _, h.single d rfl rfl ?_ rfl⟩
    cases hbatch : setup.isAutoAcknowledgeBatch with
    | false =>
      rw [underway_of_not hbatch, underway_of_not hbatch, append_nil, append_nil]
      exact removeDelivered_perm (hmeets hbatch)
    | true =>
      rw [underway_of_batch hbatch, underway_of_batch hbatch, hprogress, (hcalm.batch hbatch).1, removeDelivered_nil]
      simp only [nil_append, map_append, map_cons]
      exact perm_middle
  | false =>
    cases hbatch : setup.isAutoAcknowledgeBatch with
    | true =>
      rw [after_batch now d hcalm hbatch] at hrun
      exact h.batched hcalm hbatch hprogress (hmeets hbatch) hrun
    | false =>
      have hunderway : (⟨s', c.taken, l ++ l'⟩ : Consumption μ).underway setup = c.underway setup := by
        rw [underway_of_not hbatch, underway_of_not hbatch]
      cases heach : setup.isAutoAcknowledgeEach with
      | true =>
        obtain ⟨s'', hrun', -, hnone, hsubmitted, hsends⟩ := after_each now d hcalm heach
        cases hrun.symm.trans hrun'
        exact h.sends hcalm hcalm' hsubmitted hsends (fun _ => hnone.trans (hcalm.each heach).symm) hunderway
      | false =>
        rcases after_other now d hcalm heach hbatch with hafter | hafter
        · rw [hafter] at hrun
          exact ⟨entries, batch, h.noted hcalm heach hbatch hrun⟩
        · cases hrun.symm.trans hafter
          exact ⟨entries, batch, h.quiet (.refl _) rfl rfl hunderway rfl⟩

theorem step_settled (hstep : Step setup c op c') (hcalm : Calm setup c.kernel) (hmeets : Meets setup c.kernel op)
    (h : Settled setup c entries batch) : ∃ entries' batch', Settled setup c' entries' batch' := by
  have hcalm' := step_calm hstep hcalm
  cases hstep with
  | before d hrun =>
    rw [beforeMessageIsConsumed_run d hcalm.notTransacted] at hrun
    cases hrun
    refine ⟨entries, batch, h.keep [d] (.refl _) h.pending ?_ rfl⟩
    cases hbatch : setup.isAutoAcknowledgeBatch with
    | true =>
      simp only [Consumption.held, underway_of_batch hbatch, if_true, map_append, map_cons, map_nil]
      exact perm_middle
    | false =>
      simp only [Consumption.held, underway_of_not hbatch, Bool.false_eq_true, if_false, map_append,
        map_cons, map_nil, append_nil, cons_append, nil_append, List.Perm.refl]
  | after now d messageExpired hprogress hrun => exact after_settled hprogress hrun hcalm hmeets h
  | deliverAcks hrun =>
    obtain ⟨s', hrun', -, hsent, hsubmits⟩ := deliverAcks_run setup c.kernel hcalm.each
    cases hrun.symm.trans hrun'
    exact h.submits hcalm hcalm' hsent hsubmits
  | runAckTask hrun =>
    obtain ⟨s', hrun', -, hpending, -, hdelivered, hfinals⟩ := runAckTask_run hcalm.failAt_eq
    cases hrun.symm.trans hrun'
    exact ⟨entries, batch, h.quiet (by rw [hfinals]) hdelivered hpending rfl rfl⟩
  | acknowledge hrun =>
    obtain ⟨s', hrun', -, hsubmitted, hcases⟩ := acknowledge_run hcalm
    cases hrun.symm.trans hrun'
    rcases hcases with heq | ⟨-, hdelivered, ack, hack, hsent⟩
    · rw [heq]
      exact ⟨entries, batch, h⟩
    · have hfinal : ack.ackType.isFinal = true := by
        rw [(makeAck_covers hack).2]
        rfl
      exact ⟨_, _, h.delivered hcalm hcalm' hack (finals_sent hsent hsubmitted hfinal) hdelivered rfl⟩
  | acknowledgeDispatch d hrun =>
    rw [acknowledgeDispatch_run d _ hcalm.failAt_eq] at hrun
    cases hrun
    refine ⟨_, _, h.single d rfl rfl ?_ rfl⟩
    have hunderway : ∀ (s : Kernel μ), (⟨s, c.taken, c.inProgress⟩ : Consumption μ).underway setup = c.underway setup :=
      fun _ => rfl
    rw [hunderway, map_append, map_append, ← cons_append]
    exact (removeDelivered_perm hmeets).append_right _
  | setOptimizeAcknowledge value hrun =>
    obtain ⟨s', hrun', -, hsent, hsubmits⟩ := setOptimizeAcknowledge_run value hcalm.each
    cases hrun.symm.trans hrun'
    exact h.submits hcalm hcalm' hsent hsubmits
  | channel => exact ⟨entries, batch, h.quiet (.refl _) rfl rfl rfl rfl⟩

omit [DecidableEq μ] in
theorem unbalanced_single {ackType : AckType} {inProgress : List (MessageDispatch μ)}
    (h : Balanced setup c) (hfinal : ackType.isFinal = true) (hdelivered : ¬c.kernel.Delivered d)
    (hunderway : ∀ s, (⟨s, c.taken, inProgress⟩ : Consumption μ).underway setup = c.underway setup) :
    ¬Balanced setup ⟨{ c.kernel with
      sent := c.kernel.sent ++ [singleAck d ackType]
      deliveredMessages := removeDelivered d c.kernel.deliveredMessages }, c.taken, inProgress⟩ := by
  intro h'
  obtain ⟨hcovers, htype⟩ := singleAck_covers d ackType
  have hfinals : (finals { c.kernel with
      sent := c.kernel.sent ++ [singleAck d ackType]
      deliveredMessages := removeDelivered d c.kernel.deliveredMessages }).Perm
        (singleAck d ackType :: c.kernel.finals) := finals_sent rfl rfl (by rw [htype]; exact hfinal)
  have hsum := (hfinals.map messageCount).sum_eq
  rw [map_cons, sum_cons, hcovers.1] at hsum
  rw [Balanced, hunderway, hsum, removeDelivered_of_not hdelivered] at h'
  rw [Balanced] at h
  change (([d].length : Nat) : Int) + (c.kernel.finals.map messageCount).sum +
    (c.kernel.deliveredMessages.length : Int) + c.kernel.pendingCount + ((c.underway setup).length : Int)
      = (c.taken.length : Int) at h'
  rw [length_singleton] at h'
  omega

omit [DecidableEq μ] in
theorem unbalanced_batch {s' : Kernel μ} {l l' : List (MessageDispatch μ)}
    (h : Balanced setup c) (hcalm : Calm setup c.kernel) (hbatch : setup.isAutoAcknowledgeBatch = true)
    (hprogress : c.inProgress = l ++ d :: l') (hnone : c.kernel.pendingAck = none)
    (hcounter : c.kernel.deliveredCounter ≠ 0) (hrun : ackLater setup d .consumed c.kernel = .ok () s') :
    ¬Balanced setup ⟨s', c.taken, l ++ l'⟩ := by
  intro h'
  obtain ⟨htype, hcount, -⟩ := nextPendingAck_fields d .consumed
    { c.kernel with deliveredCounter := c.kernel.deliveredCounter + 1 }
  rw [ackLater_run d hcalm.failAt_eq hcalm.notTransacted (fun old hold => by rw [hnone] at hold; cases hold)] at hrun
  have hcounts : (s'.finals.map messageCount).sum + s'.pendingCount
      = c.kernel.deliveredCounter + 1 + (c.kernel.finals.map messageCount).sum ∧
      s'.deliveredMessages = c.kernel.deliveredMessages := by
    simp only at hrun
    split_ifs at hrun
    · obtain ⟨hsent, hsubmitted, hnone', hdelivered⟩ : s'.sent = _ ∧ s'.submitted = _ ∧ s'.pendingAck = none ∧
          s'.deliveredMessages = _ := by
        cases hrun
        exact ⟨rfl, rfl, rfl, rfl⟩
      have hfinals := finals_sent hsent hsubmitted (by rw [htype]; rfl)
      rw [(hfinals.map messageCount).sum_eq, map_cons, sum_cons, hcount, pendingCount, hnone']
      exact ⟨add_zero _, hdelivered⟩
    · cases hrun
      simp only [pendingCount, htype, if_true, hcount]
      exact ⟨add_comm _ _, trivial⟩
  have hlength : (c.inProgress.length : Int) = (l ++ l').length + 1 := by
    rw [hprogress, length_append, length_append, length_cons]
    omega
  have hpending : c.kernel.pendingCount = 0 := by
    rw [pendingCount, hnone]
  rw [Balanced, underway_of_batch hbatch, hpending] at h
  rw [Balanced, underway_of_batch hbatch] at h'
  simp only [hcounts.2] at h'
  omega

theorem step_unbalanced (hstep : Step setup c op c') (hcalm : Calm setup c.kernel) (h : Balanced setup c)
    (hmeets : ¬Meets setup c.kernel op) : ¬Balanced setup c' := by
  cases hstep with
  | after now d messageExpired hprogress hrun =>
    cases messageExpired with
    | true =>
      simp only [Meets, Classical.not_imp] at hmeets
      rw [after_expired now d hcalm, acknowledgeDispatch_run d _ hcalm.failAt_eq] at hrun
      cases hrun
      refine unbalanced_single h rfl hmeets.2 fun s => ?_
      rw [underway_of_not hmeets.1, underway_of_not hmeets.1]
    | false =>
      simp only [Meets, Classical.not_imp] at hmeets
      obtain ⟨hbatch, hnone, hcounter⟩ := hmeets
      rw [after_batch now d hcalm hbatch] at hrun
      exact unbalanced_batch h hcalm hbatch hprogress hnone hcounter hrun
  | acknowledgeDispatch d hrun =>
    rw [acknowledgeDispatch_run d _ hcalm.failAt_eq] at hrun
    cases hrun
    exact unbalanced_single h rfl hmeets fun _ => rfl
  | before | deliverAcks | runAckTask | acknowledge | setOptimizeAcknowledge | channel => exact absurd trivial hmeets

theorem Run.settled (hmode : setup.ackMode ≠ .transacted) (h : Run setup (Meets setup) c) :
    Calm setup c.kernel ∧ ∃ entries batch, Settled setup c entries batch := by
  induction h with
  | new optimizeAcknowledge optimizeAckTimestamp =>
    constructor
    · have hno : ∀ {p : MessageAck μ → Prop} (ack : MessageAck μ), none = some ack → p ack := by
        intro p ack hack
        cases hack
      refine ⟨rfl, ?_, rfl, rfl, fun _ => rfl, hno, fun _ => ⟨rfl, hno⟩⟩
      simp only [isTransacted, hmode, decide_false, Bool.or_false]
    · refine ⟨[], [], .refl _, forall_mem_nil _, rfl, ?_⟩
      cases hbatch : setup.isAutoAcknowledgeBatch with
      | true =>
        rw [Consumption.held, underway_of_batch hbatch]
        exact .refl _
      | false =>
        rw [Consumption.held, underway_of_not hbatch]
        exact .refl _
  | step _ hstep hmeets ih =>
    obtain ⟨hcalm, entries, batch, hsettled⟩ := ih
    exact ⟨step_calm hstep hcalm, step_settled hstep hcalm hmeets hsettled⟩

/-- In a run that meets the condition every message taken is counted once: the final acknowledgements, the
delivered messages and the pending acknowledgement of a batch add up to the messages taken, and each of
the acknowledgements is for messages that no other one is for. A step keeps the balance exactly when it
meets the condition. -/
theorem acks_balanced (hmode : setup.ackMode ≠ .transacted) (h : Run setup (Meets setup) c) :
    Balanced setup c ∧ (∃ entries batch, Settled setup c entries batch) ∧
      ∀ op c', Step setup c op c' → (Balanced setup c' ↔ Meets setup c.kernel op) := by
  obtain ⟨hcalm, entries, batch, hsettled⟩ := h.settled hmode
  refine ⟨hsettled.balanced, ⟨entries, batch, hsettled⟩, fun op c' hstep => ⟨fun hbalanced => ?_, fun hmeets => ?_⟩⟩
  · by_contra hmeets
    exact step_unbalanced hstep hcalm hsettled.balanced hmeets hbalanced
  · obtain ⟨entries', batch', hsettled'⟩ := step_settled hstep hcalm hmeets hsettled
    exact hsettled'.balanced

end Balancing

/-! ### A batch that is interrupted -/

def topicSetup : Setup := { ackMode := .dupsOk, isQueue := false, prefetchSize := 100 }

def firstDispatch : MessageDispatch Nat := { ref := 1, message := { messageId := 11 } }

def secondDispatch : MessageDispatch Nat := { ref := 2, message := { messageId := 12 } }

theorem Run.consume {setup : Setup} {condition : Kernel Nat → Op Nat → Prop} {c : Consumption Nat} {s s' : Kernel Nat}
    (d : MessageDispatch Nat) (h : Run setup condition c) (hidle : c.inProgress = [])
    (hbefore : beforeMessageIsConsumed setup d c.kernel = .ok () s)
    (hafter : afterMessageIsConsumed setup 0 d false s = .ok () s')
    (hcondition : condition c.kernel (.before d) ∧ condition s (.after 0 d false)) :
    Run setup condition ⟨s', c.taken ++ [d], []⟩ := by
  refine (h.step (.before d hbefore) hcondition.1).step ?_ hcondition.2
  have hprogress : d :: c.inProgress = [] ++ d :: [] := by
    rw [hidle]
    rfl
  exact Step.after (c := ⟨s, c.taken ++ [d], d :: c.inProgress⟩) 0 d false hprogress hafter

def afterFirst : Kernel Nat :=
  { lastDeliveredSequenceId := 0
    pendingAck := some { ackType := .consumed, messageCount := 1, firstMessageId := some 11, lastMessageId := 11 }
    deliveredCounter := 1 }

/-- The first message has been acknowledged, and still is counted with the second. -/
def afterSecond : Kernel Nat :=
  { lastDeliveredSequenceId := 0
    pendingAck := some { ackType := .consumed, messageCount := 2, firstMessageId := some 12, lastMessageId := 12 }
    deliveredCounter := 2
    sent := [{ ackType := .consumed, messageCount := 1, firstMessageId := some 11, lastMessageId := 11 }] }

theorem acks_balanced_first :
    Balanced topicSetup ⟨afterFirst, [firstDispatch], []⟩ := by
  have hrun : Run topicSetup (Meets topicSetup) ⟨afterFirst, [firstDispatch], []⟩ :=
    (Run.new false 0).consume firstDispatch rfl rfl rfl ⟨trivial, fun _ _ => rfl⟩
  exact (acks_balanced (by decide) hrun).1

/-- The pending acknowledgement of the first message is delivered before the second message is consumed. -/
theorem acks_unbalanced_after_deliverAcks :
    ¬∀ (setup : Setup) (c : Consumption Nat), setup.ackMode ≠ .transacted → Run setup (fun _ _ => True) c →
      Balanced setup c := by
  intro hall
  have hfirst : Run topicSetup (fun _ _ => True) ⟨afterFirst, [firstDispatch], []⟩ :=
    (Run.new false 0).consume firstDispatch rfl rfl rfl ⟨trivial, trivial⟩
  have hdelivered := (hfirst.step (.deliverAcks rfl) trivial).step (.runAckTask rfl) trivial
  have hsecond : Run topicSetup (fun _ _ => True) ⟨afterSecond, [firstDispatch, secondDispatch], []⟩ :=
    hdelivered.consume secondDispatch rfl rfl rfl ⟨trivial, trivial⟩
  exact absurd (hall topicSetup _ (by decide) hsecond) (by decide)

end ActiveMQCpp.Core
