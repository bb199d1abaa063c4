import ActiveMQCpp.CoreRollback

/-! What a rollback does with the delivered messages. -/

namespace ActiveMQCpp.Core

open Codec List

variable {μ : Type}
variable {s p : Kernel μ} {setup : Setup}

/-! ### Messages that are not redelivered -/

/-- Some of the delivered messages are rolled back in the audit and forgotten. -/
def Drops (s s' : Kernel μ) : Prop :=
  ∃ kept removed previously, kept.Sublist s.deliveredMessages ∧ (kept ++ removed).Perm s.deliveredMessages ∧
    s' = { s with
      deliveredMessages := kept
      rolledBack := s.rolledBack ++ removed.map MessageDispatch.message
      previouslyDeliveredMessages := previously }

theorem Drops.refl (s : Kernel μ) : Drops s s := by
  refine ⟨s.deliveredMessages, [], s.previouslyDeliveredMessages, .refl _, ?_, ?_⟩
  · rw [append_nil]
  · rw [map_nil, append_nil]

theorem Drops.trans {s' s'' : Kernel μ} (h : Drops s s') (h' : Drops s' s'') : Drops s s'' := by
  obtain ⟨kept, removed, previously, hsub, hperm, rfl⟩ := h
  obtain ⟨kept', removed', previously', hsub', hperm', rfl⟩ := h'
  refine ⟨kept', removed ++ removed', previously', hsub'.trans hsub, ?_, ?_⟩
  · refine (perm_append_comm.append_left _).trans ?_
    rw [← append_assoc]
    exact (hperm'.append_right _).trans hperm
  · rw [map_append, ← append_assoc]

theorem rollbackUnacknowledged_drops (fuel i : Nat) (s : Kernel μ) :
    ∃ s', rollbackUnacknowledged fuel i s = .ok () s' ∧ Drops s s' := by
  induction fuel generalizing i s with
  | zero => exact ⟨s, rfl, .refl s⟩
  | succ fuel ih =>
    rw [rollbackUnacknowledged, bind_ok (get_run s)]
    split_ifs
    · cases hlast : s.deliveredMessages.getLast? with
      | none => exact ⟨s, rfl, .refl s⟩
      | some md =>
        have hdrop : Drops s { s with
            deliveredMessages := s.deliveredMessages.dropLast
            rolledBack := s.rolledBack ++ [md.message] } := by
          refine ⟨_, [md], s.previouslyDeliveredMessages, dropLast_sublist _, ?_, rfl⟩
          rw [dropLast_append_getLast? md hlast]
        obtain ⟨s', hrun, hdrops⟩ := ih (i + 1) { s with
          deliveredMessages := s.deliveredMessages.dropLast
          rolledBack := s.rolledBack ++ [md.message] }
        exact ⟨s', hrun, hdrop.trans hdrops⟩
    · exact ⟨s, rfl, .refl s⟩

section Ids

variable [DecidableEq μ]

theorem removeFromDeliveredMessages_drops (key : μ) (s : Kernel μ) :
    ∃ s', removeFromDeliveredMessages key s = .ok () s' ∧ Drops s s' := by
  rw [removeFromDeliveredMessages, bind_ok (get_run s)]
  cases hfind : s.deliveredMessages.find? fun d => d.message.messageId = key with
  | none => exact ⟨s, rfl, .refl s⟩
  | some candidate =>
    refine ⟨_, rfl, ?_⟩
    obtain ⟨hkey, before, after, heq, hbefore⟩ := List.find?_eq_some_iff_append.mp hfind
    have herase : s.deliveredMessages.eraseP (fun d => d.message.messageId = key) = before ++ after := by
      rw [heq, eraseP_append_right _ fun b hb => by simpa using hbefore b hb,
        eraseP_cons_of_pos (p := fun d : MessageDispatch μ => decide (d.message.messageId = key)) hkey]
    refine ⟨_, [candidate], s.previouslyDeliveredMessages, eraseP_sublist, ?_, rfl⟩
    rw [herase, heq]
    exact (perm_append_singleton _ _).trans perm_middle.symm

theorem rollbackNotRedelivered_drops (entries : List (μ × Bool)) (s : Kernel μ) :
    ∃ s', rollbackNotRedelivered entries s = .ok () s' ∧ Drops s s' := by
  induction entries generalizing s with
  | nil => exact ⟨s, rfl, .refl s⟩
  | cons entry entries ih =>
    obtain ⟨key, redelivered⟩ := entry
    cases redelivered with
    | true => exact ih s
    | false =>
      obtain ⟨s₁, hrun₁, hdrops₁⟩ := removeFromDeliveredMessages_drops key s
      obtain ⟨s₂, hrun₂, hdrops₂⟩ := ih s₁
      refine ⟨s₂, ?_, hdrops₁.trans hdrops₂⟩
      rw [rollbackNotRedelivered]
      exact (bind_ok hrun₁).trans hrun₂

theorem rollbackPreviouslyDeliveredAndNotRedelivered_drops (s : Kernel μ) :
    ∃ s', rollbackPreviouslyDeliveredAndNotRedelivered s = .ok () s' ∧ Drops s s' := by
  rw [rollbackPreviouslyDeliveredAndNotRedelivered, bind_ok (get_run s)]
  cases s.previouslyDeliveredMessages with
  | none => exact ⟨s, rfl, .refl s⟩
  | some entries =>
    obtain ⟨s', hrun, kept, removed, previously, hsub, hperm, heq⟩ := rollbackNotRedelivered_drops entries s
    refine ⟨{ s' with previouslyDeliveredMessages := none }, (bind_ok hrun).trans rfl, kept, removed, none, hsub, hperm, ?_⟩
    rw [heq]

theorem clearDeliveredList_run (setup : Setup) (s : Kernel μ) :
    ∃ s₁, clearDeliveredList setup s = .ok () s₁ ∧ s₁.deliveredMessages.Sublist s.deliveredMessages ∧
      s₁.unconsumedMessages = s.unconsumedMessages ∧ s₁.failAt = s.failAt ∧
      (s.isClearDeliveredList = false → s₁ = s) := by
  refine ⟨_, modify_run _ s, ?_⟩
  cases hclear : s.isClearDeliveredList with
  | false => exact ⟨.refl _, rfl, rfl, fun _ => rfl⟩
  | true =>
    simp only [Bool.not_true, Bool.false_eq_true, if_false]
    by_cases hempty : s.deliveredMessages.isEmpty = true
    · rw [if_pos hempty]
      exact ⟨.refl _, rfl, rfl, fun h => by cases h⟩
    · rw [if_neg hempty]
      by_cases htransacted : isTransacted setup s = true
      · rw [if_pos htransacted]
        exact ⟨.refl _, rfl, rfl, fun h => by cases h⟩
      · rw [if_neg htransacted]
        exact ⟨nil_sublist _, rfl, rfl, fun h => by cases h⟩

theorem prepareRollback_drops {setup : Setup} {s₁ : Kernel μ} (s : Kernel μ)
    (hclear : clearDeliveredList setup s = .ok () s₁) : ∃ p, prepareRollback setup s = .ok () p ∧ Drops s₁ p := by
  rw [prepareRollback, bind_ok hclear, bind_ok (get_run s₁)]
  split_ifs
  · obtain ⟨s₂, hrun₂, hdrops₂⟩ := rollbackUnacknowledged_drops s₁.deliveredMessages.length 0 s₁
    obtain ⟨p, hrun, hdrops⟩ := rollbackPreviouslyDeliveredAndNotRedelivered_drops s₂
    exact ⟨p, (bind_ok hrun₂).trans hrun, hdrops₂.trans hdrops⟩
  · exact rollbackPreviouslyDeliveredAndNotRedelivered_drops s₁

end Ids

/-! ### Redelivery -/

/-- The delivered messages, the oldest first, with their counters raised. -/
def Kernel.redeliveries (p : Kernel μ) : List (MessageDispatch μ) :=
  (p.deliveredMessages.map MessageDispatch.redelivered).reverse

/-- There are delivered messages, and the newest of them has not been redelivered too often. -/
def Kernel.Redelivers (setup : Setup) (p : Kernel μ) : Prop :=
  ∃ newest older, p.deliveredMessages = newest :: older ∧ isPoison setup newest = false

/-- The messages that were delivered when `p` was reached, before a listener comes into it. -/
structure Moved (setup : Setup) (p s' : Kernel μ) : Prop where
  rolledBack : s'.rolledBack = p.rolledBack ++ p.deliveredMessages.map fun d => d.message.redelivered
  forgotten : setup.nonBlockingRedelivery = false ∨ p.unconsumedMessages.closed = false → s'.deliveredMessages = []
  kept : setup.nonBlockingRedelivery = true → p.unconsumedMessages.closed = true →
    s'.deliveredMessages = p.deliveredMessages.map MessageDispatch.redelivered
  scheduled : setup.nonBlockingRedelivery = true → s'.scheduled =
    if p.unconsumedMessages.closed then p.scheduled
    else p.scheduled ++ [(.nonBlockingRedelivery p.redeliveries, s'.redeliveryDelay)]

/-- The channel with the messages that go back to it. -/
def Kernel.refilled (setup : Setup) (p : Kernel μ) : Channels μ :=
  if setup.nonBlockingRedelivery then p.unconsumedMessages.held else putBack p.redeliveries p.unconsumedMessages.held

/-- What has become of the messages. With a listener the session gets what the channel holds. -/
structure Redelivered (setup : Setup) (p s' : Kernel μ) : Prop extends Moved setup p s' where
  channel : setup.hasListener = false → s'.unconsumedMessages.held = p.refilled setup
  session : setup.hasListener = true → s'.unconsumedMessages.held.messages = [] ∧
    s'.sessionMessages.held = putBack (p.refilled setup).messages p.sessionMessages.held

theorem redeliverNow_run (s : Kernel μ) :
    ∃ s', redeliverNow s = .ok () s' ∧ s'.rolledBack = s.rolledBack ∧ s'.deliveredMessages = [] ∧
      s'.unconsumedMessages.held = putBack s.deliveredMessages.reverse s.unconsumedMessages.held ∧
      s'.sessionMessages = s.sessionMessages := by
  rw [redeliverNow, bind_ok (modify_run _ s), bind_ok (get_run _)]
  have hheld := congrArg MessageDispatchChannel.held (foldl_enqueueFirst s.deliveredMessages s.unconsumedMessages.stop)
  split_ifs
  · exact ⟨_, modify_run _ _, rfl, rfl, hheld, rfl⟩
  · refine ⟨_, modify_run _ _, ?_⟩
    split_ifs
    · exact ⟨rfl, rfl, hheld, rfl⟩
    · exact ⟨rfl, rfl, (start_held _).trans hheld, rfl⟩

theorem redispatch_run (s : Kernel μ) :
    ∃ s', redispatch s = .ok () s' ∧ s'.rolledBack = s.rolledBack ∧ s'.deliveredMessages = s.deliveredMessages ∧
      s'.scheduled = s.scheduled ∧ s'.redeliveryDelay = s.redeliveryDelay ∧
      s'.unconsumedMessages.held.messages = [] ∧
      s'.sessionMessages.held = putBack s.unconsumedMessages.held.messages s.sessionMessages.held := by
  refine ⟨_, modify_run _ s, rfl, rfl, rfl, rfl, ?_, ?_⟩
  · simp only [removeAll]
    cases s.unconsumedMessages.held with
    | fifo channel => rfl
    | priority channels => exact flatMap_eq_nil_iff.mpr fun _ _ => rfl
  · simp only [removeAll, foldl_enqueueFirst, reverse_reverse]

/-- The counters have been raised, and the rest is as when `p` was reached. -/
structure Counted (p s : Kernel μ) : Prop where
  deliveredMessages : s.deliveredMessages = p.deliveredMessages.map MessageDispatch.redelivered
  rolledBack : s.rolledBack = p.rolledBack ++ p.deliveredMessages.map fun d => d.message.redelivered
  unconsumedMessages : s.unconsumedMessages = p.unconsumedMessages
  sessionMessages : s.sessionMessages = p.sessionMessages
  scheduled : s.scheduled = p.scheduled

theorem redeliverNow_moved (h : Counted p s) (hblocking : setup.nonBlockingRedelivery = false) :
    ∃ s', redeliverNow s = .ok () s' ∧ Moved setup p s' ∧ s'.unconsumedMessages.held = p.refilled setup ∧
      s'.sessionMessages = p.sessionMessages := by
  obtain ⟨s', hrun, hrolledBack, hnil, hheld, hsession⟩ := redeliverNow_run s
  have hnot : setup.nonBlockingRedelivery = true → False := fun h => Bool.false_ne_true (hblocking.symm.trans h)
  refine ⟨s', hrun, ⟨hrolledBack.trans h.rolledBack, fun _ => hnil, fun h => (hnot h).elim, fun h => (hnot h).elim⟩, ?_,
    hsession.trans h.sessionMessages⟩
  rw [hheld, h.deliveredMessages, h.unconsumedMessages, Kernel.refilled, if_neg hnot]
  rfl

theorem redeliverLater_moved (h : Counted p s) (hblocking : setup.nonBlockingRedelivery = true) :
    ∃ s', redeliverLater s = .ok () s' ∧ Moved setup p s' ∧ s'.unconsumedMessages.held = p.refilled setup ∧
      s'.sessionMessages = p.sessionMessages := by
  refine ⟨_, modify_run _ s, ?_⟩
  have hrefilled : p.refilled setup = p.unconsumedMessages.held := if_pos hblocking
  rw [hrefilled, h.unconsumedMessages]
  cases hclosed : p.unconsumedMessages.closed with
  | true =>
    rw [if_pos rfl]
    refine ⟨⟨h.rolledBack, fun hor => ?_, fun _ _ => h.deliveredMessages, fun _ => ?_⟩, ?_, h.sessionMessages⟩
    · rw [hblocking, hclosed] at hor
      rcases hor with hor | hor <;> cases hor
    · rw [if_pos hclosed]
      exact h.scheduled
    · rw [h.unconsumedMessages]
  | false =>
    rw [if_neg Bool.false_ne_true]
    refine ⟨⟨h.rolledBack, fun _ => rfl, fun _ hc => ?_, fun _ => ?_⟩, rfl, h.sessionMessages⟩
    · exact absurd (hclosed.symm.trans hc) Bool.false_ne_true
    · rw [if_neg (by rw [hclosed]; exact Bool.false_ne_true), ← h.scheduled, Kernel.redeliveries, ← h.deliveredMessages]

theorem moveDelivered_moved (h : Counted p s) :
    ∃ s', moveDelivered setup s = .ok () s' ∧ Moved setup p s' ∧ s'.unconsumedMessages.held = p.refilled setup ∧
      s'.sessionMessages = p.sessionMessages := by
  rw [moveDelivered]
  cases hblocking : setup.nonBlockingRedelivery with
  | true => exact redeliverLater_moved h hblocking
  | false => exact redeliverNow_moved h hblocking

theorem redispatch_redelivered {s₁ : Kernel μ} (hmoved : Moved setup p s₁)
    (hchannel : s₁.unconsumedMessages.held = p.refilled setup) (hsession : s₁.sessionMessages = p.sessionMessages) :
    ∃ s', (if setup.hasListener then redispatch else pure ()) s₁ = .ok () s' ∧ Redelivered setup p s' := by
  cases hlistener : setup.hasListener with
  | false =>
    refine ⟨s₁, rfl, hmoved, fun _ => hchannel, fun h => ?_⟩
    exact absurd (hlistener.symm.trans h) Bool.false_ne_true
  | true =>
    obtain ⟨s', hrun', hrolledBack, hdelivered, hscheduled, hdelay, hempty, hheld⟩ := redispatch_run s₁
    rw [hchannel, hsession] at hheld
    refine ⟨s', hrun', ⟨hrolledBack.trans hmoved.rolledBack, fun h => hdelivered.trans (hmoved.forgotten h),
      fun h h' => hdelivered.trans (hmoved.kept h h'), fun h => ?_⟩, fun h => ?_, fun _ => ⟨hempty, hheld⟩⟩
    · rw [hscheduled, hdelay]
      exact hmoved.scheduled h
    · exact absurd (hlistener.symm.trans h) (by decide)

theorem countRedelivery_counted (setup : Setup) (newest : MessageDispatch μ) (p : Kernel μ) :
    ∃ s, countRedelivery setup newest p = .ok () s ∧ Counted p s ∧ s.failAt = p.failAt :=
  ⟨_, modify_run _ p, ⟨rfl, rfl, rfl, rfl, rfl⟩, rfl⟩

theorem sendRedeliveredAck_counted (newest : MessageDispatch μ) (h : Counted p s) :
    (∃ s', sendRedeliveredAck newest s = .ok () s' ∧ Counted p s') ∨
      s.failAt ≠ none ∧ ∃ e s', sendRedeliveredAck newest s = .error e s' := by
  rw [sendRedeliveredAck, bind_ok (get_run s)]
  split_ifs
  · rw [sendAck]
    split_ifs with hfails
    · exact .inr ⟨by rw [hfails]; exact Option.some_ne_none _, _, _, rfl⟩
    · exact .inl ⟨_, rfl, ⟨h.1, h.2, h.3, h.4, h.5⟩⟩
  · exact .inl ⟨s, rfl, h⟩

theorem redeliver_redelivers (h : p.Redelivers setup) : (p.failAt = none → ∃ s', redeliver setup p = .ok () s') ∧
      ∀ s', redeliver setup p = .ok () s' → Redelivered setup p s' := by
  obtain ⟨newest, older, hdelivered, hpoison⟩ := h
  obtain ⟨s₁, hcount, hcounted, hfail⟩ := countRedelivery_counted setup newest p
  rw [redeliver, bind_ok (get_run p)]
  simp only [hdelivered, hpoison, Bool.false_eq_true, if_false]
  rw [bind_ok hcount]
  rcases sendRedeliveredAck_counted newest hcounted with ⟨s₂, hack, hcounted₂⟩ | ⟨hfails, e, s₂, hack⟩
  · obtain ⟨s₃, hmove, hmoved, hchannel, hsession⟩ := moveDelivered_moved hcounted₂
    obtain ⟨s₄, hend, hredelivered⟩ := redispatch_redelivered hmoved hchannel hsession
    rw [bind_ok hack, bind_ok hmove]
    refine ⟨fun _ => ⟨s₄, hend⟩, fun s' hrun => ?_⟩
    cases hend.symm.trans hrun
    exact hredelivered
  · rw [bind_error hack]
    refine ⟨fun hnone => absurd (hfail.trans hnone) hfails, fun s' hrun => ?_⟩
    cases hrun

theorem runRedeliveryTask_run (redeliveries : List (MessageDispatch μ)) (s : Kernel μ)
    (hopen : s.unconsumedMessages.closed = false) :
    runRedeliveryTask redeliveries s = .ok () { s with dispatched := s.dispatched ++ redeliveries } := by
  induction redeliveries generalizing s with
  | nil => rw [runRedeliveryTask, pure_run, append_nil]
  | cons d redeliveries ih =>
    have hrest := ih { s with dispatched := s.dispatched ++ [d] } hopen
    rw [append_assoc] at hrest
    rw [runRedeliveryTask, bind_ok (get_run s), if_neg (by rw [hopen]; exact Bool.false_ne_true),
      bind_ok (modify_run _ s)]
    exact hrest

/-- A rollback first drops the messages that this consumer is not to deliver again; what is dropped is rolled
back in the audit unless an interruption has cleared the delivered messages. If the rest is redelivered,
each message of it is rolled back in the audit with its counter raised by one, and is put back ahead of the
messages in the channel, in the order of delivery; in the non-blocking case all of them go, in that order,
to a task that gives them to the session. -/
theorem rollback_redelivers [DecidableEq μ] (setup : Setup) (s : Kernel μ) :
    ∃ p, prepareRollback setup s = .ok () p ∧ p.deliveredMessages.Sublist s.deliveredMessages ∧
      p.unconsumedMessages = s.unconsumedMessages ∧
      (s.isClearDeliveredList = false → ∃ removed, (p.deliveredMessages ++ removed).Perm s.deliveredMessages ∧
        p.rolledBack = s.rolledBack ++ removed.map MessageDispatch.message) ∧
      (p.Redelivers setup →
        (s.failAt = none → ∃ s', rollback setup s = .ok () s') ∧
        (∀ s', rollback setup s = .ok () s' → Redelivered setup p s') ∧
        (putBack p.redeliveries s.unconsumedMessages.held).messages.Perm
          (p.redeliveries ++ s.unconsumedMessages.held.messages) ∧
        ∀ k : Kernel μ, k.unconsumedMessages.closed = false →
          runRedeliveryTask p.redeliveries k = .ok () { k with dispatched := k.dispatched ++ p.redeliveries }) := by
  obtain ⟨s₁, hclear, hsub, hsame, hfail, hkeep⟩ := clearDeliveredList_run setup s
  obtain ⟨p, hprepare, kept, removed, previously, hsub', hperm, rfl⟩ := prepareRollback_drops s hclear
  refine ⟨_, hprepare, hsub'.trans hsub, hsame, fun h => ?_, fun hredelivers => ?_⟩
  · rw [hkeep h] at hperm ⊢
    exact ⟨removed, hperm, rfl⟩
  · obtain ⟨hreturns, hall⟩ := redeliver_redelivers hredelivers
    rw [rollback, bind_ok hprepare]
    refine ⟨fun h => hreturns (hfail.trans h), hall, ?_, fun k hopen => runRedeliveryTask_run _ k hopen⟩
    exact putBack_messages _ _

/-! ### Two messages -/

def rolledBackKernel : Kernel Nat where
  deliveredMessages := [{ ref := 2, message := { messageId := 12 } }, { ref := 1, message := { messageId := 11 } }]
  unconsumedMessages := { running := true, held := .fifo [{ ref := 3, message := { messageId := 13 } }] }

def clientSetup : Setup := { ackMode := .client, isQueue := true, prefetchSize := 100 }

theorem rollback_redelivers_two :
    ∃ s', rollback clientSetup rolledBackKernel = .ok () s' ∧ s'.unconsumedMessages.held = .fifo
      [{ ref := 1, message := { messageId := 11, redeliveryCounter := 1 } },
        { ref := 2, message := { messageId := 12, redeliveryCounter := 1 } },
        { ref := 3, message := { messageId := 13 } }] := by
  obtain ⟨p, hprepare, -, -, -, hredelivers⟩ := rollback_redelivers clientSetup rolledBackKernel
  have hp : p = rolledBackKernel := by
    cases hprepare
    rfl
  subst hp
  obtain ⟨hreturns, hall, -, -⟩ := hredelivers ⟨_, _, rfl, rfl⟩
  obtain ⟨s', hrun⟩ := hreturns rfl
  exact ⟨s', hrun, (hall s' hrun).channel rfl⟩

/-- Without blocking, the messages are not back in the channel after the rollback. -/
theorem rollback_leaves_channel :
    ¬∀ (setup : Setup) (s s' : Kernel Nat), s.isClearDeliveredList = false → s.optimizeAcknowledge = false →
      s.previouslyDeliveredMessages = none → setup.hasListener = false → s.unconsumedMessages.closed = false →
      s.Redelivers setup → rollback setup s = .ok () s' →
      s'.unconsumedMessages.held.messages = s.redeliveries ++ s.unconsumedMessages.held.messages := by
  intro hall
  have hchannel := hall { clientSetup with nonBlockingRedelivery := true } rolledBackKernel _ rfl rfl rfl rfl rfl
    ⟨_, _, rfl, rfl⟩ rfl
  have hlength := congrArg List.length hchannel
  exact absurd hlength (by decide)

end ActiveMQCpp.Core
