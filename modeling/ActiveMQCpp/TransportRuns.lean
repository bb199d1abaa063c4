import ActiveMQCpp.TransportLedger

/-! Runs of a failover transport: no command is lost across a reconnection. -/

namespace ActiveMQCpp.Failover

open Codec Decaf State OrderedMap List

variable {κ : Type} [LinearOrder κ]

/-! ### Replays -/

section Replays

variable {settings : Settings} {s s' : FailoverTransport κ} {r : Restoring κ}

theorem resent_mono {live : Live κ} {sent sent' : List (Command κ)} {answered : List (ExceptionResponse κ)}
    {command : Command κ} (h : Resent live sent answered command) (hsub : sent ⊆ sent') :
    Resent live sent' answered command := by
  cases command with
  | connectionInfo | sessionInfo | producerInfo | destinationInfo => exact hsub h
  | consumerInfo => exact h.imp (fun h => hsub h) fun h => hsub h
  | removeInfo => exact h
  | message | transactionInfo => exact h.imp_left fun h => hsub h
  | _ => exact h.elim

theorem Restores.replays (h : Restores settings s r s') (hinv : s.stateTracker.Inv) :
    ∃ version connections sent doubts, Enumerates connections s.stateTracker.live.connection ∧
      Replay settings.config version s.stateTracker.live.announced s.stateTracker.live connections sent doubts
        r.completed ∧
      sent ⊆ r.sent ∧ r.answered = doubts.map fun info => ⟨info.commandId, info.transactionId⟩ := by
  cases h with
  | reconnect version failAt _ _ _ _ _ hrun =>
    have hdoes := restoreTransport_does (s := .new s.stateTracker s.requestMap failAt) hinv settings.config version
    unfold Does at hdoes
    rw [hrun] at hdoes
    obtain ⟨connections, sent, doubts, completed, all, henum, hreplay, hsub, hreplayed⟩ := hdoes
    have hcompleted : r.completed = completed := hreplayed.completed_eq
    have hall : r.sent = all := hreplayed.sent_eq
    rw [← hall] at hsub
    rw [← hcompleted] at hreplay
    exact ⟨version, connections, sent, doubts, henum, hreplay, hsub, hreplayed.answered_eq⟩
  | start version failAt _ _ hrun =>
    have hdoes := restore_does (s := .new s.stateTracker s.requestMap failAt) hinv settings.config version
    unfold Does at hdoes
    rw [hrun] at hdoes
    obtain ⟨connections, sent, doubts, completed, henum, hreplay, hreplayed⟩ := hdoes
    have hcompleted : r.completed = completed := hreplayed.completed_eq
    have hsent : r.sent = _ := hreplayed.sent_eq
    rw [← hcompleted] at hreplay
    refine ⟨version, connections, sent, doubts, henum, hreplay, ?_, hreplayed.answered_eq⟩
    rw [hsent, append_assoc]
    exact subset_append_of_subset_right _ (subset_append_left _ _)

theorem Restores.not_doomed (h : Restores settings s r s') : ¬Doomed s := by
  rintro ⟨hconnected, hcause⟩
  cases h with
  | reconnect _ _ _ hclosed hfailed =>
    rw [hclosed, hfailed] at hcause
    rcases hcause with h | h <;> cases h
  | start _ _ htrue => exact Bool.false_ne_true (hconnected.symm.trans htrue)

end Replays

/-! ### Runs -/

/-- What holds along every run. -/
structure Accounted (settings : Settings) (trace : List (Output κ)) (s : FailoverTransport κ) : Prop where
  inv : s.stateTracker.Inv
  live_eq : s.stateTracker.live = Live.after settings.config (events trace)
  ledger : Ledger trace s
  apart : ClosedApart s
  calls_eq : (calls trace : Multiset (Command κ)) = s.pending + ended trace
  shutdown : s.shutdown = true → ∃ info, .delivered (.shutdownInfo info) ∈ trace
  dropped : ∀ command, .dropped command ∈ trace → Useless command ∨ ∃ info, .delivered (.shutdownInfo info) ∈ trace

section Runs

variable {settings : Settings} {trace outputs : List (Output κ)} {s s' : FailoverTransport κ}

theorem accounted_new (settings : Settings) : Accounted settings [] (FailoverTransport.new : FailoverTransport κ) where
  inv := (History.start : History settings.config [] (Tracker.new : Tracker κ)).refines.1
  live_eq := (History.start : History settings.config [] (Tracker.new : Tracker κ)).refines.2
  ledger := .inr fun command _ howed => by
    obtain ⟨before, after, heq, -⟩ := howed
    exact absurd heq.symm (append_ne_nil_of_right_ne_nil _ (cons_ne_nil _ _))
  apart := fun h => by cases h
  calls_eq := rfl
  shutdown := fun h => by cases h
  dropped := fun _ h => by cases h

theorem Accounted.step (h : Accounted settings trace s) (hstep : Step settings s outputs s') :
    Accounted settings (trace ++ outputs) s' := by
  have htracks := step_tracks hstep
  have hshutdown : s.shutdown = true → ∃ info, .delivered (.shutdownInfo info) ∈ trace ++ outputs := by
    intro hs
    obtain ⟨info, hmem⟩ := h.shutdown hs
    exact ⟨info, mem_append_left _ hmem⟩
  refine ⟨(htracks h.inv).1, ?_, ?_, step_closedApart hstep h.apart, ?_, ?_, ?_⟩
  · rw [(htracks h.inv).2, h.live_eq, events, events, events, filterMap_append, Live.after_append]
  · exact h.ledger.step h.inv htracks (step_doomed hstep) (step_settles hstep h.inv h.apart)
  · rw [calls_append, ended_append, ← Multiset.coe_add, ← Multiset.coe_add, h.calls_eq]
    have haccounts : (s.pending : Multiset (Command κ)) + calls outputs = s'.pending + ended outputs :=
      step_accounts hstep
    rw [add_right_comm, haccounts, add_assoc, add_comm (ended outputs : Multiset (Command κ))]
  · intro hs
    rcases step_shutdown hstep hs with hs | ⟨info, hmem⟩
    · exact hshutdown hs
    · exact ⟨info, mem_append_right _ hmem⟩
  · intro command hmem
    rcases mem_append.mp hmem with hmem | hmem
    · rcases h.dropped command hmem with huseless | ⟨info, hinfo⟩
      · exact .inl huseless
      · exact .inr ⟨info, mem_append_left _ hinfo⟩
    · exact (step_dropped hstep hmem).imp_right hshutdown

theorem Run.accounted (h : Run settings trace s) : Accounted settings trace s := by
  induction h with
  | new => exact accounted_new settings
  | step _ hstep ih => exact ih.step hstep

end Runs

/-- Every call of `oneway` is waiting for a transport or has ended once. A command is dropped only when it is
of no use to another transport or follows the shutdown command. And a call that has returned without its
command being sent is made good by every replay, from what the tracker has stored, unless the command was
ended before. -/
theorem no_command_lost {settings : Settings} {trace : List (Output κ)} {s : FailoverTransport κ}
    (h : Run settings trace s) :
    (calls trace).Perm (s.pending ++ ended trace) ∧
    (∀ command, .dropped command ∈ trace → Useless command ∨ ∃ info, .delivered (.shutdownInfo info) ∈ trace) ∧
    ∀ r s', Restores settings s r s' → ∀ command, Ordinary command →
      Owed (trace ++ r.completed.map .completed) command →
        Resent (Live.after settings.config (events trace)) r.sent r.answered command := by
  have hacc := h.accounted
  refine ⟨?_, hacc.dropped, ?_⟩
  · rw [← Multiset.coe_eq_coe, ← Multiset.coe_add]
    exact hacc.calls_eq
  · intro r s' hrestores command hordinary howed
    obtain ⟨hold, hkeeps⟩ := howed.before (undelivered_of_quiet (quiet_completed r.completed).2)
    have hstored : s.stateTracker.live.Stored command := by
      rcases hacc.ledger with hdoomed | hstored
      · exact absurd hdoomed hrestores.not_doomed
      · exact hstored command hordinary hold
    obtain ⟨version, connections, sent, doubts, henum, hreplay, hsub, hanswered⟩ := hrestores.replays hacc.inv
    have hlabel : s.stateTracker.live.Labelled := by
      rw [hacc.live_eq]
      exact labelled_after _ _
    have hresent := resent_of_stored henum hreplay rfl rfl rfl rfl hlabel hstored ?_
    · rw [← hacc.live_eq, hanswered]
      exact resent_mono hresent hsub
    · intro tracked htracked
      apply hkeeps
      exact mem_filterMap.mpr ⟨.completed tracked, mem_map_of_mem htracked, rfl⟩

/-! ### A failure while a connection is announced -/

def announcement : Command Nat := .connectionInfo { connectionId := ⟨0⟩ }

def lateAck : MessageAck Nat := { consumerId := ⟨0, 1, 2⟩, messageCount := 1 }

def openedTransport : FailoverTransport Nat :=
  { FailoverTransport.new with connected := true, firstConnection := false, started := true }

/-- The transport fails to send the announcement. -/
def failedSend : FailoverTransport Nat × List (Output Nat) := attempt {} announcement false openedTransport

/-- An acknowledgement is given to the transport while it has no connection. -/
def afterAck : FailoverTransport Nat × List (Output Nat) := simulateResponse {} (.messageAck lateAck) failedSend.1

def interruptedTrace : List (Output Nat) :=
  .called announcement :: failedSend.2 ++ (.called (.messageAck lateAck) :: afterAck.2 ++ [.dropped (.messageAck lateAck)])

theorem run_interrupted : Run {} interruptedTrace afterAck.1 := by
  have hopened : Run {} [] openedTransport := by
    have hstarted : Run {} _ { (FailoverTransport.new : FailoverTransport Nat) with started := true } :=
      Run.new.step (.start rfl)
    exact hstarted.step (.connect rfl rfl rfl (.inr rfl))
  have hfailed : Run {} _ failedSend.1 := hopened.step (.callConnected announcement false rfl rfl)
  exact hfailed.step (.callAck lateAck rfl)

def reconnected : Restoring Nat :=
  stateOf (restoreTransport (Settings.config {}) 10 (.new afterAck.1.stateTracker afterAck.1.requestMap none))

theorem restores_interrupted : Restores {} afterAck.1 reconnected
    { afterRestore afterAck.1 reconnected with connected := true } := by
  have hreturns : returns (restoreTransport (Settings.config {}) 10
      (.new afterAck.1.stateTracker afterAck.1.requestMap none)) = true := by
    decide +kernel
  obtain ⟨_, hrun⟩ := eq_ok_of_returns hreturns
  exact .reconnect 10 none rfl rfl rfl rfl rfl hrun

theorem owed_announcement : Owed interruptedTrace announcement := by
  refine ⟨[.called announcement, .tracked announcement, .interrupted],
    [.called (.messageAck lateAck), .tracked (.messageAck lateAck), .dropped (.messageAck lateAck)], rfl, ?_⟩
  intro output hmem event hevent node _ reset hreset
  simp only [mem_cons, not_mem_nil, or_false] at hmem
  rcases hmem with rfl | rfl | rfl <;> cases hevent
  cases hreset

theorem no_command_lost_interrupted :
    Owed interruptedTrace announcement ∧ (calls interruptedTrace).Perm (afterAck.1.pending ++ ended interruptedTrace) ∧
      .connectionInfo (ConnectionInfo.reconnecting { connectionId := ⟨0⟩ }) ∈ reconnected.sent := by
  obtain ⟨hperm, -, hresent⟩ := no_command_lost run_interrupted
  refine ⟨owed_announcement, hperm, ?_⟩
  have hcompleted : reconnected.completed = [] := isEmpty_iff.mp (by decide +kernel)
  refine hresent reconnected _ restores_interrupted announcement (fun _ h => by cases h) ?_
  rw [hcompleted]
  exact owed_announcement

/-- An acknowledgement that is accepted between two transports is sent on neither. -/
theorem ack_lost_between_transports :
    ∃ trace s r s', Run {} trace s ∧ Restores {} s r s' ∧ .called (.messageAck lateAck) ∈ trace ∧
      (∀ command, .threw command ∉ trace) ∧ .delivered (.messageAck lateAck) ∉ trace ∧
      .messageAck lateAck ∉ s'.pending ∧ .messageAck lateAck ∉ r.sent := by
  have htrace : interruptedTrace = [.called announcement, .tracked announcement, .interrupted,
    .undelivered announcement, .called (.messageAck lateAck), .tracked (.messageAck lateAck),
    .dropped (.messageAck lateAck)] := rfl
  refine ⟨interruptedTrace, afterAck.1, reconnected, _, run_interrupted, restores_interrupted, ?_, ?_, ?_, ?_, ?_⟩
  · rw [htrace]
    simp
  · rw [htrace]
    simp
  · rw [htrace]
    simp
  · exact not_mem_nil
  · have hsent : (reconnected.sent.any fun command =>
        match command with
        | .messageAck _ => true
        | _ => false) = false := by
      decide +kernel
    intro hmem
    exact any_eq_false.mp hsent _ hmem rfl

end ActiveMQCpp.Failover
