import ActiveMQCpp.StateResend
import ActiveMQCpp.TransportFailover
import Mathlib.Algebra.Order.Group.Multiset

/-! What becomes of the commands given to a failover transport. Every call of `oneway` is waiting or has
ended; a call that has ended without its command being sent has left it with the tracker, and every later
replay makes it good until something ends it. -/

namespace ActiveMQCpp.Failover

open Codec Decaf State OrderedMap List

variable {κ : Type} [LinearOrder κ]

/-! ### What a trace says -/

/-- What an output says about the tracker. -/
def Output.event : Output κ → Option (Event κ)
  | .tracked command => some (.tracked command)
  | .refused command => some (.refused command)
  | .completed request => some (.completed request)
  | .interrupted => some .interrupted
  | .resumed id => some (.resumed id)
  | _ => none

def events (trace : List (Output κ)) : List (Event κ) := trace.filterMap Output.event

def calls (trace : List (Output κ)) : List (Command κ) :=
  trace.filterMap fun output =>
    match output with
    | .called command => some command
    | _ => none

/-- The calls that have returned or thrown. -/
def ended (trace : List (Output κ)) : List (Command κ) :=
  trace.filterMap fun output =>
    match output with
    | .delivered command | .undelivered command | .dropped command | .threw command => some command
    | _ => none

/-- A call has returned without its command being sent, and nothing has ended the command since. -/
def Owed (trace : List (Output κ)) (command : Command κ) : Prop :=
  ∃ before after, trace = before ++ .undelivered command :: after ∧
    ∀ output ∈ after, ∀ event, output.event = some event → event.KeepsCommand command

/-- The command is not about a destination that outlives its connection. -/
def Ordinary (command : Command κ) : Prop :=
  ∀ info, command = .destinationInfo info → info.destination.isTemporary = true

/-- A command that is of no use to another transport. -/
inductive Useless : Command κ → Prop where
  | messageAck (ack : MessageAck κ) : Useless (.messageAck ack)
  | messagePull (pull : MessagePull κ) : Useless (.messagePull pull)
  | shutdownInfo (info : ShutdownInfo) : Useless (.shutdownInfo info)

/-! ### The tracker -/

/-- A step whose outputs say all that happens to the tracker. -/
def Tracks (settings : Settings) (s : FailoverTransport κ) (outputs : List (Output κ)) (s' : FailoverTransport κ) :
    Prop :=
  s.stateTracker.Inv → s'.stateTracker.Inv ∧
    s'.stateTracker.live = (events outputs).foldl (Live.step settings.config) s.stateTracker.live

section Tracking

variable {settings : Settings} {s s' s'' : FailoverTransport κ} {outputs outputs' : List (Output κ)}
variable {command : Command κ} {t : Tracker κ}

theorem Tracks.same (h : s'.stateTracker = s.stateTracker) (hevents : events outputs = []) :
    Tracks settings s outputs s' := by
  intro hinv
  rw [h, hevents]
  exact ⟨hinv, rfl⟩

theorem Tracks.trans (h : Tracks settings s outputs s') (h' : Tracks settings s' outputs' s'') :
    Tracks settings s (outputs ++ outputs') s'' := by
  intro hinv
  obtain ⟨hinv', hlive⟩ := h hinv
  obtain ⟨hinv'', hlive'⟩ := h' hinv'
  refine ⟨hinv'', ?_⟩
  rw [hlive', hlive, events, events, events, filterMap_append, foldl_append]

theorem Tracks.append (h : Tracks settings s outputs s') (hevents : events outputs' = []) :
    Tracks settings s (outputs ++ outputs') s' :=
  h.trans (.same rfl hevents)

theorem handleTransportFailure_tracks (settings : Settings) (s : FailoverTransport κ) :
    Tracks settings s (handleTransportFailure settings s).2 (handleTransportFailure settings s).1 := by
  intro hinv
  rw [handleTransportFailure]
  split_ifs
  · exact ⟨inv_transportInterrupted hinv, live_transportInterrupted _⟩
  · exact ⟨hinv, rfl⟩

theorem sendFailed_tracks (settings : Settings) (command : Command κ) (tracked : Option (Tracked κ)) (s : FailoverTransport κ) :
    Tracks settings s (sendFailed settings command tracked s).2 (sendFailed settings command tracked s).1 := by
  rw [sendFailed]
  split_ifs
  · exact fun hinv => handleTransportFailure_tracks settings _ hinv
  · exact (handleTransportFailure_tracks settings s).append rfl
  · exact (handleTransportFailure_tracks settings s).append rfl

theorem track_tracks {r : Option (Tracked κ)} (h : track settings.config command s.stateTracker = .ok r t) :
    Tracks settings s [.tracked command] { s with stateTracker := t } := by
  intro hinv
  have hsim := simulates_track settings.config command s.stateTracker hinv
  rw [h] at hsim
  exact hsim

theorem refuse_tracks {failure : Failure} (h : track settings.config command s.stateTracker = .error failure t) :
    Tracks settings s [.refused command] { s with stateTracker := t } := by
  intro hinv
  have hsim := simulates_track settings.config command s.stateTracker hinv
  rw [h] at hsim
  exact hsim

theorem attempt_tracks (command : Command κ) (sends : Bool) (s : FailoverTransport κ) :
    Tracks settings s (attempt settings command sends s).2 (attempt settings command sends s).1 := by
  rw [attempt]
  cases hrun : track settings.config command s.stateTracker with
  | error failure t => exact (refuse_tracks hrun).append rfl
  | ok tracked t =>
    cases sends with
    | true =>
      intro hinv
      obtain ⟨hinv', hlive⟩ := track_tracks hrun hinv
      exact ⟨inv_trackBack _ _ hinv', (live_trackBack _ _ _).trans hlive⟩
    | false =>
      have hfailed := sendFailed_tracks settings command tracked
        { s with stateTracker := t, requestMap := putRequest command tracked s.requestMap }
      exact (track_tracks hrun).trans hfailed

theorem processResponse_tracks (correlationId : Int) (s : FailoverTransport κ) :
    Tracks settings s (processResponse correlationId s).2 (processResponse correlationId s).1 := by
  intro hinv
  rw [processResponse]
  cases (s.requestMap.find correlationId).bind Command.tracked? with
  | none => exact ⟨hinv, rfl⟩
  | some tracked =>
    have hsim := simulates_onResponse tracked s.stateTracker hinv
    cases hrun : tracked.onResponse s.stateTracker with
    | ok u t =>
      rw [hrun] at hsim
      simp only [hrun]
      exact hsim
    | error failure t =>
      rw [hrun] at hsim
      simp only [hrun]
      exact hsim

theorem simulateResponse_tracks (command : Command κ) (s : FailoverTransport κ) :
    Tracks settings s (simulateResponse settings command s).2 (simulateResponse settings command s).1 := by
  rw [simulateResponse]
  cases hrun : track settings.config command s.stateTracker with
  | error failure t => exact refuse_tracks hrun
  | ok tracked t =>
    simp only
    split_ifs
    · exact (track_tracks hrun).trans (processResponse_tracks command.base.commandId { s with stateTracker := t })
    · exact track_tracks hrun

/-- A replay on behalf of the failover transport. -/
theorem restoreTransport_does {s : Restoring κ} (hinv : s.tracker.Inv) (config : Config) (version : Int) :
    Does (restoreTransport config version) s fun _ s' => ∃ connections sent doubts completed all,
      Enumerates connections s.tracker.live.connection ∧
      Replay config version s.tracker.live.announced s.tracker.live connections sent doubts completed ∧
      sent ⊆ all ∧
      Replayed s s' all (doubts.map fun info => ⟨info.commandId, info.transactionId⟩) completed := by
  apply Does.mapError
  apply (oneway_does hinv _).then
  intro s₁ h₁
  refine (restore_does h₁.inv config version).bind ?_
  rintro _ s₂ ⟨connections, sent, doubts, completed, henum, hreplay, h₂⟩
  refine ⟨_, _, _, h₂, ?_⟩
  apply Does.lookup (get_run s₂)
  refine (onewayAll_does h₂.inv _).imp ?_
  intro _ s' h₃
  have hlive : s₁.tracker.live = s.tracker.live := h₁.live_eq
  rw [hlive] at henum hreplay
  have hall := Replayed.trans h₁ (Replayed.trans h₂ h₃)
  rw [append_nil, append_nil, nil_append, nil_append] at hall
  refine ⟨connections, sent, doubts, completed, _, henum, hreplay, ?_, hall⟩
  intro command hcommand
  simp only [mem_append]
  exact .inr (.inl (.inl (.inl hcommand)))

theorem afterRestore_tracks {r : Restoring κ} {failAt : Option Nat} {sent : List (Command κ)}
    {answered : List (ExceptionResponse κ)} {completed : List (Tracked κ)}
    (h : Replayed (.new s.stateTracker s.requestMap failAt) r sent answered completed)
    (htracker : s'.stateTracker = r.tracker) : Tracks settings s (r.completed.map .completed) s' := by
  intro _
  have hcompleted : r.completed = completed := h.completed_eq
  have hevents : events (r.completed.map .completed) = r.completed.map .completed := by
    rw [events, filterMap_map]
    exact congrFun filterMap_eq_map r.completed
  rw [htracker, hevents, hcompleted, foldl_map]
  exact ⟨h.inv, h.live_eq⟩

end Tracking

/-! ### The calls -/

/-- Calls that are made are waiting or have ended afterwards, and no call is lost or ends twice. -/
def Accounts (s : FailoverTransport κ) (outputs : List (Output κ)) (s' : FailoverTransport κ) : Prop :=
  (s.pending : Multiset (Command κ)) + calls outputs = s'.pending + ended outputs

section Accounting

variable {settings : Settings}
variable {s s' : FailoverTransport κ} {outputs : List (Output κ)}
variable {pending : List (Command κ)} {command : Command κ}

theorem handleTransportFailure_pending (settings : Settings) (s : FailoverTransport κ) :
    (handleTransportFailure settings s).1.pending = s.pending := by
  rw [handleTransportFailure]
  split_ifs <;> rfl

theorem handleTransportFailure_quiet (settings : Settings) (s : FailoverTransport κ) :
    calls (handleTransportFailure settings s).2 = [] ∧ ended (handleTransportFailure settings s).2 = [] := by
  rw [handleTransportFailure]
  split_ifs <;> exact ⟨rfl, rfl⟩

omit [LinearOrder κ] in
theorem calls_append (trace trace' : List (Output κ)) : calls (trace ++ trace') = calls trace ++ calls trace' :=
  filterMap_append

omit [LinearOrder κ] in
theorem ended_append (trace trace' : List (Output κ)) : ended (trace ++ trace') = ended trace ++ ended trace' :=
  filterMap_append

theorem sendFailed_accounts (command : Command κ) (tracked : Option (Tracked κ)) (s : FailoverTransport κ) :
    calls (sendFailed settings command tracked s).2 = [] ∧
      (sendFailed settings command tracked s).1.pending ++ ended (sendFailed settings command tracked s).2
        = s.pending ++ [command] := by
  obtain ⟨hcalls, hended⟩ := handleTransportFailure_quiet settings s
  have hpending := handleTransportFailure_pending settings s
  rw [sendFailed]
  split_ifs
  · obtain ⟨hcalls', hended'⟩ := handleTransportFailure_quiet settings { s with
      requestMap := removeRequest command s.requestMap, pending := s.pending ++ [command] }
    refine ⟨hcalls', ?_⟩
    rw [hended', handleTransportFailure_pending, append_nil]
  · simp only [calls_append, ended_append, hcalls, hended, hpending]
    exact ⟨rfl, rfl⟩
  · simp only [calls_append, ended_append, hcalls, hended, hpending]
    exact ⟨rfl, rfl⟩

theorem attempt_accounts (settings : Settings) (command : Command κ) (sends : Bool) (s : FailoverTransport κ) :
    calls (attempt settings command sends s).2 = [] ∧
      (attempt settings command sends s).1.pending ++ ended (attempt settings command sends s).2
        = s.pending ++ [command] := by
  rw [attempt]
  cases track settings.config command s.stateTracker with
  | error failure t => exact ⟨rfl, rfl⟩
  | ok tracked t =>
    cases sends with
    | true => exact ⟨rfl, rfl⟩
    | false => exact sendFailed_accounts command tracked _

theorem processResponse_accounts (correlationId : Int) (s : FailoverTransport κ) :
    (processResponse correlationId s).1.pending = s.pending ∧ calls (processResponse correlationId s).2 = [] ∧
      ended (processResponse correlationId s).2 = [] := by
  rw [processResponse]
  cases (s.requestMap.find correlationId).bind Command.tracked? with
  | none => exact ⟨rfl, rfl, rfl⟩
  | some tracked => cases hrun : tracked.onResponse s.stateTracker <;> simp only [hrun] <;> exact ⟨trivial, rfl, rfl⟩

theorem simulateResponse_accounts (command : Command κ) (s : FailoverTransport κ) :
    (simulateResponse settings command s).1.pending = s.pending ∧
      calls (simulateResponse settings command s).2 = [] ∧ ended (simulateResponse settings command s).2 = [] := by
  rw [simulateResponse]
  cases track settings.config command s.stateTracker with
  | error failure t => exact ⟨rfl, rfl, rfl⟩
  | ok tracked t =>
    simp only
    split_ifs
    · exact processResponse_accounts command.base.commandId { s with stateTracker := t }
    · exact ⟨rfl, rfl, rfl⟩

theorem accounts_of_attempt (command : Command κ)
    (sends : Bool) (outputs : List (Output κ)) (hended : ended outputs = [])
    (h : (s.pending : Multiset (Command κ)) + calls outputs = pending + {command}) :
    Accounts s (outputs ++ (attempt settings command sends { s with pending := pending }).2)
      (attempt settings command sends { s with pending := pending }).1 := by
  obtain ⟨hcalls, hattempt⟩ := attempt_accounts settings command sends { s with pending := pending }
  have hmulti := congrArg (fun l : List (Command κ) => (l : Multiset (Command κ))) hattempt
  simp only [← Multiset.coe_add, Multiset.coe_singleton] at hmulti
  rw [Accounts, calls_append, ended_append, hcalls, hended, append_nil, nil_append, hmulti]
  exact h

omit [LinearOrder κ] in
theorem quiet_completed (completed : List (Tracked κ)) :
    calls (completed.map .completed) = [] ∧ ended (completed.map .completed) = [] := by
  rw [calls, ended, filterMap_map, filterMap_map]
  exact ⟨filterMap_eq_nil_iff.mpr fun _ _ => rfl, filterMap_eq_nil_iff.mpr fun _ _ => rfl⟩

omit [LinearOrder κ] in
theorem coe_pending {before after : List (Command κ)} (h : pending = before ++ command :: after) :
    (pending : Multiset (Command κ)) = (before ++ after : List (Command κ)) + {command} := by
  rw [h, ← Multiset.coe_singleton, Multiset.coe_add, Multiset.coe_eq_coe]
  exact perm_middle.trans (perm_append_singleton _ _).symm

theorem accounts_quiet (hpending : s'.pending = s.pending)
    (hcalls : calls outputs = []) (hended : ended outputs = []) : Accounts s outputs s' := by
  rw [Accounts, hpending, hcalls, hended]

theorem accounts_call {output : Output κ} (hpending : s'.pending = s.pending) (hcalls : calls outputs = [])
    (hended : ended outputs = []) (hcall : calls [output] = []) (hend : ended [output] = [command]) :
    Accounts s (.called command :: outputs ++ [output]) s' := by
  have hcalls' : calls (.called command :: outputs ++ [output]) = [command] := by
    rw [cons_append, ← singleton_append, calls_append, calls_append, hcalls, hcall]
    rfl
  have hended' : ended (.called command :: outputs ++ [output]) = [command] := by
    rw [cons_append, ← singleton_append, ended_append, ended_append, hended, hend]
    rfl
  rw [Accounts, hpending, hcalls', hended']

theorem step_accounts (h : Step settings s outputs s') : Accounts s outputs s' := by
  cases h with
  | callConnected command sends => exact accounts_of_attempt command sends [.called command] rfl rfl
  | callRemove info =>
    obtain ⟨hpending, hcalls, hended⟩ := simulateResponse_accounts (.removeInfo info) s
    exact accounts_call hpending hcalls hended rfl rfl
  | callAck ack =>
    obtain ⟨hpending, hcalls, hended⟩ := simulateResponse_accounts (.messageAck ack) s
    exact accounts_call hpending hcalls hended rfl rfl
  | callPull | callShutdown | callClosed => rfl
  | callWaits command => exact (Multiset.coe_add _ _).trans (add_zero _).symm
  | retry command sends hpending =>
    refine accounts_of_attempt command sends [] rfl ?_
    rw [coe_pending hpending]
    exact add_zero _
  | giveUpClosed command hpending | giveUp command hpending =>
    rw [Accounts, coe_pending hpending]
    exact add_zero _
  | failure =>
    obtain ⟨hcalls, hended⟩ := handleTransportFailure_quiet settings s
    exact accounts_quiet (handleTransportFailure_pending settings s) hcalls hended
  | response correlationId =>
    obtain ⟨hpending, hcalls, hended⟩ := processResponse_accounts correlationId s
    exact accounts_quiet hpending hcalls hended
  | @restored _ r hrestores =>
    obtain ⟨hcalls, hended⟩ := quiet_completed r.completed
    refine accounts_quiet ?_ (by rw [calls_append, hcalls]; rfl) (by rw [ended_append, hended]; rfl)
    cases hrestores <;> rfl
  | @restoreFails r | @startFails r =>
    obtain ⟨hcalls, hended⟩ := quiet_completed r.completed
    exact accounts_quiet rfl hcalls hended
  | disconnect | resume | connect | giveUpReconnecting | start | stop | close => exact accounts_quiet rfl rfl rfl

end Accounting

/-! ### The ledger -/

/-- There is no transport, and there will be none. -/
def Doomed (s : FailoverTransport κ) : Prop := s.connected = false ∧ (s.closed = true ∨ s.failed = true)

/-- What is owed is stored, as long as there can be another transport. -/
def Ledger (trace : List (Output κ)) (s : FailoverTransport κ) : Prop :=
  Doomed s ∨ ∀ command, Ordinary command → Owed trace command → s.stateTracker.live.Stored command

/-- At most the last of some outputs leaves a command unsent, and then the command is stored. -/
def Settles (outputs : List (Output κ)) (s : FailoverTransport κ) : Prop :=
  (∀ command, .undelivered command ∉ outputs) ∨
    ∃ before last, outputs = before ++ [.undelivered last] ∧ (∀ command, .undelivered command ∉ before) ∧
      (Doomed s ∨ (Ordinary last → s.stateTracker.live.Stored last))

section Owing

variable {trace outputs : List (Output κ)} {command : Command κ}

omit [LinearOrder κ] in
theorem Owed.before (h : Owed (trace ++ outputs) command) (hnew : ∀ command, .undelivered command ∉ outputs) :
    Owed trace command ∧ ∀ event ∈ events outputs, event.KeepsCommand command := by
  obtain ⟨before, after, heq, hkeeps⟩ := h
  have hmem : .undelivered command ∉ outputs := hnew command
  rcases append_eq_append_iff.mp heq with ⟨middle, rfl, houtputs⟩ | ⟨middle, htrace, hafter⟩
  · rw [houtputs] at hmem
    exact absurd (mem_append_right _ mem_cons_self) hmem
  · cases middle with
    | nil =>
      rw [nil_append] at hafter
      rw [← hafter] at hmem
      exact absurd mem_cons_self hmem
    | cons output middle =>
      rw [cons_append] at hafter
      injection hafter with houtput hafter
      subst houtput hafter
      refine ⟨⟨before, middle, htrace, fun output h => hkeeps output (mem_append_left _ h)⟩, ?_⟩
      intro event hevent
      obtain ⟨output, houtput, hsome⟩ := mem_filterMap.mp hevent
      exact hkeeps output (mem_append_right _ houtput) event hsome

omit [LinearOrder κ] in
theorem Owed.before_last {last : Command κ} (h : Owed (trace ++ [.undelivered last]) command) :
    command = last ∨ Owed trace command := by
  obtain ⟨before, after, heq, hkeeps⟩ := h
  rcases eq_nil_or_concat after with rfl | ⟨after, output, rfl⟩
  · obtain ⟨-, hlast⟩ := append_inj' heq rfl
    cases hlast
    exact .inl rfl
  · rw [concat_eq_append] at heq hkeeps
    rw [← cons_append, ← append_assoc] at heq
    obtain ⟨htrace, -⟩ := append_inj' heq rfl
    exact .inr ⟨before, after, htrace, fun output h => hkeeps output (mem_append_left _ h)⟩

theorem stored_foldl {config : Config} {live : Live κ} {happened : List (Event κ)} (h : live.Stored command)
    (hkeeps : ∀ event ∈ happened, event.KeepsCommand command) :
    (happened.foldl (Live.step config) live).Stored command := by
  induction happened generalizing live with
  | nil => exact h
  | cons event happened ih =>
    exact ih (h.step config (hkeeps event mem_cons_self)) fun event' h' => hkeeps event' (mem_cons_of_mem _ h')

end Owing

section Ledgers

variable {settings : Settings} {trace outputs : List (Output κ)} {s s' : FailoverTransport κ}
variable {command : Command κ}

theorem Ledger.step (h : Ledger trace s) (hinv : s.stateTracker.Inv) (htracks : Tracks settings s outputs s')
    (hdoomed : Doomed s → Doomed s') (hsettles : Settles outputs s') : Ledger (trace ++ outputs) s' := by
  rcases h with hd | hstored
  · exact .inl (hdoomed hd)
  · rcases hsettles with hnew | ⟨before, last, rfl, hnew, hlast⟩
    · right
      intro command hordinary howed
      obtain ⟨hold, hkeeps⟩ := howed.before hnew
      rw [(htracks hinv).2]
      exact stored_foldl (hstored command hordinary hold) hkeeps
    · rcases hlast with hd | hlast
      · exact .inl hd
      · right
        intro command hordinary howed
        rw [← append_assoc] at howed
        rcases howed.before_last with rfl | hold
        · exact hlast hordinary
        · obtain ⟨hold, hkeeps⟩ := hold.before hnew
          have hevents : events (before ++ [.undelivered last]) = events before := by
            rw [events, events, filterMap_append]
            exact append_nil _
          rw [(htracks hinv).2, hevents]
          exact stored_foldl (hstored command hordinary hold) hkeeps

omit [LinearOrder κ] in
theorem undelivered_of_quiet (h : ended outputs = []) (command : Command κ) : .undelivered command ∉ outputs := by
  intro hmem
  have hended : command ∈ ended outputs := mem_filterMap.mpr ⟨_, hmem, rfl⟩
  rw [h] at hended
  exact not_mem_nil hended

theorem stored_handleTransportFailure (settings : Settings) (h : s.stateTracker.live.Stored command) :
    (handleTransportFailure settings s).1.stateTracker.live.Stored command := by
  rw [handleTransportFailure]
  split_ifs
  · change (transportInterrupted s.stateTracker).live.Stored command
    rw [live_transportInterrupted]
    have hkeeps : (Event.interrupted : Event κ).KeepsCommand command := fun _ _ _ hr => by cases hr
    exact h.step settings.config hkeeps
  · exact h

theorem doomed_handleTransportFailure (hconnected : s.connected = true) (hclosed : s.closed = false)
    (hshutdown : s.shutdown = false) (hreconnect : canReconnect settings s = false) :
    Doomed (handleTransportFailure settings s).1 := by
  rw [handleTransportFailure, hconnected, hshutdown, hreconnect, hclosed]
  exact ⟨rfl, .inr (Bool.or_true _)⟩

theorem Settles.cons {output : Output κ} (houtput : ∀ command, output ≠ .undelivered command)
    (h : Settles outputs s) : Settles (output :: outputs) s := by
  have hnew : ∀ {l : List (Output κ)}, (∀ command, .undelivered command ∉ l) →
      ∀ command, .undelivered command ∉ output :: l := by
    intro l hl command hmem
    rcases mem_cons.mp hmem with heq | hmem
    · exact houtput command heq.symm
    · exact hl command hmem
  rcases h with h | ⟨before, last, rfl, h, hlast⟩
  · exact .inl (hnew h)
  · exact .inr ⟨output :: before, last, rfl, hnew h, hlast⟩

theorem sendFailed_settles {tracked : Option (Tracked κ)} (hconnected : s.connected = true)
    (hclosed : s.closed = false)
    (hstored : ∀ r, tracked = some r → Ordinary command → s.stateTracker.live.Stored command) :
    Settles (sendFailed settings command tracked s).2 (sendFailed settings command tracked s).1 := by
  rw [sendFailed]
  split_ifs with hretry hdropped
  · exact .inl (undelivered_of_quiet (handleTransportFailure_quiet settings _).2)
  · left
    intro c hmem
    rcases mem_append.mp hmem with hmem | hmem
    · exact undelivered_of_quiet (handleTransportFailure_quiet settings s).2 c hmem
    · cases mem_singleton.mp hmem
  · refine .inr ⟨_, command, rfl, undelivered_of_quiet (handleTransportFailure_quiet settings s).2, ?_⟩
    cases tracked with
    | some r => exact .inr fun hordinary => stored_handleTransportFailure settings (hstored r rfl hordinary)
    | none =>
      left
      simp only [Option.isNone_none, Bool.true_and, Bool.not_eq_true] at hretry hdropped
      exact doomed_handleTransportFailure hconnected hclosed hdropped hretry

theorem attempt_settles (hinv : s.stateTracker.Inv) (hconnected : s.connected = true) (hclosed : s.closed = false)
    (command : Command κ) (sends : Bool) :
    Settles (attempt settings command sends s).2 (attempt settings command sends s).1 := by
  rw [attempt]
  cases hrun : track settings.config command s.stateTracker with
  | error failure t =>
    left
    intro c h
    simp at h
  | ok tracked t =>
    cases sends with
    | true =>
      left
      intro c h
      simp at h
    | false =>
      refine Settles.cons (fun _ h => by cases h) (sendFailed_settles hconnected hclosed ?_)
      rintro r rfl hordinary
      exact stored_of_track hinv hrun hordinary

theorem processResponse_sameObjects (hinv : s.stateTracker.Inv) (correlationId : Int) :
    s.stateTracker.live.SameObjects (processResponse correlationId s).1.stateTracker.live := by
  rw [processResponse]
  cases (s.requestMap.find correlationId).bind Command.tracked? with
  | none => exact .refl _
  | some tracked =>
    have hsim := simulates_onResponse tracked s.stateTracker hinv
    cases hrun : tracked.onResponse s.stateTracker with
    | ok u t =>
      rw [hrun] at hsim
      simp only [hrun, hsim.2]
      exact s.stateTracker.live.sameObjects_complete tracked
    | error failure t =>
      rw [hrun] at hsim
      simp only [hrun, hsim.2]
      exact .refl _

theorem gone_of_sameObjects {live live' : Live κ} {id : ObjectId κ} (h : live.SameObjects live') (hgone : live.Gone id) :
    live'.Gone id := by
  cases id with
  | connection k => exact (congrFun h.connection k).trans hgone
  | session k => exact (congrFun h.session k).trans hgone
  | producer k => exact (congrFun h.producer k).trans hgone
  | consumer k => exact (congrFun h.consumer k).trans hgone
  | other => exact trivial

theorem simulateResponse_gone (hinv : s.stateTracker.Inv) (info : RemoveInfo κ) :
    (simulateResponse settings (.removeInfo info) s).1.stateTracker.live.Gone info.objectId := by
  rw [simulateResponse]
  have hsim := simulates_track settings.config (.removeInfo info) s.stateTracker hinv
  cases hrun : track settings.config (.removeInfo info) s.stateTracker with
  | error failure t => exact gone_of_refuse hinv hrun
  | ok tracked t =>
    rw [hrun] at hsim
    have hgone : t.live.Gone info.objectId := by
      rw [hsim.2]
      exact gone_remove info.objectId
    simp only
    split_ifs
    · exact gone_of_sameObjects (processResponse_sameObjects hsim.1 _) hgone
    · exact hgone

theorem callRemove_settles (hinv : s.stateTracker.Inv) (info : RemoveInfo κ) :
    Settles (.called (.removeInfo info) :: (simulateResponse settings (.removeInfo info) s).2 ++
      [.undelivered (.removeInfo info)]) (simulateResponse settings (.removeInfo info) s).1 := by
  refine Settles.cons (fun _ h => by cases h) (.inr ⟨_, _, rfl, ?_, .inr fun _ => simulateResponse_gone hinv info⟩)
  exact undelivered_of_quiet (simulateResponse_accounts (.removeInfo info) s).2.2

end Ledgers

/-! ### Steps -/

section Steps

variable {settings : Settings} {outputs : List (Output κ)} {s s' : FailoverTransport κ}
variable {command : Command κ}
variable {dropped : Command κ}

/-- Either replay has the effects of a replay of the tracker. -/
theorem Restores.replayed {r : Restoring κ} (h : Restores settings s r s') (hinv : s.stateTracker.Inv) :
    ∃ failAt sent answered completed, s'.stateTracker = r.tracker ∧
      Replayed (.new s.stateTracker s.requestMap failAt) r sent answered completed := by
  cases h with
  | reconnect version failAt _ _ _ _ _ hrun =>
    have hdoes := restoreTransport_does (s := .new s.stateTracker s.requestMap failAt) hinv settings.config version
    unfold Does at hdoes
    rw [hrun] at hdoes
    obtain ⟨_, _, _, _, _, _, _, _, h⟩ := hdoes
    exact ⟨_, _, _, _, rfl, h⟩
  | start version failAt _ _ hrun =>
    have hdoes := restore_does (s := .new s.stateTracker s.requestMap failAt) hinv settings.config version
    unfold Does at hdoes
    rw [hrun] at hdoes
    obtain ⟨_, _, _, _, _, _, h⟩ := hdoes
    exact ⟨_, _, _, _, rfl, h⟩

theorem step_tracks (h : Step settings s outputs s') : Tracks settings s outputs s' := by
  cases h with
  | callConnected command sends => exact fun hinv => attempt_tracks command sends s hinv
  | callRemove info => exact fun hinv => (simulateResponse_tracks (.removeInfo info) s).append rfl hinv
  | callAck ack => exact fun hinv => (simulateResponse_tracks (.messageAck ack) s).append rfl hinv
  | retry command sends => exact fun hinv => attempt_tracks command sends _ hinv
  | failure => exact handleTransportFailure_tracks settings s
  | response correlationId => exact processResponse_tracks correlationId s
  | resume id hrun =>
    intro hinv
    have hsim := simulates_connectionInterruptProcessingComplete id s.stateTracker hinv
    rw [hrun] at hsim
    exact hsim
  | restored hrestores =>
    intro hinv
    obtain ⟨_, _, _, _, htracker, hreplayed⟩ := hrestores.replayed hinv
    exact (afterRestore_tracks hreplayed htracker).append rfl hinv
  | restoreFails version failAt _ _ _ _ _ hrun =>
    intro hinv
    have hdoes := restoreTransport_does (s := .new s.stateTracker s.requestMap failAt) hinv settings.config version
    unfold Does at hdoes
    rw [hrun] at hdoes
    obtain ⟨⟨_, _, _, hreplayed⟩, _⟩ := hdoes
    exact afterRestore_tracks hreplayed rfl hinv
  | startFails version failAt _ _ hrun =>
    intro hinv
    have hdoes := restore_does (s := .new s.stateTracker s.requestMap failAt) hinv settings.config version
    unfold Does at hdoes
    rw [hrun] at hdoes
    obtain ⟨⟨_, _, _, hreplayed⟩, _⟩ := hdoes
    exact afterRestore_tracks hreplayed rfl hinv
  | callPull | callShutdown | callWaits | callClosed | giveUpClosed | giveUp | disconnect | connect
  | giveUpReconnecting | start | stop | close => exact .same rfl rfl

theorem processResponse_frame (correlationId : Int) (s : FailoverTransport κ) :
    ∃ t requests, (processResponse correlationId s).1 = { s with stateTracker := t, requestMap := requests } := by
  rw [processResponse]
  cases (s.requestMap.find correlationId).bind Command.tracked? with
  | none => exact ⟨_, _, rfl⟩
  | some tracked =>
    cases hrun : tracked.onResponse s.stateTracker <;> simp only [hrun] <;> exact ⟨_, _, rfl⟩

theorem simulateResponse_frame (settings : Settings) (command : Command κ) (s : FailoverTransport κ) :
    ∃ t requests, (simulateResponse settings command s).1 = { s with stateTracker := t, requestMap := requests } := by
  rw [simulateResponse]
  cases track settings.config command s.stateTracker with
  | error failure t => exact ⟨_, _, rfl⟩
  | ok tracked t =>
    simp only
    split_ifs
    · obtain ⟨t', requests, h⟩ := processResponse_frame command.base.commandId { s with stateTracker := t }
      exact ⟨t', requests, h⟩
    · exact ⟨_, _, rfl⟩

theorem handleTransportFailure_frame (settings : Settings) (s : FailoverTransport κ) :
    (handleTransportFailure settings s).1.closed = s.closed ∧
      (handleTransportFailure settings s).1.shutdown = s.shutdown ∧
      (s.connected = false → (handleTransportFailure settings s).1 = s) := by
  rw [handleTransportFailure]
  split_ifs with h
  · refine ⟨rfl, rfl, fun hconnected => ?_⟩
    rw [hconnected] at h
    cases h
  · exact ⟨rfl, rfl, fun _ => rfl⟩

theorem sendFailed_frame (settings : Settings) (command : Command κ) (tracked : Option (Tracked κ))
    (s : FailoverTransport κ) :
    (sendFailed settings command tracked s).1.closed = s.closed ∧
      (sendFailed settings command tracked s).1.shutdown = s.shutdown := by
  rw [sendFailed]
  split_ifs
  · exact ⟨(handleTransportFailure_frame settings _).1, (handleTransportFailure_frame settings _).2.1⟩
  · exact ⟨(handleTransportFailure_frame settings s).1, (handleTransportFailure_frame settings s).2.1⟩
  · exact ⟨(handleTransportFailure_frame settings s).1, (handleTransportFailure_frame settings s).2.1⟩

theorem attempt_frame (settings : Settings) (command : Command κ) (sends : Bool) (s : FailoverTransport κ) :
    (attempt settings command sends s).1.closed = s.closed ∧
      ((attempt settings command sends s).1.shutdown = true → s.shutdown = true ∨
        ∃ info, .delivered (.shutdownInfo info) ∈ (attempt settings command sends s).2) := by
  rw [attempt]
  cases track settings.config command s.stateTracker with
  | error failure t => exact ⟨rfl, .inl⟩
  | ok tracked t =>
    cases sends with
    | false =>
      obtain ⟨hclosed, hshutdown⟩ := sendFailed_frame settings command tracked
        { s with stateTracker := t, requestMap := putRequest command tracked s.requestMap }
      exact ⟨hclosed, fun h => .inl (hshutdown.symm.trans h)⟩
    | true =>
      refine ⟨rfl, fun h => ?_⟩
      rcases Bool.or_eq_true_iff.mp h with h | h
      · exact .inl h
      · cases command with
        | shutdownInfo info => exact .inr ⟨info, mem_cons_of_mem _ mem_cons_self⟩
        | _ => cases h

theorem step_doomed (h : Step settings s outputs s') (hd : Doomed s) : Doomed s' := by
  obtain ⟨hconnected, hcause⟩ := hd
  cases h with
  | callConnected _ _ htrue => exact absurd (hconnected.symm.trans htrue) Bool.false_ne_true
  | retry _ _ _ htrue => exact absurd (hconnected.symm.trans htrue) Bool.false_ne_true
  | startFails _ _ htrue => exact absurd (hconnected.symm.trans htrue) Bool.false_ne_true
  | callRemove info =>
    obtain ⟨t, requests, heq⟩ := simulateResponse_frame settings (.removeInfo info) s
    rw [heq]
    exact ⟨hconnected, hcause⟩
  | callAck ack =>
    obtain ⟨t, requests, heq⟩ := simulateResponse_frame settings (.messageAck ack) s
    rw [heq]
    exact ⟨hconnected, hcause⟩
  | response correlationId =>
    obtain ⟨t, requests, heq⟩ := processResponse_frame correlationId s
    rw [heq]
    exact ⟨hconnected, hcause⟩
  | failure =>
    rw [(handleTransportFailure_frame settings s).2.2 hconnected]
    exact ⟨hconnected, hcause⟩
  | connect _ hclosed hfailed =>
    rw [hclosed, hfailed] at hcause
    rcases hcause with h | h <;> cases h
  | restored hrestores =>
    cases hrestores with
    | reconnect _ _ _ hclosed hfailed =>
      rw [hclosed, hfailed] at hcause
      rcases hcause with h | h <;> cases h
    | start _ _ htrue => exact absurd (hconnected.symm.trans htrue) Bool.false_ne_true
  | giveUpReconnecting => exact ⟨hconnected, .inr rfl⟩
  | close => exact ⟨rfl, .inl rfl⟩
  | disconnect => exact ⟨rfl, hcause⟩
  | callPull | callShutdown | callWaits | callClosed | giveUpClosed | giveUp | resume | restoreFails | start | stop =>
    exact ⟨hconnected, hcause⟩

/-- A closed transport has no connection. -/
def ClosedApart (s : FailoverTransport κ) : Prop := s.closed = true → s.connected = false

theorem attempt_closedApart {settings : Settings} {s : FailoverTransport κ} (hclosed : s.closed = false)
    (command : Command κ) (sends : Bool) : ClosedApart (attempt settings command sends s).1 := by
  intro h
  rw [(attempt_frame settings command sends s).1, hclosed] at h
  cases h

theorem step_closedApart (h : Step settings s outputs s') (hapart : ClosedApart s) : ClosedApart s' := by
  cases h with
  | callConnected command sends _ hclosed => exact attempt_closedApart hclosed command sends
  | @retry before after command sends _ _ hclosed =>
    exact attempt_closedApart (s := { s with pending := before ++ after }) hclosed command sends
  | callRemove info =>
    obtain ⟨t, requests, heq⟩ := simulateResponse_frame settings (.removeInfo info) s
    rw [heq]
    exact hapart
  | callAck ack =>
    obtain ⟨t, requests, heq⟩ := simulateResponse_frame settings (.messageAck ack) s
    rw [heq]
    exact hapart
  | response correlationId =>
    obtain ⟨t, requests, heq⟩ := processResponse_frame correlationId s
    rw [heq]
    exact hapart
  | failure =>
    intro hclosed
    obtain ⟨hsame, -, hframe⟩ := handleTransportFailure_frame settings s
    rw [hframe (hapart (hsame.symm.trans hclosed))]
    exact hapart (hsame.symm.trans hclosed)
  | connect _ hclosed =>
    intro h
    exact absurd (hclosed.symm.trans h) Bool.false_ne_true
  | restored hrestores =>
    cases hrestores with
    | reconnect _ _ _ hclosed =>
      intro h
      exact absurd (hclosed.symm.trans h) Bool.false_ne_true
    | start => exact hapart
  | close => exact fun _ => rfl
  | disconnect => exact fun _ => rfl
  | callPull | callShutdown | callWaits | callClosed | giveUpClosed | giveUp | resume | restoreFails | startFails
  | giveUpReconnecting | start | stop => exact hapart

theorem step_settles (h : Step settings s outputs s') (hinv : s.stateTracker.Inv) (hapart : ClosedApart s) :
    Settles outputs s' := by
  cases h with
  | callConnected command sends hconnected hclosed =>
    exact (attempt_settles hinv hconnected hclosed command sends).cons fun _ h => by cases h
  | @retry before after command sends _ hconnected hclosed =>
    exact attempt_settles (s := { s with pending := before ++ after }) hinv hconnected hclosed command sends
  | callRemove info => exact callRemove_settles hinv info
  | callAck ack =>
    left
    intro command hmem
    rw [cons_append] at hmem
    rcases mem_cons.mp hmem with heq | hmem
    · cases heq
    · rcases mem_append.mp hmem with hmem | hmem
      · exact undelivered_of_quiet (simulateResponse_accounts (.messageAck ack) s).2.2 command hmem
      · cases mem_singleton.mp hmem
  | callClosed command _ hconnected hclosed =>
    refine .inr ⟨[.called command], command, rfl, ?_, .inl ⟨hconnected, .inl hclosed⟩⟩
    exact undelivered_of_quiet rfl
  | giveUpClosed command _ hclosed =>
    exact .inr ⟨[], command, rfl, undelivered_of_quiet rfl, .inl ⟨hapart hclosed, .inl hclosed⟩⟩
  | failure => exact .inl (undelivered_of_quiet (handleTransportFailure_quiet settings s).2)
  | response correlationId => exact .inl (undelivered_of_quiet (processResponse_accounts correlationId s).2.2)
  | @restored _ r =>
    refine .inl (undelivered_of_quiet ?_)
    rw [ended_append, (quiet_completed r.completed).2]
    rfl
  | @restoreFails r | @startFails r => exact .inl (undelivered_of_quiet (quiet_completed r.completed).2)
  | callPull | callShutdown | giveUp =>
    left
    intro command hmem
    simp at hmem
  | callWaits | disconnect | resume | connect | giveUpReconnecting | start | stop | close =>
    exact .inl (undelivered_of_quiet rfl)

theorem step_shutdown (h : Step settings s outputs s') (hshutdown : s'.shutdown = true) :
    s.shutdown = true ∨ ∃ info, .delivered (.shutdownInfo info) ∈ outputs := by
  cases h with
  | callConnected command sends =>
    rcases (attempt_frame settings command sends s).2 hshutdown with h | ⟨info, h⟩
    · exact .inl h
    · exact .inr ⟨info, mem_cons_of_mem _ h⟩
  | retry command sends => exact (attempt_frame settings command sends _).2 hshutdown
  | callRemove info =>
    obtain ⟨t, requests, heq⟩ := simulateResponse_frame settings (.removeInfo info) s
    rw [heq] at hshutdown
    exact .inl hshutdown
  | callAck ack =>
    obtain ⟨t, requests, heq⟩ := simulateResponse_frame settings (.messageAck ack) s
    rw [heq] at hshutdown
    exact .inl hshutdown
  | response correlationId =>
    obtain ⟨t, requests, heq⟩ := processResponse_frame correlationId s
    rw [heq] at hshutdown
    exact .inl hshutdown
  | failure => exact .inl ((handleTransportFailure_frame settings s).2.1.symm.trans hshutdown)
  | restored hrestores => cases hrestores <;> exact .inl hshutdown
  | callPull | callShutdown | callWaits | callClosed | giveUpClosed | giveUp | disconnect | resume | connect
  | restoreFails | startFails | giveUpReconnecting | start | stop | close => exact .inl hshutdown

omit [LinearOrder κ] in
theorem dropped_of_quiet (h : ended outputs = []) (command : Command κ) : .dropped command ∉ outputs := by
  intro hmem
  have hended : command ∈ ended outputs := mem_filterMap.mpr ⟨_, hmem, rfl⟩
  rw [h] at hended
  exact not_mem_nil hended

theorem sendFailed_dropped {tracked : Option (Tracked κ)}
    (h : .dropped dropped ∈ (sendFailed settings command tracked s).2) : s.shutdown = true := by
  have hquiet : ∀ s : FailoverTransport κ, .dropped dropped ∉ (handleTransportFailure settings s).2 :=
    fun s => dropped_of_quiet (handleTransportFailure_quiet settings s).2 dropped
  rw [sendFailed] at h
  split_ifs at h with hretry hshutdown
  · exact absurd h (hquiet _)
  · exact (Bool.and_eq_true_iff.mp hshutdown).2
  · rcases mem_append.mp h with h | h
    · exact absurd h (hquiet s)
    · cases mem_singleton.mp h

theorem attempt_dropped {sends : Bool}
    (h : .dropped dropped ∈ (attempt settings command sends s).2) : s.shutdown = true := by
  rw [attempt] at h
  cases hrun : track settings.config command s.stateTracker with
  | error failure t =>
    rw [hrun] at h
    simp at h
  | ok tracked t =>
    rw [hrun] at h
    cases sends with
    | true => simp at h
    | false =>
      rcases mem_cons.mp h with heq | hmem
      · cases heq
      · exact sendFailed_dropped
          (s := { s with stateTracker := t, requestMap := putRequest command tracked s.requestMap }) hmem

/-- A command is dropped when it is of no use to another transport, or after the shutdown command. -/
theorem step_dropped (h : Step settings s outputs s') (hmem : .dropped command ∈ outputs) :
    Useless command ∨ s.shutdown = true := by
  cases h with
  | callConnected called sends =>
    rcases mem_cons.mp hmem with heq | hmem
    · cases heq
    · exact .inr (attempt_dropped hmem)
  | @retry before after called sends => exact .inr (attempt_dropped (s := { s with pending := before ++ after }) hmem)
  | callAck ack =>
    rw [cons_append] at hmem
    rcases mem_cons.mp hmem with heq | hmem
    · cases heq
    · rcases mem_append.mp hmem with hmem | hmem
      · exact absurd hmem (dropped_of_quiet (simulateResponse_accounts (.messageAck ack) s).2.2 command)
      · cases mem_singleton.mp hmem
        exact .inl (.messageAck ack)
  | callRemove info =>
    rw [cons_append] at hmem
    rcases mem_cons.mp hmem with heq | hmem
    · cases heq
    · rcases mem_append.mp hmem with hmem | hmem
      · exact absurd hmem (dropped_of_quiet (simulateResponse_accounts (.removeInfo info) s).2.2 command)
      · cases mem_singleton.mp hmem
  | callPull pull =>
    rcases mem_pair.mp hmem with heq | heq <;> cases heq
    exact .inl (.messagePull pull)
  | callShutdown info =>
    rcases mem_pair.mp hmem with heq | heq <;> cases heq
    exact .inl (.shutdownInfo info)
  | callWaits => cases mem_singleton.mp hmem
  | callClosed => rcases mem_pair.mp hmem with heq | heq <;> cases heq
  | giveUpClosed => cases mem_singleton.mp hmem
  | giveUp => cases mem_singleton.mp hmem
  | resume => cases mem_singleton.mp hmem
  | failure => exact absurd hmem (dropped_of_quiet (handleTransportFailure_quiet settings s).2 command)
  | response correlationId => exact absurd hmem (dropped_of_quiet (processResponse_accounts correlationId s).2.2 command)
  | @restored _ r =>
    rcases mem_append.mp hmem with hmem | hmem
    · exact absurd hmem (dropped_of_quiet (quiet_completed r.completed).2 command)
    · cases mem_singleton.mp hmem
  | @restoreFails r | @startFails r => exact absurd hmem (dropped_of_quiet (quiet_completed r.completed).2 command)
  | disconnect | connect | giveUpReconnecting | start | stop | close => cases hmem

end Steps

end ActiveMQCpp.Failover
