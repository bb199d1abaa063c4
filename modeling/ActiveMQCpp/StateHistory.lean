import ActiveMQCpp.StateReplay

/-! Histories of a tracker, and what a replay sends at the end of any of them. -/

namespace ActiveMQCpp.State

open Codec Decaf OrderedMap Live

variable {κ : Type} [LinearOrder κ]

/-- What happens to a tracker, as far as it matters for what is live. -/
inductive Event (κ : Type) where
  | tracked (command : Command κ)
  | refused (command : Command κ)
  | completed (tracked : Tracked κ)
  | interrupted
  | resumed (id : ConnectionId κ)

noncomputable def Live.step (config : Config) (live : Live κ) : Event κ → Live κ
  | .tracked command => live.track config command
  | .refused command => live.refuse config command
  | .completed tracked => live.complete tracked
  | .interrupted => live.interrupt
  | .resumed id => live.resume id

noncomputable def Live.after (config : Config) (events : List (Event κ)) : Live κ :=
  events.foldl (Live.step config) Live.nothing

/-- A replay that starts on a fresh transport, which fails at a given command or never. -/
def Restoring.new (t : Tracker κ) (requests : OrderedMap Int (Command κ)) (failAt : Option Nat) : Restoring κ :=
  ⟨t, requests, [], [], [], failAt⟩

@[simp] theorem Restoring.new_tracker (t : Tracker κ) (requests : OrderedMap Int (Command κ)) (failAt : Option Nat) :
    (Restoring.new t requests failAt).tracker = t := rfl

/-- The trackers that a history can lead to. Replays that come to their end and replays that fail are part
of it. -/
inductive History (config : Config) : List (Event κ) → Tracker κ → Prop where
  | start : History config [] Tracker.new
  | track {events : List (Event κ)} {t t' : Tracker κ} {r : Option (Tracked κ)} (command : Command κ)
      (h : History config events t) (hrun : track config command t = .ok r t') :
      History config (events ++ [.tracked command]) t'
  | refuse {events : List (Event κ)} {t t' : Tracker κ} {failure : Failure} (command : Command κ)
      (h : History config events t) (hrun : track config command t = .error failure t') :
      History config (events ++ [.refused command]) t'
  | trackBack {events : List (Event κ)} {t : Tracker κ} (command : Command κ) (h : History config events t) :
      History config events (trackBack config command t)
  | response {events : List (Event κ)} {t t' : Tracker κ} (tracked : Tracked κ) (h : History config events t)
      (hrun : tracked.onResponse t = .ok () t') : History config (events ++ [.completed tracked]) t'
  | interrupt {events : List (Event κ)} {t : Tracker κ} (h : History config events t) :
      History config (events ++ [.interrupted]) (transportInterrupted t)
  | resume {events : List (Event κ)} {t t' : Tracker κ} {stalled : List (ConsumerControl κ)} (id : ConnectionId κ)
      (h : History config events t) (hrun : connectionInterruptProcessingComplete id t = .ok stalled t') :
      History config (events ++ [.resumed id]) t'
  | restore {events : List (Event κ)} {t : Tracker κ} {s : Restoring κ} (version : Int)
      (requests : OrderedMap Int (Command κ)) (failAt : Option Nat) (h : History config events t)
      (hrun : restore config version (.new t requests failAt) = .ok () s ∨
        ∃ failure, restore config version (.new t requests failAt) = .error failure s) :
      History config (events ++ s.completed.map .completed) s.tracker

theorem Live.after_append (config : Config) (events events' : List (Event κ)) :
    after config (events ++ events') = events'.foldl (step config) (after config events) :=
  List.foldl_append

theorem Live.after_completed (config : Config) (events : List (Event κ)) (completed : List (Tracked κ)) :
    after config (events ++ completed.map .completed) = completed.foldl complete (after config events) := by
  rw [after_append, List.foldl_map]
  rfl

/-- Whatever has happened, the tracker holds exactly what is live. -/
theorem History.refines {config : Config} {events : List (Event κ)} {t : Tracker κ} (h : History config events t) :
    t.Inv ∧ t.live = after config events := by
  induction h with
  | start => exact ⟨Tracker.inv_new, Tracker.live_new⟩
  | track command h hrun ih =>
    have hsim := simulates_track config command _ ih.1
    rw [hrun] at hsim
    rw [after_append, ← ih.2]
    exact hsim
  | refuse command h hrun ih =>
    have hsim := simulates_track config command _ ih.1
    rw [hrun] at hsim
    rw [after_append, ← ih.2]
    exact hsim
  | trackBack command h ih => exact ⟨inv_trackBack config command ih.1, (live_trackBack config command _).trans ih.2⟩
  | response tracked h hrun ih =>
    have hsim := simulates_onResponse tracked _ ih.1
    rw [hrun] at hsim
    rw [after_append, ← ih.2]
    exact hsim
  | interrupt h ih =>
    rw [after_append, ← ih.2]
    exact ⟨inv_transportInterrupted ih.1, live_transportInterrupted _⟩
  | resume id h hrun ih =>
    have hsim := simulates_connectionInterruptProcessingComplete id _ ih.1
    rw [hrun] at hsim
    rw [after_append, ← ih.2]
    exact hsim
  | @restore _ t s version requests failAt h hrun ih =>
    have hdoes := restore_does (s := .new t requests failAt) ih.1 config version
    obtain ⟨sent, answered, completed, hreplayed⟩ :
        ∃ sent answered completed, Replayed (.new t requests failAt) s sent answered completed := by
      unfold Does at hdoes
      rcases hrun with hok | ⟨failure, herror⟩
      · rw [hok] at hdoes
        obtain ⟨_, _, _, _, _, _, hreplayed⟩ := hdoes
        exact ⟨_, _, _, hreplayed⟩
      · rw [herror] at hdoes
        exact hdoes.1
    have hcompleted : s.completed = completed := hreplayed.completed_eq
    rw [after_completed, hcompleted, ← ih.2]
    exact ⟨hreplayed.inv, hreplayed.live_eq⟩

/-- At the end of any history a replay that returns has sent, for each live connection in the order of the
ids, the connection, its temporary destinations, its live sessions with their producers and consumers, and
its open transactions, and then the cached messages and pulls; and it returns unless the transport fails or
the completion of a request throws. Nothing is said about the temporary destinations of a connection on
which one was removed. -/
theorem restore_replays_live {config : Config} {events : List (Event κ)} {t : Tracker κ}
    (h : History config events t) (version : Int) (requests : OrderedMap Int (Command κ)) (failAt : Option Nat) :
    (∀ s, restore config version (.new t requests failAt) = .ok () s →
      ∃ connections temps sent inDoubt completed,
        Enumerates connections (Live.after config events).connection ∧
        (∀ id, (∀ info, .tracked (.destinationInfo info) ∈ events → info.connectionId = id →
            info.destination.isTemporary = true → info.operationType = .add) →
          temps id = (Live.after config events).announced id) ∧
        Replay config version temps (Live.after config events) connections sent inDoubt completed ∧
        s.answered = inDoubt.map (fun info => ⟨info.commandId, info.transactionId⟩) ∧
        s.sent = sent ++ t.messageCache.map (fun e => .message e.2) ++
          t.messagePullCache.map fun e => .messagePull e.2) ∧
    (failAt = none → (∀ n tracked, requests.find n ≠ some (.tracked tracked)) →
      ∃ s, restore config version (.new t requests failAt) = .ok () s) := by
  obtain ⟨hinv, hlive⟩ := h.refines
  have hdoes := restore_does (s := .new t requests failAt) hinv config version
  unfold Does at hdoes
  constructor
  · intro s hrun
    rw [hrun] at hdoes
    obtain ⟨connections, sent, inDoubt, completed, henum, hreplay, hreplayed⟩ := hdoes
    change Enumerates connections t.live.connection at henum
    change Replay config version t.live.announced t.live connections sent inDoubt completed at hreplay
    rw [hlive] at henum hreplay
    exact ⟨connections, _, sent, inDoubt, completed, henum, fun _ _ => rfl, hreplay, hreplayed.answered_eq,
      hreplayed.sent_eq⟩
  · intro hfail hrequests
    cases hrun : restore config version (.new t requests failAt) with
    | ok u s => exact ⟨s, rfl⟩
    | error failure s =>
      rw [hrun] at hdoes
      rcases hdoes.2 with hne | ⟨n, tracked, hfind⟩
      · exact absurd hfail hne
      · exact absurd hfind (hrequests n tracked)

/-! ### A short transaction -/

def trackAll (config : Config) : List (Command κ) → Track κ Unit
  | [] => pure ()
  | command :: commands => do
    let _ ← track config command
    trackAll config commands

theorem History.trackAll {config : Config} {events : List (Event κ)} {t t' : Tracker κ} {commands : List (Command κ)}
    (h : History config events t) (hrun : trackAll config commands t = .ok () t') :
    History config (events ++ commands.map .tracked) t' := by
  induction commands generalizing events t with
  | nil =>
    cases hrun
    rwa [List.map_nil, List.append_nil]
  | cons command commands ih =>
    obtain ⟨r, t₁, hfirst, hrest⟩ := bind_eq_ok.mp hrun
    have h' := ih (.track command h hfirst) hrest
    rwa [List.append_assoc] at h'

/-- A producer sends a message in a transaction and is closed before the transaction is over. -/
def shortTransaction : List (Command Nat) :=
  [.connectionInfo { connectionId := ⟨0⟩ },
    .sessionInfo { sessionId := ⟨0, 1⟩ },
    .producerInfo { producerId := ⟨0, 1, 7⟩ },
    .transactionInfo { connectionId := ⟨0⟩, transactionId := .local ⟨0, 5⟩, type := .begin },
    .message { messageId := 0, producerId := ⟨0, 1, 7⟩, transactionId := some (.local ⟨0, 5⟩), size := 3 },
    .removeInfo { objectId := .producer ⟨0, 1, 7⟩ }]

/-- How the failover transport sets up its tracker. -/
def transactedConfig : Config := { trackTransactions := true }

def shortTracker : Tracker Nat := stateOf (trackAll transactedConfig shortTransaction Tracker.new)

def shortReplay : Restoring Nat := stateOf (restore transactedConfig 10 (.new shortTracker .empty none))

theorem history_shortTransaction : History transactedConfig (shortTransaction.map .tracked) shortTracker := by
  have hreturns : returns (trackAll transactedConfig shortTransaction Tracker.new) = true := by decide +kernel
  obtain ⟨_, hrun⟩ := eq_ok_of_returns hreturns
  exact History.start.trackAll hrun

theorem restore_shortTransaction :
    restore transactedConfig 10 (.new shortTracker .empty none) = .ok () shortReplay := by
  have hreturns : returns (restore transactedConfig 10 (.new shortTracker .empty none)) = true := by decide +kernel
  obtain ⟨_, hrun⟩ := eq_ok_of_returns hreturns
  exact hrun

theorem restore_replays_short_transaction :
    ∃ s, restore transactedConfig 10 (.new shortTracker .empty none) = .ok () s ∧
      ∃ connections temps sent inDoubt completed,
        Enumerates connections (Live.after transactedConfig (shortTransaction.map .tracked)).connection ∧
        (∀ id, temps id = (Live.after transactedConfig (shortTransaction.map .tracked)).announced id) ∧
        Replay transactedConfig 10 temps (Live.after transactedConfig (shortTransaction.map .tracked)) connections
          sent inDoubt completed ∧
        s.sent = sent := by
  obtain ⟨hsent, hreturns⟩ := restore_replays_live history_shortTransaction 10 .empty none
  obtain ⟨s, hs⟩ := hreturns rfl fun n tracked h => by cases h
  obtain ⟨connections, temps, sent, inDoubt, completed, henum, htemps, hreplay, -, heq⟩ := hsent s hs
  refine ⟨s, hs, connections, temps, sent, inDoubt, completed, henum, fun id => htemps id ?_, hreplay, ?_⟩
  · intro info hmem
    simp [shortTransaction] at hmem
  · rw [heq]
    change sent ++ [] ++ [] = sent
    rw [List.append_nil, List.append_nil]

/-- The closed producer is announced again for the replay of its transaction. -/
theorem restore_announces_closed_producer :
    ∃ s info, History transactedConfig (shortTransaction.map .tracked) shortTracker ∧
      restore transactedConfig 10 (.new shortTracker .empty none) = .ok () s ∧ .producerInfo info ∈ s.sent ∧
      (Live.after transactedConfig (shortTransaction.map .tracked)).producer info.producerId = none := by
  have hany : (shortReplay.sent.any fun c =>
      match c with
      | .producerInfo info => decide (info.producerId = ⟨0, 1, 7⟩)
      | _ => false) = true := by
    decide +kernel
  obtain ⟨command, hmem, hproducer⟩ := List.any_eq_true.mp hany
  cases command with
  | producerInfo info =>
    refine ⟨shortReplay, info, history_shortTransaction, restore_shortTransaction, hmem, ?_⟩
    rw [of_decide_eq_true hproducer]
    rfl
  | _ => cases hproducer

end ActiveMQCpp.State
