import ActiveMQCpp.StateHistory

/-! `FailoverTransport`: calls of `oneway`, the failures of the connected transport, and reconnections, as
steps of one machine. The threads exclude each other by the reconnect mutex, which a call gives up only
while it waits for a transport, so a step is what a thread does between two such points. -/

namespace ActiveMQCpp.Failover

open Codec Decaf State

variable {κ : Type} [LinearOrder κ]

structure Settings where
  timeout : Int := -1
  maxReconnectAttempts : Int := -1
  startupMaxReconnectAttempts : Int := -1
  trackMessages : Bool := false
  trackTransactionProducers : Bool := true
  maxCacheSize : Int := 128 * 1024
  maxPullCacheSize : Int := 10

/-- How the constructor and `start` set up the tracker. -/
def Settings.config (settings : Settings) : Config where
  trackTransactions := true
  trackMessages := settings.trackMessages
  trackTransactionProducers := settings.trackTransactionProducers
  maxMessageCacheSize := settings.maxCacheSize
  maxMessagePullCacheSize := settings.maxPullCacheSize

/-- `connected` says whether there is a connected transport, `failed` whether the connection failure is
set; `pending` are the calls of `oneway` that wait for a transport. -/
structure FailoverTransport (κ : Type) [LinearOrder κ] where
  stateTracker : Tracker κ
  requestMap : OrderedMap Int (Command κ)
  connected : Bool
  firstConnection : Bool
  started : Bool
  closed : Bool
  shutdown : Bool
  failed : Bool
  pending : List (Command κ)

def FailoverTransport.new : FailoverTransport κ :=
  ⟨Tracker.new, .empty, false, true, false, false, false, false, []⟩

/-- What can be seen of a step. A call of `oneway` ends in one of four ways: it returns after the transport
has taken the command, it returns though the command has not been sent, it returns because the command is
of no use to another transport, or it throws. -/
inductive Output (κ : Type) where
  | called (command : Command κ)
  | tracked (command : Command κ)
  | refused (command : Command κ)
  | completed (tracked : Tracked κ)
  | interrupted
  | resumed (id : ConnectionId κ)
  | delivered (command : Command κ)
  | undelivered (command : Command κ)
  | dropped (command : Command κ)
  | threw (command : Command κ)
  | restored (sent : List (Command κ)) (answered : List (ExceptionResponse κ))

def calculateReconnectAttemptLimit (settings : Settings) (s : FailoverTransport κ) : Int :=
  if s.firstConnection && settings.startupMaxReconnectAttempts ≠ -1 then settings.startupMaxReconnectAttempts
  else settings.maxReconnectAttempts

def canReconnect (settings : Settings) (s : FailoverTransport κ) : Bool :=
  s.started && calculateReconnectAttemptLimit settings s ≠ 0

def willReconnect (settings : Settings) (s : FailoverTransport κ) : Bool :=
  s.firstConnection || calculateReconnectAttemptLimit settings s ≠ 0

def handleTransportFailure (settings : Settings) (s : FailoverTransport κ) :
    FailoverTransport κ × List (Output κ) :=
  if s.connected && !s.shutdown then
    ({ s with
        connected := false
        stateTracker := transportInterrupted s.stateTracker
        failed := s.failed || (!canReconnect settings s && !s.closed) }, [.interrupted])
  else (s, [])

/-- A request is kept until it is answered, as the `Tracked` object when there is one. -/
def putRequest (command : Command κ) (tracked : Option (Tracked κ)) (requests : OrderedMap Int (Command κ)) :
    OrderedMap Int (Command κ) :=
  match tracked with
  | some t => if t.isWaitingForResponse then requests.insert command.base.commandId (.tracked t) else requests
  | none => if command.base.responseRequired then requests.insert command.base.commandId command else requests

def removeRequest (command : Command κ) (requests : OrderedMap Int (Command κ)) : OrderedMap Int (Command κ) :=
  if command.base.responseRequired then requests.erase command.base.commandId else requests

def isMessage : Command κ → Bool
  | .message _ => true
  | _ => false

def isShutdownInfo : Command κ → Bool
  | .shutdownInfo _ => true
  | _ => false

/-- The transport has thrown an `IOException`. A command that is not tracked is tried again when there can be
another transport; with the shutdown command sent there may be one even when it cannot be reached now. -/
def sendFailed (settings : Settings) (command : Command κ) (tracked : Option (Tracked κ))
    (s : FailoverTransport κ) : FailoverTransport κ × List (Output κ) :=
  if tracked.isNone && canReconnect settings s then
    handleTransportFailure settings
      { s with
        requestMap := removeRequest command s.requestMap
        pending := s.pending ++ [command] }
  else
    let (s', outputs) := handleTransportFailure settings s
    if tracked.isNone && s.shutdown then (s', outputs ++ [.dropped command])
    else (s', outputs ++ [.undelivered command])

/-- One round of the loop of `oneway`, with a connected transport that takes the command or fails. -/
def attempt (settings : Settings) (command : Command κ) (sends : Bool) (s : FailoverTransport κ) :
    FailoverTransport κ × List (Output κ) :=
  match track settings.config command s.stateTracker with
  | .error _ t => ({ s with stateTracker := t }, [.refused command, .threw command])
  | .ok tracked t =>
    let requests := putRequest command tracked s.requestMap
    if sends then
      ({ s with
          stateTracker := trackBack settings.config command t
          requestMap := requests
          shutdown := s.shutdown || isShutdownInfo command }, [.tracked command, .delivered command])
    else
      let (s', outputs) := sendFailed settings command tracked { s with stateTracker := t, requestMap := requests }
      (s', .tracked command :: outputs)

/-- The response to a request has arrived. -/
def processResponse (correlationId : Int) (s : FailoverTransport κ) : FailoverTransport κ × List (Output κ) :=
  let requests := s.requestMap.erase correlationId
  match (s.requestMap.find correlationId).bind Command.tracked? with
  | some tracked =>
    match tracked.onResponse s.stateTracker with
    | .ok _ t => ({ s with stateTracker := t, requestMap := requests }, [.completed tracked])
    | .error _ t => ({ s with stateTracker := t, requestMap := requests }, [])
  | none => ({ s with requestMap := requests }, [])

/-- A removal or an acknowledgement without a transport: it is tracked and gets the response it asks for.
What the tracker throws is caught at the end of `oneway`, and the call returns. -/
def simulateResponse (settings : Settings) (command : Command κ) (s : FailoverTransport κ) :
    FailoverTransport κ × List (Output κ) :=
  match track settings.config command s.stateTracker with
  | .error _ t => ({ s with stateTracker := t }, [.refused command])
  | .ok _ t =>
    if command.base.responseRequired then
      let (s', outputs) := processResponse command.base.commandId { s with stateTracker := t }
      (s', .tracked command :: outputs)
    else ({ s with stateTracker := t }, [.tracked command])

/-- The commands that a call deals with in its own way when there is no transport. -/
inductive Stale : Command κ → Prop where
  | removeInfo (info : RemoveInfo κ) : Stale (.removeInfo info)
  | messageAck (ack : MessageAck κ) : Stale (.messageAck ack)
  | messagePull (pull : MessagePull κ) : Stale (.messagePull pull)
  | shutdownInfo (info : ShutdownInfo) : Stale (.shutdownInfo info)

def restoreTransport (config : Config) (version : Int) : Restore κ Unit :=
  mapError catchExceptionConvert do
    oneway (.connectionControl { faultTolerant := true })
    restore config version
    let s ← get
    onewayAll s.requestMap.values

/-- What a replay leaves behind, whether it comes to its end or not. -/
def afterRestore (s : FailoverTransport κ) (r : Restoring κ) : FailoverTransport κ :=
  { s with
    stateTracker := r.tracker
    requestMap := r.requestMap }

/-- A replay that comes to its end: on a new transport, or on the connected one when the failover transport
is started again. -/
inductive Restores (settings : Settings) (s : FailoverTransport κ) (r : Restoring κ) :
    FailoverTransport κ → Prop where
  | reconnect (version : Int) (failAt : Option Nat) (hconnected : s.connected = false) (hclosed : s.closed = false)
      (hfailed : s.failed = false) (hstarted : s.started = true) (hfirst : s.firstConnection = false)
      (hrun : restoreTransport settings.config version (.new s.stateTracker s.requestMap failAt) = .ok () r) :
      Restores settings s r { afterRestore s r with connected := true }
  | start (version : Int) (failAt : Option Nat) (hconnected : s.connected = true) (hstarted : s.started = false)
      (hrun : restore settings.config version (.new s.stateTracker s.requestMap failAt) = .ok () r) :
      Restores settings s r { afterRestore s r with started := true }

inductive Step (settings : Settings) : FailoverTransport κ → List (Output κ) → FailoverTransport κ → Prop where
  | callConnected {s : FailoverTransport κ} (command : Command κ) (sends : Bool) (hconnected : s.connected = true)
      (hclosed : s.closed = false) :
      Step settings s (.called command :: (attempt settings command sends s).2) (attempt settings command sends s).1
  | callRemove {s : FailoverTransport κ} (info : RemoveInfo κ) (hconnected : s.connected = false) :
      Step settings s (.called (.removeInfo info) :: (simulateResponse settings (.removeInfo info) s).2 ++
        [.undelivered (.removeInfo info)]) (simulateResponse settings (.removeInfo info) s).1
  | callAck {s : FailoverTransport κ} (ack : MessageAck κ) (hconnected : s.connected = false) :
      Step settings s (.called (.messageAck ack) :: (simulateResponse settings (.messageAck ack) s).2 ++
        [.dropped (.messageAck ack)]) (simulateResponse settings (.messageAck ack) s).1
  | callPull {s : FailoverTransport κ} (pull : MessagePull κ) (hconnected : s.connected = false) :
      Step settings s [.called (.messagePull pull), .dropped (.messagePull pull)] s
  | callShutdown {s : FailoverTransport κ} (info : ShutdownInfo) (hconnected : s.connected = false) :
      Step settings s [.called (.shutdownInfo info), .dropped (.shutdownInfo info)] s
  | callWaits {s : FailoverTransport κ} (command : Command κ) (hstale : ¬Stale command)
      (hconnected : s.connected = false) (hclosed : s.closed = false) :
      Step settings s [.called command] { s with pending := s.pending ++ [command] }
  | callClosed {s : FailoverTransport κ} (command : Command κ) (hstale : ¬Stale command)
      (hconnected : s.connected = false) (hclosed : s.closed = true) :
      Step settings s [.called command, .undelivered command] s
  | retry {s : FailoverTransport κ} {before after : List (Command κ)} (command : Command κ) (sends : Bool)
      (hpending : s.pending = before ++ command :: after) (hconnected : s.connected = true)
      (hclosed : s.closed = false) :
      Step settings s (attempt settings command sends { s with pending := before ++ after }).2
        (attempt settings command sends { s with pending := before ++ after }).1
  | giveUpClosed {s : FailoverTransport κ} {before after : List (Command κ)} (command : Command κ)
      (hpending : s.pending = before ++ command :: after) (hclosed : s.closed = true) :
      Step settings s [.undelivered command] { s with pending := before ++ after }
  | giveUp {s : FailoverTransport κ} {before after : List (Command κ)} (command : Command κ)
      (hpending : s.pending = before ++ command :: after) (hconnected : s.connected = false)
      (hclosed : s.closed = false) (hreason : s.failed = true ∨ willReconnect settings s = false ∨
        isMessage command = true ∧ settings.timeout > 0) :
      Step settings s [.threw command] { s with pending := before ++ after }
  | failure {s : FailoverTransport κ} :
      Step settings s (handleTransportFailure settings s).2 (handleTransportFailure settings s).1
  | disconnect {s : FailoverTransport κ} : Step settings s [] { s with connected := false }
  | response {s : FailoverTransport κ} (correlationId : Int) :
      Step settings s (processResponse correlationId s).2 (processResponse correlationId s).1
  | resume {s : FailoverTransport κ} {t : Tracker κ} {stalled : List (ConsumerControl κ)} (id : ConnectionId κ)
      (hrun : connectionInterruptProcessingComplete id s.stateTracker = .ok stalled t) :
      Step settings s [.resumed id] { s with stateTracker := t }
  | connect {s : FailoverTransport κ} (hconnected : s.connected = false) (hclosed : s.closed = false)
      (hfailed : s.failed = false) (hplain : s.started = false ∨ s.firstConnection = true) :
      Step settings s [] { s with connected := true, firstConnection := false }
  | restored {s s' : FailoverTransport κ} {r : Restoring κ} (hrestores : Restores settings s r s') :
      Step settings s (r.completed.map .completed ++ [.restored r.sent r.answered]) s'
  | restoreFails {s : FailoverTransport κ} {r : Restoring κ} {failure : Failure} (version : Int)
      (failAt : Option Nat) (hconnected : s.connected = false) (hclosed : s.closed = false)
      (hfailed : s.failed = false) (hstarted : s.started = true) (hfirst : s.firstConnection = false)
      (hrun : restoreTransport settings.config version (.new s.stateTracker s.requestMap failAt) = .error failure r) :
      Step settings s (r.completed.map .completed) (afterRestore s r)
  | startFails {s : FailoverTransport κ} {r : Restoring κ} {failure : Failure} (version : Int)
      (failAt : Option Nat) (hconnected : s.connected = true) (hstarted : s.started = false)
      (hrun : restore settings.config version (.new s.stateTracker s.requestMap failAt) = .error failure r) :
      Step settings s (r.completed.map .completed) { afterRestore s r with started := true }
  | giveUpReconnecting {s : FailoverTransport κ} (hlimit : calculateReconnectAttemptLimit settings s ≠ -1) :
      Step settings s [] { s with failed := true }
  | start {s : FailoverTransport κ} (hconnected : s.connected = false) :
      Step settings s [] { s with started := true }
  | stop {s : FailoverTransport κ} : Step settings s [] { s with started := false }
  | close {s : FailoverTransport κ} :
      Step settings s [] { s with started := false, closed := true, connected := false, requestMap := .empty }

inductive Run (settings : Settings) : List (Output κ) → FailoverTransport κ → Prop where
  | new : Run settings [] FailoverTransport.new
  | step {trace outputs : List (Output κ)} {s s' : FailoverTransport κ} (h : Run settings trace s)
      (hstep : Step settings s outputs s') : Run settings (trace ++ outputs) s'

end ActiveMQCpp.Failover
