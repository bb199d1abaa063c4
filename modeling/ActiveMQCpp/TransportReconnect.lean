import ActiveMQCpp.LibMachineInt
import ActiveMQCpp.TransportBackupPool

/-! `FailoverTransport::iterate`: the attempts to connect, the delay between them and the limit after which the
transport gives up. -/

namespace ActiveMQCpp.Reconnect

open Codec Decaf Runs MachineInt Backup

variable {υ : Type} [DecidableEq υ]

/-! ### The transport -/

structure Settings where
  initialReconnectDelay : Int := 10
  maxReconnectDelay : Int := 30000
  backOffMultiplier : Int := 2
  useExponentialBackOff : Bool := true
  maxReconnectAttempts : Int := -1
  startupMaxReconnectAttempts : Int := -1
  updateURIsSupported : Bool := true
  priorityBackup : Bool := false

def defaultInitialReconnectDelay : Int := 10

def infiniteWait : Int := -1

/-- The connected transport goes by its URI. The pool of the backups has the URI pools, which it shares with the
transport. What is seen from outside is kept as it happens: the exceptions that the listener got, the number
of attempts to connect, and the number of iterations that failed since the last that did not. -/
structure Transport (υ : Type) where
  closed : Bool := false
  started : Bool := false
  shutdown : Bool := false
  firstConnection : Bool := true
  connectFailures : Int := 0
  reconnectDelay : Int := defaultInitialReconnectDelay
  doRebalance : Bool := false
  connectedToPriority : Bool := false
  connectedTransport : Option υ := none
  connectionFailure : Option Failure := none
  hasListener : Bool := false
  pools : BackupTransportPool υ := {}
  notified : List Failure := []
  attempts : Nat := 0
  failedInRow : Nat := 0

namespace Transport

variable (settings : Settings) (s : Transport υ)

def usesUpdated : Bool := settings.updateURIsSupported && !s.pools.updates.isEmpty

/-- The pool that `getConnectList` chooses when `updated` says so, or else the original one. -/
def connectList (updated : Bool) : URIPool υ := if updated then s.pools.updates else s.pools.uriPool

def setConnectList (updated : Bool) (list : URIPool υ) : Transport υ :=
  { s with pools := if updated then { s.pools with updates := list } else { s.pools with uriPool := list } }

def doDelay : Transport υ :=
  if settings.useExponentialBackOff then
    { s with reconnectDelay := min (toInt64 (s.reconnectDelay * settings.backOffMultiplier)) settings.maxReconnectDelay }
  else s

def calculateReconnectAttemptLimit : Int :=
  if s.firstConnection && settings.startupMaxReconnectAttempts ≠ infiniteWait then settings.startupMaxReconnectAttempts
  else settings.maxReconnectAttempts

def canReconnect : Bool := s.started && s.calculateReconnectAttemptLimit settings ≠ 0

def willReconnect : Bool := s.firstConnection || s.calculateReconnectAttemptLimit settings ≠ 0

def resetReconnectDelay : Transport υ :=
  if !settings.useExponentialBackOff || s.reconnectDelay = defaultInitialReconnectDelay then
    { s with reconnectDelay := settings.initialReconnectDelay }
  else s

def isClosedOrFailed : Bool := s.closed || s.connectionFailure.isSome

def isConnectionStateValid : Bool :=
  s.connectedTransport.isSome && !s.doRebalance && !(s.pools.priorityBackups > 0)

def disconnect : Transport υ :=
  match s.connectedTransport with
  | none => s
  | some uri =>
    { s with
      connectedTransport := none
      pools := { s.pools with uriPool := s.pools.uriPool.addURI uri } }

end Transport

/-! ### An iteration -/

/-- The index of a random choice, and the exception that an attempt to connect ends with, if it does. -/
structure Attempt where
  index : Nat := 0
  failure : Option Failure

inductive Outcome where
  | idle
  | stays
  | connects
  | fails
  | givesUp
  deriving DecidableEq

/-- How the loop ends: with a connection, or with the URIs that failed and the last exception. -/
inductive Tried (υ : Type) where
  | connected (s : Transport υ)
  | exhausted (failure : Option Failure) (failures : List υ) (s : Transport υ)

def connected (settings : Settings) (updated : Bool) (uri : υ) (failures : List υ) (s : Transport υ) : Transport υ :=
  let list := s.connectList updated
  { s.setConnectList updated (list.addURIs failures) with
    reconnectDelay := settings.initialReconnectDelay
    connectedTransport := some uri
    connectFailures := 0
    connectedToPriority := settings.priorityBackup && (list.isPriority uri || s.pools.priorityUriPool.contains uri)
    firstConnection := false
    attempts := s.attempts + 1
    failedInRow := 0 }

/-- The loop, which begins with the transport of a backup if there is one. -/
def connectLoop (settings : Settings) (updated : Bool) (turns : Nat → Attempt) :
    Nat → Nat → Option υ → Option Failure → List υ → Transport υ → Tried υ
  | 0, _, _, failure, failures, s => .exhausted failure failures s
  | fuel + 1, n, some uri, _, failures, s =>
    match (turns n).failure with
    | none => .connected (connected settings updated uri failures s)
    | some e =>
      connectLoop settings updated turns fuel (n + 1) none (some e) (failures ++ [uri])
        { s with attempts := s.attempts + 1 }
  | fuel + 1, n, none, failure, failures, s =>
    match (s.connectList updated).getURI (turns n).index with
    | none => .exhausted failure failures s
    | some (uri, list) =>
      let s := s.setConnectList updated list
      match (turns n).failure with
      | none => .connected (connected settings updated uri failures s)
      | some e =>
        connectLoop settings updated turns fuel (n + 1) none (some e) (failures ++ [uri])
          { s with attempts := s.attempts + 1 }

def noURIs : Failure := .thrown .ioException "No URIs available for reconnect."

def nullPointer : Failure := .thrown .nullPointerException "Pointer operator& - Pointee is NULL."

def toIOException : Failure → Failure
  | .thrown type message => if type.isIOException then .thrown type message else .thrown .ioException message
  | .undefined => .undefined

def propagateFailureToExceptionListener (s : Transport υ) : EStateM.Result Failure (Transport υ) Outcome :=
  if s.hasListener then
    match s.connectionFailure with
    | none => .error nullPointer s
    | some e => .ok .givesUp { s with notified := s.notified ++ [toIOException e] }
  else .ok .givesUp s

/-- The end of an iteration that has not connected. `listens` says that a listener is set before the wait for one
ends. -/
def endIteration (settings : Settings) (listens : Bool) (failure : Option Failure) (s : Transport υ) :
    EStateM.Result Failure (Transport υ) Outcome :=
  let limit := s.calculateReconnectAttemptLimit settings
  let s := { s with
    connectFailures := if limit ≠ infiniteWait then toInt32 (s.connectFailures + 1) else s.connectFailures
    failedInRow := s.failedInRow + 1 }
  if limit ≠ infiniteWait ∧ s.connectFailures > limit then
    propagateFailureToExceptionListener
      { s with connectionFailure := failure, hasListener := s.hasListener || listens }
  else .ok .fails (s.doDelay settings)

/-- A backup is taken when there is one, and the connection is given up for a priority backup. -/
def takeBackup (settings : Settings) (s : Transport υ) : Option υ × Transport υ :=
  if s.pools.enabled then
    match s.pools.backups with
    | [] => (none, { s with pools := { s.pools with pending := true } })
    | backup :: rest =>
      let s := { s with pools := { s.pools with backups := rest, pending := true } }
      (some backup.uri, if settings.priorityBackup && s.pools.priorityBackups > 0 then s.disconnect else s)
  else (none, s)

def tryAll (settings : Settings) (updated : Bool) (turns : Nat → Attempt) (listens : Bool) (s : Transport υ) :
    EStateM.Result Failure (Transport υ) Outcome :=
  let (backup, s) := takeBackup settings (s.resetReconnectDelay settings)
  if s.connectedTransport.isSome then endIteration settings listens none s
  else
    match connectLoop settings updated turns ((s.connectList updated).uris.length + 2) 0 backup none [] s with
    | .connected s => .ok .connects s
    | .exhausted failure failures s =>
      endIteration settings listens failure (s.setConnectList updated ((s.connectList updated).addURIs failures))

def iterate (settings : Settings) (turns : Nat → Attempt) (listens : Bool) :
    EStateM Failure (Transport υ) Outcome := fun s =>
  let updated := s.usesUpdated settings
  let list := s.connectList updated
  if s.isConnectionStateValid || s.isClosedOrFailed then .ok .idle s
  else if list.isEmpty && !s.pools.enabled then endIteration settings listens (some noURIs) s
  else if s.doRebalance then
    if s.connectedToPriority then .ok .stays { s with doRebalance := false }
    else
      match s.connectedTransport with
      | none => .error nullPointer s
      | some uri =>
        if list.isPriority uri then .ok .stays { s with doRebalance := false }
        else tryAll settings updated turns listens { s.disconnect with doRebalance := false }
  else tryAll settings updated turns listens s

/-! ### Calls -/

/-- The commands that `oneway` tells apart when there is no transport. -/
inductive Kind where
  | shutdownInfo
  | removeInfo
  | messageAck
  | messagePull
  | other
  deriving DecidableEq

/-- What a call of `oneway` comes to in a state. A call that waits looks at the state again later. -/
inductive Call where
  | returns
  | waits
  | sends
  | throws (failure : Failure)
  deriving DecidableEq

/-- `throw IOException(*error)`. -/
def asIOException : Failure → Failure
  | .thrown _ message => .thrown .ioException message
  | .undefined => .undefined

def oneway (settings : Settings) (kind : Kind) (s : Transport υ) : Call :=
  if s.connectedTransport.isNone && kind ≠ .other then .returns
  else if s.closed then .returns
  else if s.connectedTransport.isSome then .sends
  else
    match s.connectionFailure with
    | some e => .throws (asIOException e)
    | none =>
      if s.willReconnect settings then .waits
      else .throws (.thrown .ioException "Maximum reconnection attempts exceeded")

def handleTransportFailure (settings : Settings) (error : Failure) (s : Transport υ) : Transport υ :=
  if s.shutdown then s
  else
    match s.connectedTransport with
    | none => s
    | some failedUri =>
      let uriPool := s.pools.uriPool.addURI failedUri
      if s.canReconnect settings then
        { s with
          connectedTransport := none
          connectedToPriority := false
          pools := { s.pools with
            uriPool := uriPool
            updates := { s.pools.updates with uris := s.pools.updates.uris.erase failedUri } } }
      else
        { s with
          connectedTransport := none
          connectedToPriority := false
          pools := { s.pools with uriPool := uriPool }
          connectionFailure := if s.closed then s.connectionFailure else some error
          notified := if !s.closed && s.hasListener then s.notified ++ [toIOException error] else s.notified }

/-- What can happen to a transport. The pools are also changed by those that add and remove URIs and by the
backups. -/
inductive Event (υ : Type) where
  | iterate (turns : Nat → Attempt) (listens : Bool)
  | handleTransportFailure (error : Failure)
  | start
  | stop
  | close
  | reconnect (rebalance : Bool)
  | shutdownSent
  | setTransportListener (set : Bool)
  | configure (pools : BackupTransportPool υ)

def step (settings : Settings) (s : Transport υ) : Event υ → Option (Transport υ)
  | .iterate turns listens => some (stateOf (iterate settings turns listens s))
  | .handleTransportFailure error => some (handleTransportFailure settings error s)
  | .start => some { s with started := true }
  | .stop => some { s with started := false }
  | .close => some { s with closed := true, started := false, connectedTransport := none }
  | .reconnect rebalance => some { s with doRebalance := s.doRebalance || s.started && rebalance }
  | .shutdownSent => some { s with shutdown := true }
  | .setTransportListener set => some { s with hasListener := set }
  | .configure pools => some { s with pools := pools }

/-! ### What an iteration needs -/

/-- Something can be tried, or it can be said that there is nothing. Left out are iterations for a rebalance without
a transport that could be compared, those that find a transport connected and no reason to disconnect it, and
those that have no URI but wait for backups, of which there is none. -/
def Transport.ready (settings : Settings) (s : Transport υ) : Bool :=
  let list := s.connectList (s.usesUpdated settings)
  let nothing := list.isEmpty && !s.pools.enabled
  match s.connectedTransport with
  | none => nothing || (if s.doRebalance then s.connectedToPriority else !list.isEmpty || !s.pools.backups.isEmpty)
  | some _ =>
    !nothing && (s.doRebalance || settings.priorityBackup && s.pools.enabled && !s.pools.backups.isEmpty)

def Ready (settings : Settings) (s : Transport υ) : Event υ → Prop
  | .iterate _ _ => (s.isConnectionStateValid || s.isClosedOrFailed || s.ready settings) = true
  | _ => True

instance (settings : Settings) (s : Transport υ) : (e : Event υ) → Decidable (Ready settings s e)
  | .iterate _ _ => inferInstanceAs (Decidable (_ = true))
  | .handleTransportFailure _ | .start | .stop | .close | .reconnect _ | .shutdownSent | .setTransportListener _
  | .configure _ => isTrue trivial

structure Settings.Sensible (settings : Settings) : Prop where
  nonneg : 0 ≤ settings.initialReconnectDelay
  le_max : settings.initialReconnectDelay ≤ settings.maxReconnectDelay
  multiplier : 1 ≤ settings.backOffMultiplier
  fits : settings.maxReconnectDelay * settings.backOffMultiplier < 9223372036854775808
  fits_default : defaultInitialReconnectDelay * settings.backOffMultiplier < 9223372036854775808

/-- The delay is within its bounds, or is the one that the constructor sets. -/
def Transport.DelayBounded (settings : Settings) (s : Transport υ) : Prop :=
  0 ≤ s.reconnectDelay ∧ (s.reconnectDelay ≤ settings.maxReconnectDelay ∨
    s.reconnectDelay = defaultInitialReconnectDelay ∧ s.attempts = 0)

/-- The limit, if it is one that the counter can exceed. -/
def Transport.Limited (settings : Settings) (s : Transport υ) : Prop :=
  0 ≤ s.calculateReconnectAttemptLimit settings ∧ s.calculateReconnectAttemptLimit settings < 2147483647

structure Inv (settings : Settings) (s : Transport υ) : Prop where
  delay : s.DelayBounded settings
  counted : s.connectionFailure = none → s.Limited settings →
    s.connectFailures = s.failedInRow ∧ (s.failedInRow : Int) ≤ s.calculateReconnectAttemptLimit settings
  disconnected : s.connectionFailure.isSome = true → s.connectedTransport = none
  notified : s.connectionFailure = none → s.notified = []

section Delay

variable {settings : Settings} {s : Transport υ}

omit [DecidableEq υ] in
theorem reset_bounded (hsettings : settings.Sensible) (h : s.DelayBounded settings) :
    0 ≤ (s.resetReconnectDelay settings).reconnectDelay ∧
      (s.resetReconnectDelay settings).reconnectDelay ≤ settings.maxReconnectDelay := by
  rw [Transport.resetReconnectDelay]
  split_ifs with hreset
  · exact ⟨hsettings.nonneg, hsettings.le_max⟩
  · refine ⟨h.1, h.2.resolve_right fun hdefault => hreset ?_⟩
    rw [hdefault.1]
    simp

omit [DecidableEq υ] in
theorem doDelay_bounded (hsettings : settings.Sensible) (h : s.DelayBounded settings) :
    (s.doDelay settings).DelayBounded settings := by
  have hmultiplier : 0 ≤ settings.backOffMultiplier := le_trans (by decide) hsettings.multiplier
  have hmax : 0 ≤ settings.maxReconnectDelay := hsettings.nonneg.trans hsettings.le_max
  rw [Transport.doDelay]
  split_ifs
  · have hproduct : 0 ≤ s.reconnectDelay * settings.backOffMultiplier := Int.mul_nonneg h.1 hmultiplier
    have hfits : s.reconnectDelay * settings.backOffMultiplier < 9223372036854775808 := by
      rcases h.2 with hle | ⟨hdefault, -⟩
      · exact lt_of_le_of_lt (Int.mul_le_mul_of_nonneg_right hle hmultiplier) hsettings.fits
      · rw [hdefault]
        exact hsettings.fits_default
    have hsame : toInt64 (s.reconnectDelay * settings.backOffMultiplier) =
        s.reconnectDelay * settings.backOffMultiplier := toInt64_of_range (by omega) hfits
    refine ⟨?_, .inl (min_le_right _ _)⟩
    rw [hsame]
    exact le_min hproduct hmax
  · exact h

end Delay

/-! ### What an iteration does -/

/-- The fields that do not change before an iteration comes to its end. -/
structure Same (s s' : Transport υ) : Prop where
  firstConnection : s'.firstConnection = s.firstConnection
  connectFailures : s'.connectFailures = s.connectFailures
  reconnectDelay : s'.reconnectDelay = s.reconnectDelay
  connectionFailure : s'.connectionFailure = s.connectionFailure
  hasListener : s'.hasListener = s.hasListener
  notified : s'.notified = s.notified
  failedInRow : s'.failedInRow = s.failedInRow

structure Connects (settings : Settings) (s s' : Transport υ) : Prop where
  connectFailures : s'.connectFailures = 0
  reconnectDelay : s'.reconnectDelay = settings.initialReconnectDelay
  connectionFailure : s'.connectionFailure = s.connectionFailure
  notified : s'.notified = s.notified
  failedInRow : s'.failedInRow = 0

section Iteration

variable {settings : Settings} {s s₁ s₂ : Transport υ}
variable {e : Failure} {updated : Bool}

omit [DecidableEq υ] in
theorem Same.refl (s : Transport υ) : Same s s := ⟨rfl, rfl, rfl, rfl, rfl, rfl, rfl⟩

omit [DecidableEq υ] in
theorem Same.trans (h : Same s s₁) (h' : Same s₁ s₂) : Same s s₂ :=
  ⟨h'.1.trans h.1, h'.2.trans h.2, h'.3.trans h.3, h'.4.trans h.4, h'.5.trans h.5, h'.6.trans h.6, h'.7.trans h.7⟩

omit [DecidableEq υ] in
theorem Same.connects (h : Same s s₁) (h' : Connects settings s₁ s₂) : Connects settings s s₂ :=
  ⟨h'.1, h'.2, h'.3.trans h.connectionFailure, h'.4.trans h.notified, h'.5⟩

omit [DecidableEq υ] in
theorem Same.limit (h : Same s s₁) :
    s₁.calculateReconnectAttemptLimit settings = s.calculateReconnectAttemptLimit settings := by
  rw [Transport.calculateReconnectAttemptLimit, Transport.calculateReconnectAttemptLimit, h.firstConnection]

theorem disconnect_same (s : Transport υ) : Same s s.disconnect ∧ s.disconnect.connectedTransport = none := by
  rw [Transport.disconnect]
  cases hconnected : s.connectedTransport with
  | none => exact ⟨.refl s, hconnected⟩
  | some uri => exact ⟨⟨rfl, rfl, rfl, rfl, rfl, rfl, rfl⟩, rfl⟩

omit [DecidableEq υ] in
theorem setConnectList_same (s : Transport υ) (updated : Bool) (list : URIPool υ) :
    Same s (s.setConnectList updated list) := ⟨rfl, rfl, rfl, rfl, rfl, rfl, rfl⟩

theorem connected_connects (settings : Settings) (updated : Bool) (uri : υ) (failures : List υ) (s : Transport υ) :
    Connects settings s (connected settings updated uri failures s) := ⟨rfl, rfl, rfl, rfl, rfl⟩

omit [DecidableEq υ] in
theorem getURI_isSome (index : Nat) {p : URIPool υ} (h : p.isEmpty = false) : (p.getURI index).isSome = true := by
  have hlength : 0 < p.uris.length := by
    cases huris : p.uris with
    | nil => simp [URIPool.isEmpty, huris] at h
    | cons uri uris => exact Nat.succ_pos _
  have hindex : (if p.randomize then index % p.uris.length else 0) < p.uris.length := by
    split_ifs
    · exact Nat.mod_lt _ hlength
    · exact hlength
  simp only [URIPool.getURI, Option.isSome_map, List.getElem?_eq_getElem hindex, Option.isSome_some]

/-- The loop ends with a connection or with an exception, unless there is nothing to try. -/
def Tried.Ends (settings : Settings) (s : Transport υ) (tries : Bool) : Tried υ → Prop
  | .connected s' => Connects settings s s'
  | .exhausted failure _ s' =>
    Same s s' ∧ s'.connectedTransport = s.connectedTransport ∧ (tries = true → failure.isSome = true)

omit [DecidableEq υ] in
theorem Tried.Ends.after {tries tries' : Bool} {tried : Tried υ} (h : tried.Ends settings s₁ tries')
    (hsame : Same s s₁) (hconnected : s₁.connectedTransport = s.connectedTransport)
    (htries : tries = true → tries' = true) : tried.Ends settings s tries := by
  cases tried with
  | connected s' => exact hsame.connects h
  | exhausted failure failures s' =>
    exact ⟨hsame.trans h.1, h.2.1.trans hconnected, fun htry => h.2.2 (htries htry)⟩

theorem connectLoop_ends (settings : Settings) (updated : Bool) (turns : Nat → Attempt) (fuel n : Nat)
    (given : Option υ) (failure : Option Failure) (failures : List υ) (s : Transport υ) :
    (connectLoop settings updated turns fuel n given failure failures s).Ends settings s
      (failure.isSome || (0 < fuel && (given.isSome || !(s.connectList updated).isEmpty))) := by
  induction fuel generalizing n given failure failures s with
  | zero =>
    cases given with
    | none => exact ⟨.refl s, rfl, fun h => by simpa using h⟩
    | some uri => exact ⟨.refl s, rfl, fun h => by simpa using h⟩
  | succ fuel ih =>
    cases given with
    | some uri =>
      rw [connectLoop]
      cases (turns n).failure with
      | none => exact connected_connects settings updated uri failures s
      | some e =>
        refine (ih (n + 1) none (some e) (failures ++ [uri]) _).after ?_ rfl fun _ => rfl
        exact ⟨rfl, rfl, rfl, rfl, rfl, rfl, rfl⟩
    | none =>
      rw [connectLoop]
      cases hget : (s.connectList updated).getURI (turns n).index with
      | none =>
        refine ⟨.refl s, rfl, fun htry => ?_⟩
        have hempty : (s.connectList updated).isEmpty = true := by
          by_contra hnot
          have hsome := getURI_isSome (turns n).index (Bool.eq_false_iff.mpr hnot)
          rw [hget] at hsome
          cases hsome
        simpa [hempty] using htry
      | some taken =>
        obtain ⟨uri, list⟩ := taken
        simp only
        cases (turns n).failure with
        | none =>
          exact (setConnectList_same s updated list).connects
            (connected_connects settings updated uri failures _)
        | some e =>
          refine (ih (n + 1) none (some e) (failures ++ [uri]) _).after ?_ rfl fun _ => rfl
          exact ⟨rfl, rfl, rfl, rfl, rfl, rfl, rfl⟩

/-- How an iteration may end: a failed one has not exceeded the limit yet, and one that gives up has just done so,
for a reason that the listener is told. -/
def Ends (settings : Settings) (s : Transport υ) : EStateM.Result Failure (Transport υ) Outcome → Prop
  | .error _ _ => False
  | .ok outcome s' =>
    Inv settings s' ∧
      (outcome = .fails → s.Limited settings →
        (s.failedInRow : Int) < s.calculateReconnectAttemptLimit settings) ∧
      (outcome = .givesUp →
        (s.Limited settings → (s.failedInRow : Int) = s.calculateReconnectAttemptLimit settings) ∧
        s.notified = [] ∧ ∃ e, s'.connectionFailure = some e ∧
          s'.notified = if s'.hasListener then [toIOException e] else [])

omit [DecidableEq υ] in
theorem connectFailures_succ {n limit : Int} (h : 0 ≤ n) (hle : n ≤ limit) (hlimit : limit < 2147483647) :
    toInt32 (n + 1) = n + 1 := toInt32_of_range (by omega) (by omega)

omit [DecidableEq υ] in
theorem doDelay_eq (settings : Settings) (s : Transport υ) : ∃ x, s.doDelay settings = { s with reconnectDelay := x } := by
  rw [Transport.doDelay]
  split_ifs
  · exact ⟨_, rfl⟩
  · exact ⟨s.reconnectDelay, rfl⟩

omit [DecidableEq υ] in
theorem inv_of_failed (hdelay : s₁.DelayBounded settings) (hfailure : s₁.connectionFailure = some e)
    (hconnected : s₁.connectedTransport = none) : Inv settings s₁ := by
  refine ⟨hdelay, fun hnone => ?_, fun _ => hconnected, fun hnone => ?_⟩
  · rw [hfailure] at hnone
    cases hnone
  · rw [hfailure] at hnone
    cases hnone

omit [DecidableEq υ] in
theorem propagate_ends (hexact : s.Limited settings →
      (s.failedInRow : Int) = s.calculateReconnectAttemptLimit settings) (hnone : s.notified = [])
    (hdelay : s₁.DelayBounded settings) (hfailure : s₁.connectionFailure = some e)
    (hconnected : s₁.connectedTransport = none) (hempty : s₁.notified = []) :
    Ends settings s (propagateFailureToExceptionListener s₁) := by
  rw [propagateFailureToExceptionListener]
  split_ifs with hlistens
  · rw [hfailure]
    refine ⟨inv_of_failed hdelay rfl hconnected, (fun hn => by cases hn), fun _ => ⟨hexact, hnone, e, rfl, ?_⟩⟩
    simp only [hempty, hlistens, if_true, List.nil_append]
  · refine ⟨inv_of_failed hdelay hfailure hconnected, (fun hn => by cases hn),
      fun _ => ⟨hexact, hnone, e, hfailure, ?_⟩⟩
    simp only [hempty, hlistens, Bool.false_eq_true, if_false]

omit [DecidableEq υ] in
theorem counter_succ (h : Inv settings s) (hnone : s.connectionFailure = none) (hlimited : s.Limited settings) :
    s.calculateReconnectAttemptLimit settings ≠ infiniteWait ∧
      toInt32 (s.connectFailures + 1) = (s.failedInRow + 1 : Nat) ∧
      (s.failedInRow : Int) ≤ s.calculateReconnectAttemptLimit settings := by
  obtain ⟨heq, hle⟩ := h.counted hnone hlimited
  refine ⟨fun hinfinite => ?_, ?_, hle⟩
  · have hnonneg := hlimited.1
    rw [hinfinite, infiniteWait] at hnonneg
    omega
  · rw [heq, connectFailures_succ (Int.natCast_nonneg _) hle hlimited.2]
    rfl

omit [DecidableEq υ] in
theorem endIteration_ends (hsettings : settings.Sensible) (h : Inv settings s) (hnone : s.connectionFailure = none)
    (hfirst : s₁.firstConnection = s.firstConnection) (hcount : s₁.connectFailures = s.connectFailures)
    (hrow : s₁.failedInRow = s.failedInRow) (hnotified : s₁.notified = s.notified)
    (hfailure : s₁.connectionFailure = none) (hconnected : s₁.connectedTransport = none)
    (hdelay : s₁.DelayBounded settings) (listens : Bool) (e : Failure) :
    Ends settings s (endIteration settings listens (some e) s₁) := by
  have hlimit : ∀ s₂ : Transport υ, s₂.firstConnection = s.firstConnection →
      s₂.calculateReconnectAttemptLimit settings = s.calculateReconnectAttemptLimit settings := by
    intro s₂ heq
    rw [Transport.calculateReconnectAttemptLimit, Transport.calculateReconnectAttemptLimit, heq]
  have hempty := hnotified.trans (h.notified hnone)
  have hcounter : s.Limited settings →
      (if s.calculateReconnectAttemptLimit settings ≠ infiniteWait then toInt32 (s.connectFailures + 1)
        else s.connectFailures) = (s.failedInRow + 1 : Nat) := by
    intro hlimited
    rw [if_pos (counter_succ h hnone hlimited).1]
    exact (counter_succ h hnone hlimited).2.1
  rw [endIteration]
  simp only [hlimit s₁ hfirst, hcount, hrow]
  generalize (if s.calculateReconnectAttemptLimit settings ≠ infiniteWait then toInt32 (s.connectFailures + 1)
    else s.connectFailures) = counter at hcounter
  split_ifs with hexceeds
  · refine propagate_ends (fun hlimited => ?_) (h.notified hnone) hdelay rfl hconnected hempty
    have hle := (counter_succ h hnone hlimited).2.2
    have hgt := hexceeds.2
    rw [hcounter hlimited] at hgt
    omega
  · have hbelow : s.Limited settings → ((s.failedInRow + 1 : Nat) : Int) ≤ s.calculateReconnectAttemptLimit settings := by
      intro hlimited
      rw [← hcounter hlimited]
      exact not_lt.mp fun hgt => hexceeds ⟨(counter_succ h hnone hlimited).1, hgt⟩
    have hdelayed := doDelay_bounded hsettings
      (s := { s₁ with connectFailures := counter, failedInRow := s.failedInRow + 1 }) hdelay
    obtain ⟨x, hx⟩ := doDelay_eq settings { s₁ with connectFailures := counter, failedInRow := s.failedInRow + 1 }
    rw [hx] at hdelayed ⊢
    refine ⟨⟨hdelayed, fun _ hlimited => ?_, fun hsome => ?_, fun _ => hempty⟩, fun _ hlimited => ?_,
      (fun hn => by cases hn)⟩
    · have hlimited' : s.Limited settings := by
        rw [Transport.Limited, ← hlimit _ hfirst]
        exact hlimited
      exact ⟨hcounter hlimited', (hbelow hlimited').trans_eq (hlimit _ hfirst).symm⟩
    · rw [show _ = s₁.connectionFailure from rfl, hfailure] at hsome
      cases hsome
    · have hle := hbelow hlimited
      omega

omit [DecidableEq υ] in
theorem reset_eq (settings : Settings) (s : Transport υ) :
    ∃ x, s.resetReconnectDelay settings = { s with reconnectDelay := x } := by
  rw [Transport.resetReconnectDelay]
  split_ifs
  · exact ⟨_, rfl⟩
  · exact ⟨s.reconnectDelay, rfl⟩

/-- There is a URI or a backup to try, and no transport that stays connected. -/
def Tries (settings : Settings) (updated : Bool) (s : Transport υ) : Prop :=
  s.connectedTransport = none ∧ (s.connectList updated).isEmpty = false ∨
    s.pools.enabled = true ∧ s.pools.backups ≠ [] ∧
      (s.connectedTransport = none ∨ settings.priorityBackup = true ∧ s.pools.priorityBackups > 0)

theorem takeBackup_of_tries (htries : Tries settings updated s) :
    ∃ backup s', takeBackup settings s = (backup, s') ∧ Same s s' ∧ s'.connectedTransport = none ∧
      (backup.isSome || !(s'.connectList updated).isEmpty) = true := by
  rw [takeBackup]
  split_ifs with henabled
  · cases hbackups : s.pools.backups with
    | nil =>
      obtain ⟨hconnected, hlist⟩ := htries.resolve_right fun hbackup => hbackup.2.1 hbackups
      refine ⟨_, _, rfl, ⟨rfl, rfl, rfl, rfl, rfl, rfl, rfl⟩, hconnected, ?_⟩
      change (!(s.connectList updated).isEmpty) = true
      rw [hlist]
      rfl
    | cons backup rest =>
      refine ⟨_, _, rfl, ?_, ?_, rfl⟩
      · split_ifs
        · refine Same.trans ?_ (disconnect_same _).1
          exact ⟨rfl, rfl, rfl, rfl, rfl, rfl, rfl⟩
        · exact ⟨rfl, rfl, rfl, rfl, rfl, rfl, rfl⟩
      · split_ifs with hpriority
        · exact (disconnect_same _).2
        · rcases htries with ⟨hconnected, -⟩ | ⟨-, -, hconnected | ⟨hprefers, hmore⟩⟩
          · exact hconnected
          · exact hconnected
          · exact absurd (by simpa [hprefers] using hmore) hpriority
  · obtain ⟨hconnected, hlist⟩ := htries.resolve_right fun hbackup => henabled hbackup.1
    refine ⟨none, s, rfl, .refl s, hconnected, ?_⟩
    rw [hlist]
    rfl

omit [DecidableEq υ] in
theorem Connects.ends (hsettings : settings.Sensible) (h : Inv settings s) (hnone : s.connectionFailure = none)
    (hconnects : Connects settings s s₁) : Ends settings s (.ok .connects s₁) := by
  have hdelay : s₁.DelayBounded settings := by
    rw [Transport.DelayBounded, hconnects.reconnectDelay]
    exact ⟨hsettings.nonneg, .inl hsettings.le_max⟩
  refine ⟨⟨hdelay, fun _ hlimited => ?_, fun hsome => ?_, fun _ => ?_⟩, (fun hn => by cases hn), (fun hn => by cases hn)⟩
  · rw [hconnects.connectFailures, hconnects.failedInRow]
    exact ⟨rfl, hlimited.1⟩
  · rw [hconnects.connectionFailure, hnone] at hsome
    cases hsome
  · exact hconnects.notified.trans (h.notified hnone)

theorem tryAll_ends (hsettings : settings.Sensible) (h : Inv settings s) (hnone : s.connectionFailure = none)
    (htries : Tries settings updated s) (turns : Nat → Attempt) (listens : Bool) :
    Ends settings s (tryAll settings updated turns listens s) := by
  have hbounded := reset_bounded hsettings h.delay
  obtain ⟨x, hreset⟩ := reset_eq settings s
  rw [hreset] at hbounded
  rw [tryAll, hreset]
  obtain ⟨backup, s₂, htake, hsame, hconnected, htry⟩ :=
    takeBackup_of_tries (s := { s with reconnectDelay := x }) htries
  rw [htake]
  simp only [hconnected, Option.isSome_none, Bool.false_eq_true, if_false]
  have hloop := connectLoop_ends settings updated turns ((s₂.connectList updated).uris.length + 2) 0 backup none [] s₂
  cases hends : connectLoop settings updated turns ((s₂.connectList updated).uris.length + 2) 0 backup none [] s₂ with
  | connected s₃ =>
    rw [hends] at hloop
    have hconnects := hsame.connects hloop
    exact Connects.ends hsettings h hnone ⟨hconnects.1, hconnects.2, hconnects.3, hconnects.4, hconnects.5⟩
  | exhausted failure failures s₃ =>
    rw [hends] at hloop
    obtain ⟨hsame', hconnected', hfailure⟩ := hloop
    obtain ⟨e, he⟩ := Option.isSome_iff_exists.mp (hfailure (by simpa using htry))
    have hall := hsame.trans hsame'
    have hdelay : s₃.DelayBounded settings := by
      rw [Transport.DelayBounded, hall.reconnectDelay]
      exact ⟨hbounded.1, .inl hbounded.2⟩
    rw [he]
    apply endIteration_ends hsettings h hnone
    · exact hall.firstConnection
    · exact hall.connectFailures
    · exact hall.failedInRow
    · exact hall.notified
    · exact hall.connectionFailure.trans hnone
    · exact hconnected'.trans hconnected
    · exact hdelay

omit [DecidableEq υ] in
/-- An iteration counts for the state that it began with. -/
theorem Ends.before (h : Same s s₁) {result : EStateM.Result Failure (Transport υ) Outcome}
    (hends : Ends settings s₁ result) : Ends settings s result := by
  have hlimited : s.Limited settings → s₁.Limited settings := by
    intro hlimited
    rw [Transport.Limited, h.limit]
    exact hlimited
  cases result with
  | error e s' => exact hends
  | ok outcome s' =>
    obtain ⟨hinv, hfails, hgivesUp⟩ := hends
    rw [h.limit, h.failedInRow] at hfails hgivesUp
    rw [h.notified] at hgivesUp
    exact ⟨hinv, fun ho hl => hfails ho (hlimited hl),
      fun ho => ⟨fun hl => (hgivesUp ho).1 (hlimited hl), (hgivesUp ho).2⟩⟩

theorem Inv.disconnect (h : Inv settings s) (hnone : s.connectionFailure = none) :
    Inv settings { s.disconnect with doRebalance := false } := by
  obtain ⟨hsame, hconnected⟩ := disconnect_same s
  have hattempts : s.disconnect.attempts = s.attempts := by
    rw [Transport.disconnect]
    cases s.connectedTransport <;> rfl
  refine ⟨?_, fun _ hlimited => ?_, fun _ => hconnected, fun _ => ?_⟩
  · have hdelay := h.delay
    rw [Transport.DelayBounded, ← hsame.reconnectDelay, ← hattempts] at hdelay
    exact hdelay
  · have hlimit : s.disconnect.calculateReconnectAttemptLimit settings = s.calculateReconnectAttemptLimit settings :=
      hsame.limit
    have hlimited' : s.Limited settings := by
      rw [Transport.Limited, ← hlimit]
      exact hlimited
    have hcounted := h.counted hnone hlimited'
    rw [← hsame.connectFailures, ← hsame.failedInRow, ← hlimit] at hcounted
    exact hcounted
  · exact hsame.notified.trans (h.notified hnone)

theorem addURI_isEmpty (p : URIPool υ) (uri : υ) : (p.addURI uri).isEmpty = false := by
  by_cases hmem : uri ∈ p.uris
  · simp [URIPool.addURI, URIPool.isEmpty, hmem, List.ne_nil_of_mem hmem]
  · simp [URIPool.addURI, URIPool.isEmpty, hmem]

/-- A transport that is disconnected for a rebalance can be tried again itself, if nothing else can. -/
theorem tries_disconnect {uri : υ} (hconnected : s.connectedTransport = some uri) :
    Tries settings (s.usesUpdated settings) { s.disconnect with doRebalance := false } := by
  refine .inl ⟨(disconnect_same s).2, ?_⟩
  rw [Transport.disconnect, hconnected]
  cases hupdated : s.usesUpdated settings with
  | false => exact addURI_isEmpty _ uri
  | true =>
    rw [Transport.usesUpdated, Bool.and_eq_true, Bool.not_eq_true'] at hupdated
    exact hupdated.2

omit [DecidableEq υ] in
theorem tries_of_ready (hvalid : s.isConnectionStateValid = false) (hready : s.ready settings = true)
    (hsomething : ((s.connectList (s.usesUpdated settings)).isEmpty && !s.pools.enabled) = false)
    (hrebalance : s.doRebalance = false) : Tries settings (s.usesUpdated settings) s := by
  cases hconnected : s.connectedTransport with
  | none =>
    simp only [Transport.ready, hconnected, hsomething, hrebalance, Bool.false_or, Bool.false_eq_true, if_false] at hready
    cases hlist : (s.connectList (s.usesUpdated settings)).isEmpty with
    | false => exact .inl ⟨hconnected, hlist⟩
    | true =>
      rw [hlist] at hready hsomething
      have henabled : s.pools.enabled = true := by simpa using hsomething
      exact .inr ⟨henabled, by simpa using hready, .inl hconnected⟩
  | some uri =>
    simp only [Transport.ready, hconnected, hsomething, hrebalance, Bool.not_false, Bool.true_and, Bool.false_or,
      Bool.and_eq_true] at hready
    have hmore : s.pools.priorityBackups > 0 := by
      simpa [Transport.isConnectionStateValid, hconnected, hrebalance] using hvalid
    exact .inr ⟨hready.1.2, by simpa using hready.2, .inr ⟨hready.1.1, hmore⟩⟩

theorem iterate_ends (hsettings : settings.Sensible) (h : Inv settings s)
    (hready : (s.isConnectionStateValid || s.isClosedOrFailed || s.ready settings) = true)
    (turns : Nat → Attempt) (listens : Bool) : Ends settings s (iterate settings turns listens s) := by
  rw [iterate]
  simp only
  by_cases hidle : (s.isConnectionStateValid || s.isClosedOrFailed) = true
  · rw [if_pos hidle]
    exact ⟨h, (fun hn => by cases hn), (fun hn => by cases hn)⟩
  rw [if_neg hidle]
  rw [Bool.not_eq_true] at hidle
  rw [hidle, Bool.false_or] at hready
  obtain ⟨hvalid, hopen⟩ := Bool.or_eq_false_iff.mp hidle
  have hnone : s.connectionFailure = none := by
    simpa using (Bool.or_eq_false_iff.mp hopen).2
  split_ifs with hnothing hrebalance hpriority
  · have hconnected : s.connectedTransport = none := by
      cases hconnected : s.connectedTransport with
      | none => rfl
      | some uri =>
        rw [Transport.ready, hconnected] at hready
        simp only [hnothing, Bool.not_true, Bool.false_and, Bool.false_eq_true] at hready
    exact endIteration_ends hsettings h hnone rfl rfl rfl rfl hnone hconnected h.delay listens noURIs
  · exact ⟨⟨h.delay, h.counted, h.disconnected, h.notified⟩, (fun hn => by cases hn), (fun hn => by cases hn)⟩
  · cases hconnected : s.connectedTransport with
    | none =>
      rw [Bool.not_eq_true] at hnothing
      rw [Transport.ready, hconnected] at hready
      simp only [hnothing, hrebalance, if_true, Bool.false_or] at hready
      exact absurd hready hpriority
    | some uri =>
      have hnever : ¬s.connectionFailure.isSome = true := by
        rw [hnone]
        decide
      simp only
      split_ifs
      · exact ⟨⟨h.delay, h.counted, fun hsome => absurd hsome hnever, h.notified⟩, (fun hn => by cases hn),
          (fun hn => by cases hn)⟩
      · have hends := tryAll_ends hsettings (h.disconnect hnone) ((disconnect_same s).1.connectionFailure.trans hnone)
          (tries_disconnect hconnected) turns listens
        have hsame := (disconnect_same s).1
        exact hends.before ⟨hsame.1, hsame.2, hsame.3, hsame.4, hsame.5, hsame.6, hsame.7⟩
  · rw [Bool.not_eq_true] at hnothing hrebalance
    exact tryAll_ends hsettings h hnone (tries_of_ready hvalid hready hnothing hrebalance) turns listens

end Iteration

/-! ### Runs -/

section Runs

variable {settings : Settings} {s s' t : Transport υ}
variable {e : Failure} {attempts : Nat} {notified : List Failure}

theorem handleTransportFailure_inv (h : Inv settings s) (error : Failure) :
    Inv settings (handleTransportFailure settings error s) := by
  rw [handleTransportFailure]
  by_cases hshutdown : s.shutdown = true
  · rw [if_pos hshutdown]
    exact h
  rw [if_neg hshutdown]
  cases hconnected : s.connectedTransport with
  | none => exact h
  | some uri =>
    have hnone : s.connectionFailure = none := by
      cases hfailure : s.connectionFailure with
      | none => rfl
      | some e =>
        have hdisconnected := h.disconnected (by rw [hfailure]; rfl)
        rw [hconnected] at hdisconnected
        cases hdisconnected
    simp only
    split_ifs with hcan hclosed hlistens hlistens
    · exact ⟨h.delay, h.counted, fun _ => rfl, h.notified⟩
    · simp [hclosed] at hlistens
    · exact ⟨h.delay, h.counted, fun _ => rfl, h.notified⟩
    · exact inv_of_failed h.delay rfl rfl
    · exact inv_of_failed h.delay rfl rfl

theorem step_inv (hsettings : settings.Sensible) (h : Inv settings s) {e : Event υ} (hready : Ready settings s e)
    (hstep : step settings s e = some s') : Inv settings s' := by
  cases e with
  | iterate turns listens =>
    cases hstep
    have hends := iterate_ends hsettings h hready turns listens
    cases hresult : iterate settings turns listens s with
    | error e s' =>
      rw [hresult] at hends
      exact hends.elim
    | ok outcome s' =>
      rw [hresult] at hends
      exact hends.1
  | handleTransportFailure error =>
    cases hstep
    exact handleTransportFailure_inv h error
  | start =>
    cases hstep
    exact ⟨h.delay, h.counted, h.disconnected, h.notified⟩
  | stop =>
    cases hstep
    exact ⟨h.delay, h.counted, h.disconnected, h.notified⟩
  | close =>
    cases hstep
    exact ⟨h.delay, h.counted, fun _ => rfl, h.notified⟩
  | reconnect rebalance =>
    cases hstep
    exact ⟨h.delay, h.counted, h.disconnected, h.notified⟩
  | shutdownSent =>
    cases hstep
    exact ⟨h.delay, h.counted, h.disconnected, h.notified⟩
  | setTransportListener set =>
    cases hstep
    exact ⟨h.delay, h.counted, h.disconnected, h.notified⟩
  | configure pools =>
    cases hstep
    exact ⟨h.delay, h.counted, h.disconnected, h.notified⟩

/-- A transport that has given up. -/
structure GaveUp (e : Failure) (attempts : Nat) (notified : List Failure) (s : Transport υ) : Prop where
  failure : s.connectionFailure = some e
  disconnected : s.connectedTransport = none
  attempts : s.attempts = attempts
  notified : s.notified = notified

theorem step_gaveUp (h : GaveUp e attempts notified s)
    {event : Event υ} (hstep : step settings s event = some s') : GaveUp e attempts notified s' := by
  obtain ⟨hfailure, hdisconnected, hattempts, hnotified⟩ := h
  cases event with
  | iterate turns listens =>
    have hidle : (s.isConnectionStateValid || s.isClosedOrFailed) = true := by
      simp [Transport.isClosedOrFailed, hfailure]
    rw [step, iterate, if_pos hidle] at hstep
    cases hstep
    exact ⟨hfailure, hdisconnected, hattempts, hnotified⟩
  | handleTransportFailure error =>
    rw [step, handleTransportFailure, hdisconnected, ite_self] at hstep
    cases hstep
    exact ⟨hfailure, hdisconnected, hattempts, hnotified⟩
  | close =>
    cases hstep
    exact ⟨hfailure, rfl, hattempts, hnotified⟩
  | start =>
    cases hstep
    exact ⟨hfailure, hdisconnected, hattempts, hnotified⟩
  | stop =>
    cases hstep
    exact ⟨hfailure, hdisconnected, hattempts, hnotified⟩
  | reconnect rebalance =>
    cases hstep
    exact ⟨hfailure, hdisconnected, hattempts, hnotified⟩
  | shutdownSent =>
    cases hstep
    exact ⟨hfailure, hdisconnected, hattempts, hnotified⟩
  | setTransportListener set =>
    cases hstep
    exact ⟨hfailure, hdisconnected, hattempts, hnotified⟩
  | configure pools =>
    cases hstep
    exact ⟨hfailure, hdisconnected, hattempts, hnotified⟩

omit [DecidableEq υ] in
theorem initial_inv (settings : Settings) (pools : BackupTransportPool υ) :
    Inv settings ({ pools := pools } : Transport υ) := by
  refine ⟨⟨?_, .inr ⟨rfl, rfl⟩⟩, fun _ hlimited => ⟨rfl, hlimited.1⟩, fun _ => rfl, fun _ => rfl⟩
  change 0 ≤ defaultInitialReconnectDelay
  decide

/-- An iteration that fails has not used up the limit, and the one that gives up has just done so. The exception is
kept, and is all that the listener has ever been told. -/
structure Counts (settings : Settings) (turns : Nat → Attempt) (listens : Bool) (s : Transport υ) : Prop where
  returns : ∃ outcome s', iterate settings turns listens s = .ok outcome s'
  fails : ∀ s', iterate settings turns listens s = .ok .fails s' → s.Limited settings →
    (s.failedInRow : Int) < s.calculateReconnectAttemptLimit settings
  givesUp : ∀ s', iterate settings turns listens s = .ok .givesUp s' →
    (s.Limited settings → (s.failedInRow : Int) = s.calculateReconnectAttemptLimit settings) ∧
      ∃ e, s'.connectionFailure = some e ∧ s'.notified = if s'.hasListener then [toIOException e] else []

theorem counts_of_ends {turns : Nat → Attempt} {listens : Bool}
    (h : Ends settings s (iterate settings turns listens s)) : Counts settings turns listens s := by
  cases hresult : iterate settings turns listens s with
  | error e s' =>
    rw [hresult] at h
    exact h.elim
  | ok outcome s' =>
    rw [hresult] at h
    obtain ⟨-, hfails, hgivesUp⟩ := h
    refine ⟨⟨outcome, s', hresult⟩, fun s₁ hs₁ => ?_, fun s₁ hs₁ => ?_⟩
    · rw [hresult] at hs₁
      cases hs₁
      exact hfails rfl
    · rw [hresult] at hs₁
      cases hs₁
      exact ⟨(hgivesUp rfl).1, (hgivesUp rfl).2.2⟩

omit [DecidableEq υ] in
theorem oneway_of_gaveUp (h : GaveUp e attempts notified s)
    (hopen : s.closed = false) : oneway settings .other s = .throws (asIOException e) := by
  simp [oneway, h.failure, h.disconnected, hopen]

theorem reconnect_limits (settings : Settings) (hsettings : settings.Sensible) (pools : BackupTransportPool υ)
    (events : List (Event υ)) (s : Transport υ)
    (hready : Always (step settings) (Ready settings) ({ pools := pools } : Transport υ) events)
    (hrun : run (step settings) ({ pools := pools } : Transport υ) events = some s) :
    s.DelayBounded settings ∧
      (∀ turns listens, Ready settings s (.iterate turns listens) → Counts settings turns listens s) ∧
      ∀ e, s.connectionFailure = some e → ∀ later t, run (step settings) s later = some t →
        t.connectionFailure = some e ∧ t.attempts = s.attempts ∧ t.notified = s.notified ∧
          (t.closed = false → oneway settings .other t = .throws (asIOException e)) := by
  have hinv : Inv settings s := invariant_run (fun s e s' h hready hstep => step_inv hsettings h hready hstep)
    (initial_inv settings pools) hready hrun
  refine ⟨hinv.delay, fun turns listens hiterate => ?_, fun e hfailure later t hlater => ?_⟩
  · exact counts_of_ends (iterate_ends hsettings hinv hiterate turns listens)
  · have hdisconnected := hinv.disconnected (by rw [hfailure]; rfl)
    have hany : Always (step settings) (fun _ _ => True) s later := .of_forall (fun _ _ _ => trivial) s
    have hgaveUp : GaveUp e s.attempts s.notified t :=
      invariant_run (fun s event s' h _ hstep => step_gaveUp h hstep) ⟨hfailure, hdisconnected, rfl, rfl⟩ hany hlater
    exact ⟨hgaveUp.failure, hgaveUp.attempts, hgaveUp.notified, oneway_of_gaveUp hgaveUp⟩

/-- One more attempt is allowed after the first. -/
def oneMore : Settings := { maxReconnectAttempts := 1 }

def refused : Failure := .thrown .ioException "Connection refused"

/-- Two iterations that try two URIs each. -/
def triesTwice : List (Event Nat) :=
  [.setTransportListener true, .start, .iterate (fun _ => { failure := some refused }) true,
    .iterate (fun _ => { failure := some refused }) true]

theorem oneMore_sensible : oneMore.Sensible := ⟨by decide, by decide, by decide, by decide, by decide⟩

theorem reconnect_limits_twice :
    ∃ s, run (step oneMore) { pools := { uriPool := { uris := [1, 2] } } } triesTwice = some s ∧
      s.DelayBounded oneMore ∧ s.attempts = 4 ∧ s.notified = [refused] ∧ oneway oneMore .other s = .throws refused := by
  refine ⟨_, rfl, ?_, by decide, by decide, ?_⟩
  · exact (reconnect_limits oneMore oneMore_sensible _ triesTwice _ (by decide) rfl).1
  · exact ((reconnect_limits oneMore oneMore_sensible _ triesTwice _ (by decide) rfl).2.2 refused (by decide) [] _
      rfl).2.2.2 rfl

/-- A call that returns is not told of the failure. -/
theorem acknowledges_after_failure :
    ¬∀ s : Transport Nat, run (step oneMore) { pools := { uriPool := { uris := [1, 2] } } } triesTwice = some s →
      ∀ e, s.connectionFailure = some e → ∀ kind, oneway oneMore kind s = .throws (asIOException e) := by
  intro h
  have hack := h _ rfl refused (by decide) .messageAck
  revert hack
  decide

end Runs

end ActiveMQCpp.Reconnect
