import ActiveMQCpp.LibOrderedMap
import ActiveMQCpp.LibRuns
import ActiveMQCpp.CoreConnectionClose

/-! The tables by which a connection routes what comes in: the dispatchers of the consumers and the active
producers. A `get` or `remove` of these maps throws when the key is missing. -/

namespace ActiveMQCpp.Core

open Codec Runs ExceptionKind

/-- The value of an entry: the session of a consumer, or the advisory consumer. -/
inductive Dispatcher (σ : Type) where
  | session (id : σ)
  | advisory
  deriving DecidableEq

/-- The commands that are routed, by the id they name, and all others. -/
inductive Inbound (κ π : Type) where
  | messageDispatch (consumerId : κ)
  | producerAck (producerId : π)
  | other
  deriving DecidableEq

/-- `consumers` and `producers` are the kernels that are not closed, and `advisoryConsumer` has its id and its
`closed` flag. `received` is what the dispatchers and producers were given, and `notified` what the transport
listeners were told of. -/
structure Routing (κ π σ ρ : Type) [LinearOrder κ] [LinearOrder π] where
  dispatchers : OrderedMap κ (Dispatcher σ) := .empty
  activeProducers : OrderedMap π ρ := .empty
  consumers : OrderedMap κ σ := .empty
  producers : OrderedMap π ρ := .empty
  advisoryConsumer : Option (κ × Bool) := none
  watchTopicAdvisories : Bool := true
  isConnectionInfoSentToBroker : Bool := false
  received : List (Inbound κ π) := []
  notified : List (Inbound κ π) := []

variable {κ π σ ρ α : Type} [LinearOrder κ] [LinearOrder π]

namespace Routing

variable {s : Routing κ π σ ρ}
variable {dispatcher : Dispatcher σ}

abbrev Route (κ π σ ρ : Type) [LinearOrder κ] [LinearOrder π] := EStateM ExceptionKind (Routing κ π σ ρ)

/-- `AMQ_CATCH_ALL_THROW_CMSEXCEPTION`. -/
def asCms (m : Route κ π σ ρ α) : Route κ π σ ρ α := mapError (fun _ => .cms) m

/-- `AMQ_CATCHALL_THROW(ActiveMQException)`, after the clauses that rethrow or convert. -/
def asActiveMQ (m : Route κ π σ ρ α) : Route κ π σ ρ α := mapError (fun _ => .activemq) m

def found : Option α → Route κ π σ ρ α
  | some a => pure a
  | none => throw .decaf

def throwIf (fails : Bool) : Route κ π σ ρ Unit := if fails then throw .activemq else pure ()

def rethrowing (caught : ExceptionKind → Bool) (m handler : Route κ π σ ρ Unit) : Route κ π σ ρ Unit := fun s =>
  match m s with
  | .ok _ s' => .ok () s'
  | .error e s' => if caught e then (handler >>= fun _ => throw e) s' else .error e s'

def absorbing (caught : ExceptionKind → Bool) (m : Route κ π σ ρ Unit) : Route κ π σ ρ Unit := fun s =>
  match m s with
  | .ok _ s' => .ok () s'
  | .error e s' => if caught e then .ok () s' else .error e s'

/-- What goes out of scope is destroyed when an exception leaves. -/
def unwinding (destroy : Routing κ π σ ρ → Routing κ π σ ρ) (m : Route κ π σ ρ Unit) : Route κ π σ ρ Unit := fun s =>
  match m s with
  | .ok _ s' => .ok () s'
  | .error e s' => .error e (destroy s')

/-! ### The connection -/

def addDispatcher (consumer : κ) (dispatcher : Dispatcher σ) : Route κ π σ ρ Unit :=
  asCms (modify fun s => { s with dispatchers := s.dispatchers.insert consumer dispatcher })

def removeDispatcher (consumer : κ) : Route κ π σ ρ Unit := asCms do
  let s ← get
  let _ ← found (s.dispatchers.find consumer)
  set { s with dispatchers := s.dispatchers.erase consumer }

def addProducer (id : π) (producer : ρ) : Route κ π σ ρ Unit :=
  asCms (modify fun s => { s with activeProducers := s.activeProducers.insert id producer })

def removeProducer (id : π) : Route κ π σ ρ Unit := asCms do
  let s ← get
  let _ ← found (s.activeProducers.find id)
  set { s with activeProducers := s.activeProducers.erase id }

/-- The lookup of the addressee, who may throw as well. A `NULL` that the lookup never returns is tested for. -/
def deliver (command : Inbound κ π) (handlerThrows : Bool) : Route κ π σ ρ Unit := do
  let s ← get
  match command with
  | .messageDispatch consumerId => let _ ← found (s.dispatchers.find consumerId)
  | .producerAck producerId => let _ ← found (s.activeProducers.find producerId)
  | .other => pure ()
  set { s with received := s.received ++ [command] }
  throwIf handlerThrows

def onCommand (command : Inbound κ π) (handlerThrows : Bool) : Route κ π σ ρ Unit := asActiveMQ do
  deliver command handlerThrows
  modify fun s => { s with notified := s.notified ++ [command] }

/-! ### Sessions

Consumers and producers are opened and closed the same way, and queue browsers open consumers as well. -/

/-- Where the opening of a consumer or producer throws: in its constructor, because the session is closed, or
because the broker does not accept it. -/
inductive OpenFailure where
  | constructor
  | sessionClosed
  | request
  deriving DecidableEq

/-- The kernel is constructed, registered and announced. It is destroyed again if that throws. -/
def opening (construct destroy : Routing κ π σ ρ → Routing κ π σ ρ) (add remove : Route κ π σ ρ Unit)
    (failure : Option OpenFailure) : Route κ π σ ρ Unit := asCms do
  throwIf (failure = some .constructor)
  modify construct
  unwinding destroy (rethrowing isException (do add; throwIf (failure = some .request)) remove)

def addSessionConsumer (id : κ) (session : σ) (failure : Option OpenFailure) : Route κ π σ ρ Unit := asActiveMQ do
  throwIf (failure = some .sessionClosed)
  addDispatcher id (.session session)

def removeSessionConsumer (id : κ) : Route κ π σ ρ Unit := asActiveMQ (removeDispatcher id)

def addSessionProducer (id : π) (producer : ρ) (failure : Option OpenFailure) : Route κ π σ ρ Unit := asActiveMQ do
  throwIf (failure = some .sessionClosed)
  addProducer id producer

def removeSessionProducer (id : π) : Route κ π σ ρ Unit := asActiveMQ (removeProducer id)

def createConsumer (id : κ) (session : σ) (failure : Option OpenFailure) : Route κ π σ ρ Unit :=
  opening (fun s => { s with consumers := s.consumers.insert id session })
    (fun s => { s with consumers := s.consumers.erase id })
    (addSessionConsumer id session failure) (removeSessionConsumer id) failure

def createProducer (id : π) (producer : ρ) (failure : Option OpenFailure) : Route κ π σ ρ Unit :=
  opening (fun s => { s with producers := s.producers.insert id producer })
    (fun s => { s with producers := s.producers.erase id })
    (addSessionProducer id producer failure) (removeSessionProducer id) failure

/-- Where a close throws: while messages are acknowledged, or when the broker is told. -/
inductive CloseFailure where
  | acknowledge
  | remove
  deriving DecidableEq

/-- `ActiveMQConsumerKernel::doClose`. Its channel of messages is closed before it is removed. -/
def closeConsumer (id : κ) (failure : Option CloseFailure) : Route κ π σ ρ Unit := asCms do
  let s ← get
  if (s.consumers.find id).isSome then do
    throwIf (failure = some .acknowledge)
    modify fun s => { s with consumers := s.consumers.erase id }
    removeSessionConsumer id
    throwIf (failure = some .remove)

/-- `ActiveMQProducerKernel::close`, which marks the producer closed after it is removed. -/
def closeProducer (id : π) (failure : Option CloseFailure) : Route κ π σ ρ Unit := asCms do
  let s ← get
  if (s.producers.find id).isSome then do
    removeSessionProducer id
    modify fun s => { s with producers := s.producers.erase id }
    throwIf (failure = some .remove)

/-! ### The advisory consumer -/

/-- Which request of `ensureConnectionInfoSent` throws. -/
inductive ConnectFailure where
  | connection
  | advisory
  deriving DecidableEq

/-- The constructor of the advisory consumer. Its clause deletes the configuration and throws again. -/
def newAdvisoryConsumer (id : κ) (failure : Option ConnectFailure) : Route κ π σ ρ Unit := do
  addDispatcher id .advisory
  throwIf (failure = some .advisory)

def ensureConnectionInfoSent (id : κ) (failure : Option ConnectFailure) : Route κ π σ ρ Unit := asActiveMQ do
  let s ← get
  if s.isConnectionInfoSentToBroker = false then do
    throwIf (failure = some .connection)
    modify fun s => { s with isConnectionInfoSentToBroker := true }
    if s.watchTopicAdvisories then do
      newAdvisoryConsumer id failure
      modify fun s => { s with advisoryConsumer := some (id, false) }

/-- `AdvisoryConsumer::dispose`. The `oneway` of the connection throws an `ActiveMQException`. -/
def disposeAdvisoryConsumer (onewayFails : Bool) : Route κ π σ ρ Unit := do
  let s ← get
  match s.advisoryConsumer with
  | some (id, false) => do
    set { s with advisoryConsumer := some (id, true) }
    absorbing isCms (throwIf onewayFails)
    removeDispatcher id
  | _ => pure ()

/-! ### Runs -/

inductive Event (κ π σ ρ : Type) where
  | openConsumer (id : κ) (session : σ) (failure : Option OpenFailure)
  | closeConsumer (id : κ) (failure : Option CloseFailure)
  | openProducer (id : π) (producer : ρ) (failure : Option OpenFailure)
  | closeProducer (id : π) (failure : Option CloseFailure)
  | connect (advisoryId : κ) (failure : Option ConnectFailure)
  | closeAdvisory (onewayFails : Bool)
  /-- `ActiveMQConnection::cleanup`, after it has closed the sessions. -/
  | cleanup
  | command (command : Inbound κ π) (handlerThrows : Bool)

/-- Whatever is opened gets an id that is not in use. -/
def step (s : Routing κ π σ ρ) : Event κ π σ ρ → Option (Routing κ π σ ρ)
  | .openConsumer id session failure =>
    if s.dispatchers.find id = none then some (stateOf (createConsumer id session failure s)) else none
  | .closeConsumer id failure => some (stateOf (Routing.closeConsumer id failure s))
  | .openProducer id producer failure =>
    if s.activeProducers.find id = none then some (stateOf (createProducer id producer failure s)) else none
  | .closeProducer id failure => some (stateOf (Routing.closeProducer id failure s))
  | .connect id failure =>
    if s.dispatchers.find id = none then some (stateOf (ensureConnectionInfoSent id failure s)) else none
  | .closeAdvisory onewayFails => some (stateOf (disposeAdvisoryConsumer onewayFails s))
  | .cleanup => some { s with isConnectionInfoSentToBroker := false }
  | .command command handlerThrows => some (stateOf (onCommand command handlerThrows s))

def openDispatcher (s : Routing κ π σ ρ) (id : κ) : Option (Dispatcher σ) :=
  if s.advisoryConsumer = some (id, false) then some .advisory else (s.consumers.find id).map .session

/-- The tables hold exactly what is open. -/
structure Exact (s : Routing κ π σ ρ) : Prop where
  dispatchers_eq : ∀ id, s.dispatchers.find id = s.openDispatcher id
  producers_eq : s.activeProducers = s.producers

def Absent (s : Routing κ π σ ρ) : Inbound κ π → Prop
  | .messageDispatch consumerId => s.dispatchers.find consumerId = none
  | .producerAck producerId => s.activeProducers.find producerId = none
  | .other => False

/-- All that the command does is to be told to the listeners. -/
def Ignored (s : Routing κ π σ ρ) (command : Inbound κ π) (handlerThrows : Bool) : Prop :=
  onCommand command handlerThrows s = .ok () { s with notified := s.notified ++ [command] }

/-- A step leaves the tables exact, and ignores a command that has no addressee. -/
def Behaves (s : Routing κ π σ ρ) (e : Event κ π σ ρ) : Prop :=
  (∀ s', step s e = some s' → s'.Exact) ∧
    ∀ command handlerThrows, e = .command command handlerThrows → s.Absent command → s.Ignored command handlerThrows

/-- No command names an absent id; an advisory consumer is announced without failure, and only after the one
before it was disposed of; and the broker can be told of its end. -/
def Orderly (s : Routing κ π σ ρ) : Event κ π σ ρ → Prop
  | .command command _ => ¬s.Absent command
  | .connect id failure =>
    s.dispatchers.find id = none → s.isConnectionInfoSentToBroker = false → s.watchTopicAdvisories = true →
      failure ≠ some .connection → failure ≠ some .advisory ∧ ∀ id', s.advisoryConsumer ≠ some (id', false)
  | .closeAdvisory onewayFails => (∃ id, s.advisoryConsumer = some (id, false)) → onewayFails = false
  | _ => True

/-! ### Steps -/

/-- What an opening comes to: registered or, if it throws, as if it had never been tried. -/
def Opens (m : Option OpenFailure → Route κ π σ ρ Unit) (s opened : Routing κ π σ ρ) : Prop :=
  ∀ failure, stateOf (m failure s) = if failure = none then opened else s

theorem opens_createConsumer {id : κ} (session : σ) (hdispatchers : s.dispatchers.find id = none)
    (hconsumers : s.consumers.find id = none) :
    Opens (createConsumer id session) s { s with
      consumers := s.consumers.insert id session
      dispatchers := s.dispatchers.insert id (.session session) } := by
  intro failure
  rcases failure with _ | _ | _ | _ <;>
    simp [createConsumer, opening, unwinding, rethrowing, addSessionConsumer, addDispatcher, removeSessionConsumer,
      removeDispatcher, found, asCms, asActiveMQ, mapError, throwIf, bind_run, stateOf, isException, hdispatchers,
      OrderedMap.erase_insert_of_find_none, hconsumers]

theorem opens_createProducer {id : π} (producer : ρ) (hactive : s.activeProducers.find id = none)
    (hproducers : s.producers.find id = none) :
    Opens (createProducer id producer) s { s with
      producers := s.producers.insert id producer
      activeProducers := s.activeProducers.insert id producer } := by
  intro failure
  rcases failure with _ | _ | _ | _ <;>
    simp [createProducer, opening, unwinding, rethrowing, addSessionProducer, addProducer, removeSessionProducer,
      removeProducer, found, asCms, asActiveMQ, mapError, throwIf, bind_run, stateOf, isException, hactive,
      OrderedMap.erase_insert_of_find_none, hproducers]

theorem closeConsumer_closed {id : κ} (failure : Option CloseFailure)
    (h : s.consumers.find id = none) : stateOf (closeConsumer id failure s) = s := by
  simp [closeConsumer, asCms, mapError, bind_run, stateOf, h]

theorem closeConsumer_open {id : κ} {session : σ}
    (failure : Option CloseFailure) (h : s.consumers.find id = some session)
    (hdispatcher : s.dispatchers.find id = some dispatcher) :
    stateOf (closeConsumer id failure s) = if failure = some .acknowledge then s else { s with
      consumers := s.consumers.erase id
      dispatchers := s.dispatchers.erase id } := by
  rcases failure with _ | _ | _ <;>
    simp [closeConsumer, removeSessionConsumer, removeDispatcher, found, asCms, asActiveMQ, mapError, throwIf, bind_run,
      stateOf, h, hdispatcher]

theorem closeProducer_closed {id : π} (failure : Option CloseFailure)
    (h : s.producers.find id = none) : stateOf (closeProducer id failure s) = s := by
  simp [closeProducer, asCms, mapError, bind_run, stateOf, h]

theorem closeProducer_open {id : π} {producer active : ρ} (failure : Option CloseFailure)
    (h : s.producers.find id = some producer) (hactive : s.activeProducers.find id = some active) :
    stateOf (closeProducer id failure s) = { s with
      producers := s.producers.erase id
      activeProducers := s.activeProducers.erase id } := by
  rcases failure with _ | _ | _ <;>
    simp [closeProducer, removeSessionProducer, removeProducer, found, asCms, asActiveMQ, mapError, throwIf, bind_run,
      stateOf, h, hactive]

theorem ensureConnectionInfoSent_state (s : Routing κ π σ ρ) (id : κ) (failure : Option ConnectFailure) :
    stateOf (ensureConnectionInfoSent id failure s) =
      if s.isConnectionInfoSentToBroker = true ∨ failure = some .connection then s
      else if s.watchTopicAdvisories = false then { s with isConnectionInfoSentToBroker := true }
      else { s with
        isConnectionInfoSentToBroker := true
        dispatchers := s.dispatchers.insert id .advisory
        advisoryConsumer := if failure = some .advisory then s.advisoryConsumer else some (id, false) } := by
  cases hsent : s.isConnectionInfoSentToBroker <;> cases hwatch : s.watchTopicAdvisories <;>
    rcases failure with _ | _ | _ <;>
    simp [ensureConnectionInfoSent, newAdvisoryConsumer, addDispatcher, asCms, asActiveMQ, mapError, throwIf, bind_run,
      stateOf, hsent, hwatch]

/-- The clause of `dispose` does not catch what `oneway` throws. -/
theorem disposeAdvisoryConsumer_live {id : κ} (onewayFails : Bool)
    (h : s.advisoryConsumer = some (id, false)) (hdispatcher : s.dispatchers.find id = some dispatcher) :
    stateOf (disposeAdvisoryConsumer onewayFails s) = { s with
      advisoryConsumer := some (id, true)
      dispatchers := if onewayFails then s.dispatchers else s.dispatchers.erase id } := by
  cases onewayFails <;>
    simp [disposeAdvisoryConsumer, absorbing, isCms, removeDispatcher, found, asCms, mapError, throwIf, bind_run, stateOf,
      h, hdispatcher]

theorem disposeAdvisoryConsumer_none (onewayFails : Bool)
    (h : ∀ id, s.advisoryConsumer ≠ some (id, false)) : stateOf (disposeAdvisoryConsumer onewayFails s) = s := by
  simp only [disposeAdvisoryConsumer, bind_run, get_run]
  rfl

theorem onCommand_absent {command : Inbound κ π} (handlerThrows : Bool) (h : s.Absent command) :
    onCommand command handlerThrows s = .error .activemq s := by
  cases command with
  | messageDispatch id => simp [onCommand, deliver, found, asActiveMQ, mapError, bind_run, show _ = none from h]
  | producerAck id => simp [onCommand, deliver, found, asActiveMQ, mapError, bind_run, show _ = none from h]
  | other => exact h.elim

theorem onCommand_frame (s : Routing κ π σ ρ) (command : Inbound κ π) (handlerThrows : Bool) :
    ∃ received notified, stateOf (onCommand command handlerThrows s) = { s with received, notified } := by
  by_cases habsent : s.Absent command
  · exact ⟨s.received, s.notified, by rw [onCommand_absent handlerThrows habsent]; rfl⟩
  · have hdeliver : deliver command handlerThrows s =
        throwIf handlerThrows { s with received := s.received ++ [command] } := by
      cases command with
      | messageDispatch id =>
        obtain ⟨dispatcher, h⟩ := Option.ne_none_iff_exists'.mp habsent
        simp [deliver, bind_run, found, h]
      | producerAck id =>
        obtain ⟨producer, h⟩ := Option.ne_none_iff_exists'.mp habsent
        simp [deliver, bind_run, found, h]
      | other => simp [deliver, bind_run]
    cases handlerThrows with
    | true =>
      refine ⟨s.received ++ [command], s.notified, ?_⟩
      simp [onCommand, asActiveMQ, mapError, bind_run, hdeliver, throwIf, stateOf]
    | false =>
      refine ⟨s.received ++ [command], s.notified ++ [command], ?_⟩
      simp [onCommand, asActiveMQ, mapError, bind_run, hdeliver, throwIf, stateOf]

/-- The tables are exact, and no consumer has the id of the advisory consumer. -/
structure Inv (s : Routing κ π σ ρ) : Prop where
  exact : s.Exact
  distinct : ∀ id, s.advisoryConsumer = some (id, false) → s.consumers.find id = none

theorem inv_new (watchTopicAdvisories : Bool) : Inv ({ watchTopicAdvisories } : Routing κ π σ ρ) where
  exact := ⟨fun _ => rfl, rfl⟩
  distinct := fun _ _ => rfl

section Inv

variable {s : Routing κ π σ ρ} (h : s.Inv)
variable {session : σ}

include h

theorem Inv.not_open {id : κ} (hid : s.dispatchers.find id = none) :
    s.advisoryConsumer ≠ some (id, false) ∧ s.consumers.find id = none := by
  rw [h.exact.dispatchers_eq, openDispatcher] at hid
  split_ifs at hid with hadvisory
  exact ⟨hadvisory, Option.map_eq_none_iff.mp hid⟩

theorem Inv.dispatcher_advisory {id : κ} (hid : s.advisoryConsumer = some (id, false)) :
    s.dispatchers.find id = some .advisory := by
  rw [h.exact.dispatchers_eq]
  exact if_pos hid

theorem Inv.dispatcher_session {id : κ} (hid : s.consumers.find id = some session) :
    s.dispatchers.find id = some (.session session) := by
  rw [h.exact.dispatchers_eq, openDispatcher, hid]
  refine if_neg fun hadvisory => ?_
  rw [h.distinct id hadvisory] at hid
  cases hid

theorem Inv.openConsumer {id : κ} (session : σ) (hid : s.dispatchers.find id = none) : Inv { s with
      consumers := s.consumers.insert id session
      dispatchers := s.dispatchers.insert id (.session session) } := by
  obtain ⟨hadvisory, -⟩ := h.not_open hid
  refine ⟨⟨fun id' => ?_, h.exact.producers_eq⟩, fun id' hid' => ?_⟩
  · have hid' := h.exact.dispatchers_eq id'
    by_cases heq : id' = id
    · subst heq
      simp [openDispatcher, hadvisory]
    · simpa [openDispatcher, heq] using hid'
  · have hne : id' ≠ id := fun heq => hadvisory (heq ▸ hid')
    simpa [hne] using h.distinct id' hid'

theorem Inv.closeConsumer {id : κ} (hid : s.consumers.find id = some session) : Inv { s with
      consumers := s.consumers.erase id
      dispatchers := s.dispatchers.erase id } := by
  refine ⟨⟨fun id' => ?_, h.exact.producers_eq⟩, fun id' hid' => ?_⟩
  · have hid' := h.exact.dispatchers_eq id'
    by_cases heq : id' = id
    · subst heq
      have hadvisory : s.advisoryConsumer ≠ some (id', false) := fun hadvisory => by
        rw [h.distinct id' hadvisory] at hid
        cases hid
      simp [openDispatcher, hadvisory]
    · simpa [openDispatcher, heq] using hid'
  · have := h.distinct id' hid'
    simp [this]

theorem Inv.openAdvisory {id : κ} (hid : s.dispatchers.find id = none)
    (hnone : ∀ id, s.advisoryConsumer ≠ some (id, false)) :
    Inv { s with
      isConnectionInfoSentToBroker := true
      dispatchers := s.dispatchers.insert id .advisory
      advisoryConsumer := some (id, false) } := by
  obtain ⟨-, hconsumers⟩ := h.not_open hid
  refine ⟨⟨fun id' => ?_, h.exact.producers_eq⟩, fun id' hid' => ?_⟩
  · have hid' := h.exact.dispatchers_eq id'
    by_cases heq : id' = id
    · subst heq
      simp [openDispatcher]
    · simpa [openDispatcher, heq, Ne.symm heq, hnone] using hid'
  · cases hid'
    exact hconsumers

theorem Inv.closeAdvisory {id : κ} (hid : s.advisoryConsumer = some (id, false)) : Inv { s with
      advisoryConsumer := some (id, true)
      dispatchers := s.dispatchers.erase id } := by
  refine ⟨⟨fun id' => ?_, h.exact.producers_eq⟩, fun id' hid' => ?_⟩
  · have hid' := h.exact.dispatchers_eq id'
    by_cases heq : id' = id
    · subst heq
      simp [openDispatcher, h.distinct id' hid]
    · simpa [openDispatcher, heq, hid, Ne.symm heq] using hid'
  · cases hid'

theorem Inv.orderly_connect {id : κ} {failure : Option ConnectFailure} (hid : s.dispatchers.find id = none)
    (hexact : (stateOf (ensureConnectionInfoSent id failure s)).Exact) : s.Orderly (.connect id failure) := by
  intro _ hsent hwatch hfailure
  obtain ⟨hadvisory, hconsumers⟩ := h.not_open hid
  rw [ensureConnectionInfoSent_state, if_neg (by simp [hsent, hfailure]), if_neg (by simp [hwatch])] at hexact
  constructor
  · intro hadvisoryFails
    have := hexact.dispatchers_eq id
    simp [openDispatcher, hadvisoryFails, hadvisory, hconsumers] at this
  · intro id' hid'
    have hne : id' ≠ id := fun heq => hadvisory (heq ▸ hid')
    have hnone := h.distinct id' hid'
    have := hexact.dispatchers_eq id'
    by_cases hadvisoryFails : failure = some .advisory
    · have := hexact.dispatchers_eq id
      simp [openDispatcher, hadvisoryFails, hadvisory, hconsumers] at this
    · simp [openDispatcher, hadvisoryFails, hne, Ne.symm hne, hnone, h.dispatcher_advisory hid'] at this

theorem Inv.orderly_closeAdvisory {onewayFails : Bool}
    (hexact : (stateOf (disposeAdvisoryConsumer onewayFails s)).Exact) : s.Orderly (.closeAdvisory onewayFails) := by
  rintro ⟨id, hid⟩
  rw [disposeAdvisoryConsumer_live onewayFails hid (h.dispatcher_advisory hid)] at hexact
  by_contra hfails
  rw [Bool.not_eq_false] at hfails
  have := hexact.dispatchers_eq id
  simp [openDispatcher, hfails, h.distinct id hid, h.dispatcher_advisory hid] at this

end Inv

theorem inv_step (s : Routing κ π σ ρ) (e : Event κ π σ ρ) (s' : Routing κ π σ ρ) (h : s.Inv) (horderly : s.Orderly e)
    (hs : step s e = some s') : s'.Inv := by
  cases e with
  | openConsumer id session failure =>
    simp only [step] at hs
    split_ifs at hs with hid
    cases hs
    rw [opens_createConsumer session hid (h.not_open hid).2]
    split_ifs
    · exact h.openConsumer session hid
    · exact h
  | closeConsumer id failure =>
    cases hs
    cases hid : s.consumers.find id with
    | none =>
      rw [closeConsumer_closed failure hid]
      exact h
    | some session =>
      rw [closeConsumer_open failure hid (h.dispatcher_session hid)]
      split_ifs
      · exact h
      · exact h.closeConsumer hid
  | openProducer id producer failure =>
    simp only [step] at hs
    split_ifs at hs with hid
    cases hs
    rw [opens_createProducer producer hid (h.exact.producers_eq ▸ hid)]
    split_ifs
    · exact ⟨⟨h.exact.dispatchers_eq, by simp only [h.exact.producers_eq]⟩, h.distinct⟩
    · exact h
  | closeProducer id failure =>
    cases hs
    cases hid : s.producers.find id with
    | none =>
      rw [closeProducer_closed failure hid]
      exact h
    | some producer =>
      rw [closeProducer_open failure hid (h.exact.producers_eq ▸ hid)]
      exact ⟨⟨h.exact.dispatchers_eq, by simp only [h.exact.producers_eq]⟩, h.distinct⟩
  | connect id failure =>
    simp only [step] at hs
    split_ifs at hs with hid
    cases hs
    rw [ensureConnectionInfoSent_state]
    split_ifs with hsent hwatch hfailure
    · exact h
    · exact ⟨⟨h.exact.dispatchers_eq, h.exact.producers_eq⟩, h.distinct⟩
    · rw [not_or] at hsent
      exact absurd hfailure (horderly hid (by simpa using hsent.1) (by simpa using hwatch) hsent.2).1
    · rw [not_or] at hsent
      exact h.openAdvisory hid (horderly hid (by simpa using hsent.1) (by simpa using hwatch) hsent.2).2
  | closeAdvisory onewayFails =>
    cases hs
    by_cases hlive : ∃ id, s.advisoryConsumer = some (id, false)
    · obtain ⟨id, hid⟩ := hlive
      rw [disposeAdvisoryConsumer_live onewayFails hid (h.dispatcher_advisory hid), horderly ⟨id, hid⟩]
      exact h.closeAdvisory hid
    · rw [disposeAdvisoryConsumer_none onewayFails (not_exists.mp hlive)]
      exact h
  | cleanup =>
    cases hs
    exact ⟨⟨h.exact.dispatchers_eq, h.exact.producers_eq⟩, h.distinct⟩
  | command command handlerThrows =>
    cases hs
    obtain ⟨received, notified, hstate⟩ := onCommand_frame s command handlerThrows
    rw [hstate]
    exact ⟨⟨h.exact.dispatchers_eq, h.exact.producers_eq⟩, h.distinct⟩

theorem behaves_iff (s : Routing κ π σ ρ) (e : Event κ π σ ρ) (h : s.Inv) : s.Behaves e ↔ s.Orderly e := by
  constructor
  · rintro ⟨hexact, hignored⟩
    cases e with
    | connect id failure =>
      intro hid
      exact h.orderly_connect hid (hexact _ (if_pos hid)) hid
    | closeAdvisory onewayFails => exact h.orderly_closeAdvisory (hexact _ rfl)
    | command command handlerThrows =>
      intro habsent
      have := hignored command handlerThrows rfl habsent
      rw [Ignored, onCommand_absent handlerThrows habsent] at this
      cases this
    | openConsumer | closeConsumer | openProducer | closeProducer | cleanup => trivial
  · intro horderly
    refine ⟨fun s' hs => (inv_step s e s' h horderly hs).exact, ?_⟩
    rintro command handlerThrows rfl habsent
    exact absurd habsent horderly

/-- The tables stay exact, and commands for nobody are ignored, in exactly the runs whose steps are orderly. -/
theorem behaves_iff_orderly (watchTopicAdvisories : Bool) (events : List (Event κ π σ ρ)) :
    Always step Behaves { watchTopicAdvisories } events ↔ Always step Orderly { watchTopicAdvisories } events :=
  always_congr behaves_iff inv_step (inv_new watchTopicAdvisories) events

/-- A message for a consumer that was just closed: `onCommand` throws, and the listeners do not hear of it. -/
theorem late_dispatch_throws :
    ∃ s : Routing ℕ ℕ ℕ ℕ, run step {} [.openConsumer 1 7 none, .closeConsumer 1 none] = some s ∧
      s.Absent (.messageDispatch 1) ∧ onCommand (.messageDispatch 1) false s = .error .activemq s ∧
      ¬s.Behaves (.command (.messageDispatch 1) false) := by
  refine ⟨_, rfl, rfl, rfl, fun h => ?_⟩
  have := h.2 (.messageDispatch 1) false rfl rfl
  cases this

end Routing

end ActiveMQCpp.Core
