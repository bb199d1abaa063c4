import Mathlib.Data.List.Nodup
import ActiveMQCpp.LibCleanup

/-! `ActiveMQConnection::close`: a sequence of clean-up steps, each of which may throw. The exceptions of CMS and
those of the library are unrelated classes, and a clause for one does not catch the other. -/

namespace ActiveMQCpp.Core

open Codec Cleanup List

/-- `activemq` is a subclass of the `decaf` exceptions. -/
inductive ExceptionKind where
  | cms
  | activemq
  | decaf
  deriving DecidableEq

namespace ExceptionKind

/-- `catch (cms::CMSException&)`. -/
def isCms (kind : ExceptionKind) : Bool := kind = cms

/-- `catch (ActiveMQException&)`. -/
def isActiveMQ (kind : ExceptionKind) : Bool := kind = activemq

/-- `catch (Exception&)`. -/
def isException (kind : ExceptionKind) : Bool := kind ≠ cms

end ExceptionKind

open ExceptionKind

inductive CleanupStep where
  | stop
  | scheduler
  | session (id : Nat)
  /-- The advisory consumer tells the broker. -/
  | advisoryRemove
  | advisoryDispatcher
  | tempDestination (id : Nat)
  | executor
  | removeInfo
  | shutdownInfo
  | transport
  deriving DecidableEq

/-- The parts of a connection that `close` depends on; `advisoryClosed` is the flag of the advisory consumer,
if there is one. -/
structure ClosingConnection where
  activeSessions : List Nat := []
  distinct : activeSessions.Nodup
  activeTempDestinations : List Nat := []
  hasScheduler : Bool := false
  hasExecutor : Bool := true
  advisoryClosed : Option Bool := none
  isConnectionInfoSentToBroker : Bool := true
  transportFailed : Bool := false
  started : Bool := true
  closing : Bool := false
  closed : Bool := false

namespace ClosingConnection

abbrev Program (α : Type) : Type :=
  EStateM (Thrown ExceptionKind CleanupStep) (Logged ClosingConnection CleanupStep) α

abbrev First : Type := Option (Thrown ExceptionKind CleanupStep)

def modifyConnection (f : ClosingConnection → ClosingConnection) : Program Unit :=
  modify fun l => { l with state := f l.state }

def unaffected (_ : CleanupStep) (c : ClosingConnection) : ClosingConnection := c

/-- A session that is disposed of is removed from the connection, also when it throws. -/
def removeSession (step : CleanupStep) (c : ClosingConnection) : ClosingConnection :=
  match step with
  | .session id => { c with activeSessions := c.activeSessions.erase id, distinct := c.distinct.erase id }
  | _ => c

variable (fails : CleanupStep → Bool)

def stopUnlessFailed (first : First) : Program First := fun l =>
  if l.state.transportFailed then .ok first l
  else guarded isCms (attempt fails .cms unaffected .stop) first l

def stopScheduler (first : First) : Program First := fun l =>
  if l.state.hasScheduler then guarded isException (attempt fails .decaf unaffected .scheduler) first l
  else .ok first l

/-- `dispose` of a session throws an `ActiveMQException` whatever happens in it, which the clause inside the
loop does not catch. -/
def disposeSessions : Program Unit := fun l =>
  (do
    l.state.activeSessions.forM fun id => absorb isCms (attempt fails .activemq removeSession (.session id))
    modifyConnection fun c => { c with activeSessions := [], distinct := List.nodup_nil } : Program Unit) l

/-- `AdvisoryConsumer::dispose`. The `oneway` of the connection throws an `ActiveMQException`. -/
def disposeAdvisory : Program Unit := fun l =>
  if l.state.advisoryClosed = some false then
    (do
      modifyConnection fun c => { c with advisoryClosed := some true }
      absorb isCms (attempt fails .activemq unaffected .advisoryRemove)
      attempt fails .cms unaffected .advisoryDispatcher : Program Unit) l
  else .ok () l

def closeTempDestinations : Program Unit := fun l =>
  (l.state.activeTempDestinations.map CleanupStep.tempDestination).forM (attempt fails .cms unaffected) l

def shutdownExecutor (first : First) : Program First := fun l =>
  if l.state.hasExecutor then guarded isException (attempt fails .decaf unaffected .executor) first l
  else .ok first l

/-- The exchanges with the broker at the end of a connection it knows of. -/
def farewell (first : First) : Program First := fun l =>
  if l.state.isConnectionInfoSentToBroker then
    (do
      let first ← guarded isActiveMQ (attempt fails .activemq unaffected .removeInfo) first
      guarded isActiveMQ (attempt fails .activemq unaffected .shutdownInfo) first : Program First) l
  else .ok first l

def rethrow : First → Program Unit
  | some e => throw e
  | none => pure ()

/-- A transport throws an `IOException` from `close`. Every exception leaves as an `ActiveMQException`. -/
def disconnect : Program Unit :=
  mapError (fun e => { e with kind := .activemq }) do
    let first ← farewell fails none
    let first ← guarded isActiveMQ (attempt fails .decaf unaffected .transport) first
    rethrow first

def closeOpen : Program Unit := do
  let first ← stopUnlessFailed fails none
  modifyConnection fun c => { c with closing := true }
  let first ← stopScheduler fails first
  let first ← guarded isException (disposeSessions fails) first
  disposeAdvisory fails
  let first ← guarded isCms (closeTempDestinations fails) first
  let first ← shutdownExecutor fails first
  let first ← guarded isException (disconnect fails) first
  modifyConnection fun c => { c with started := false, closed := true }
  rethrow first

/-- Every exception leaves as a `CMSException`. -/
def close : Program Unit := fun l =>
  if l.state.closed then .ok () l else mapError (fun e => { e with kind := .cms }) (closeOpen fails) l

def reported : EStateM.Result (Thrown ExceptionKind CleanupStep) (Logged ClosingConnection CleanupStep) Unit →
    Option CleanupStep
  | .ok _ _ => none
  | .error e _ => some e.origin

/-- Everything is disposed of and closed whatever throws, the first exception is reported, and closing again
does nothing. -/
def ClosesCompletely (c : ClosingConnection) : Prop :=
  let r := close fails ⟨c, []⟩
  let l := stateOf r
  (∀ id ∈ c.activeSessions, .session id ∈ l.done) ∧
    (c.isConnectionInfoSentToBroker = true → .removeInfo ∈ l.done ∧ .shutdownInfo ∈ l.done) ∧
    .transport ∈ l.done ∧ l.state.closed = true ∧ reported r = l.done.find? fails ∧
    ∀ fails' done, close fails' ⟨l.state, done⟩ = .ok () ⟨l.state, done⟩

def earlySteps (c : ClosingConnection) : List CleanupStep :=
  (if c.transportFailed then [] else [.stop]) ++ (if c.hasScheduler then [.scheduler] else []) ++
    c.activeSessions.map .session ++ c.activeTempDestinations.map .tempDestination ++
    (if c.hasExecutor then [.executor] else [])

/-- No session but the last throws and the advisory consumer does not; and the transport does not throw when
the first exception is one of telling the broker. -/
structure Survivable (c : ClosingConnection) : Prop where
  sessions : ∀ before id after, c.activeSessions = before ++ id :: after → fails (.session id) = true → after = []
  advisory : c.advisoryClosed = some false → fails .advisoryRemove = false ∧ fails .advisoryDispatcher = false
  transport : fails .transport = true → (∃ step ∈ c.earlySteps, fails step = true) ∨
    c.isConnectionInfoSentToBroker = false ∨ fails .removeInfo = false ∧ fails .shutdownInfo = false

/-! ### The stages -/

/-- The parts of a connection that the later stages read are as they were. -/
structure Keeps (c c' : ClosingConnection) : Prop where
  activeTempDestinations : c'.activeTempDestinations = c.activeTempDestinations
  hasExecutor : c'.hasExecutor = c.hasExecutor
  advisoryClosed : c'.advisoryClosed = c.advisoryClosed
  isConnectionInfoSentToBroker : c'.isConnectionInfoSentToBroker = c.isConnectionInfoSentToBroker

variable {fails}
variable {first : First} {done : List CleanupStep}
variable {c : ClosingConnection}

theorem keeps_removeSession (steps : List CleanupStep) (c : ClosingConnection) :
    Keeps c (steps.foldl (fun c step => removeSession step c) c) := by
  induction steps generalizing c with
  | nil => exact ⟨rfl, rfl, rfl, rfl⟩
  | cons step steps ih =>
    obtain ⟨h1, h2, h3, h4⟩ := ih (removeSession step c)
    rw [foldl_cons]
    cases step with
    | _ => exact ⟨h1, h2, h3, h4⟩

theorem foldl_unaffected (steps : List CleanupStep) (c : ClosingConnection) :
    steps.foldl (fun c step => unaffected step c) c = c := by
  induction steps with
  | nil => rfl
  | cons step steps ih => exact ih

theorem stopUnlessFailed_run (c : ClosingConnection) : ∃ first,
    stopUnlessFailed fails none ⟨c, []⟩ = .ok first ⟨c, if c.transportFailed then [] else [.stop]⟩ ∧
      Kept fails first (if c.transportFailed then [] else [.stop]) := by
  have hkept : Kept fails (none : First) [] := rfl
  by_cases h : c.transportFailed = true
  · rw [if_pos h]
    exact ⟨none, if_pos h, hkept⟩
  · rw [if_neg h]
    refine ⟨_, (if_neg h).trans (guarded_attempt fails rfl unaffected .stop none ⟨c, []⟩), ?_⟩
    exact hkept.append .cms [.stop] rfl

theorem stopScheduler_run (c : ClosingConnection) (hkept : Kept fails first done) :
    ∃ first', stopScheduler fails first ⟨c, done⟩ = .ok first' ⟨c, done ++ if c.hasScheduler then [.scheduler] else []⟩ ∧
      Kept fails first' (done ++ if c.hasScheduler then [.scheduler] else []) := by
  by_cases h : c.hasScheduler = true
  · rw [if_pos h]
    refine ⟨_, (if_pos h).trans (guarded_attempt fails rfl unaffected .scheduler first ⟨c, done⟩), ?_⟩
    exact hkept.append .decaf [.scheduler] rfl
  · rw [if_neg h, append_nil]
    exact ⟨first, if_neg h, hkept⟩

theorem forM_session (ids : List Nat) :
    (ids.forM fun id => absorb isCms (attempt fails .activemq removeSession (.session id)) : Program Unit)
      = (ids.map CleanupStep.session).forM (attempt fails .activemq removeSession) := by
  induction ids with
  | nil => rfl
  | cons id ids ih =>
    show (absorb isCms _ >>= fun _ => _) = (attempt fails _ _ _ >>= fun _ => _)
    rw [absorb_attempt fails rfl]
    exact congrArg (attempt fails .activemq removeSession (.session id) >>= ·) (funext fun _ => ih)

theorem disposeSessions_run (c : ClosingConnection) (hkept : Kept fails first done) :
    ∃ first' c', guarded isException (disposeSessions fails) first ⟨c, done⟩
        = .ok first' ⟨c', done ++ upTo fails (c.activeSessions.map .session)⟩ ∧
      Kept fails first' (done ++ upTo fails (c.activeSessions.map .session)) ∧ Keeps c c' := by
  have hloop := forM_attempt fails ExceptionKind.activemq removeSession (c.activeSessions.map .session) ⟨c, done⟩
  rw [← forM_session] at hloop
  obtain ⟨h1, h2, h3, h4⟩ := keeps_removeSession (upTo fails (c.activeSessions.map .session)) c
  have hfirst := hkept.append .activemq _ (find_upTo fails (c.activeSessions.map .session))
  cases hfind : (c.activeSessions.map CleanupStep.session).find? fails with
  | none =>
    rw [hfind] at hloop hfirst
    have hdispose : disposeSessions fails ⟨c, done⟩ = .ok () ⟨{ (upTo fails (c.activeSessions.map .session)).foldl
        (fun c step => removeSession step c) c with activeSessions := [], distinct := nodup_nil },
        done ++ upTo fails (c.activeSessions.map .session)⟩ := by
      unfold disposeSessions
      exact bind_ok hloop
    exact ⟨first, _, guarded_ok hdispose, by simpa using hfirst, ⟨h1, h2, h3, h4⟩⟩
  | some step =>
    rw [hfind] at hloop hfirst
    have hdispose : disposeSessions fails ⟨c, done⟩ = .error ⟨.activemq, step⟩ ⟨(upTo fails (c.activeSessions.map
        .session)).foldl (fun c step => removeSession step c) c, done ++ upTo fails (c.activeSessions.map .session)⟩ := by
      unfold disposeSessions
      exact bind_error hloop
    exact ⟨_, _, guarded_caught hdispose rfl, hfirst, ⟨h1, h2, h3, h4⟩⟩

def advisorySteps (c : ClosingConnection) : List CleanupStep :=
  if c.advisoryClosed = some false then [.advisoryRemove, .advisoryDispatcher] else []

theorem disposeAdvisory_run (fails : CleanupStep → Bool) (c : ClosingConnection) (done : List CleanupStep) :
    (∃ e c', disposeAdvisory fails ⟨c, done⟩ = .error e ⟨c', done ++ upTo fails c.advisorySteps⟩ ∧
        ∃ step ∈ c.advisorySteps, fails step = true) ∨
      (∃ c', disposeAdvisory fails ⟨c, done⟩ = .ok () ⟨c', done ++ c.advisorySteps⟩ ∧
        c'.activeTempDestinations = c.activeTempDestinations ∧ c'.hasExecutor = c.hasExecutor ∧
        c'.isConnectionInfoSentToBroker = c.isConnectionInfoSentToBroker ∧
        ∀ step ∈ c.advisorySteps, fails step = false) := by
  by_cases h : c.advisoryClosed = some false
  · have hsteps : c.advisorySteps = [.advisoryRemove, .advisoryDispatcher] := if_pos h
    have hrun : disposeAdvisory fails ⟨c, done⟩ =
        (do
          attempt fails .activemq unaffected .advisoryRemove
          attempt fails .cms unaffected .advisoryDispatcher : Program Unit)
          ⟨{ c with advisoryClosed := some true }, done⟩ := by
      rw [disposeAdvisory, if_pos h, absorb_attempt fails rfl]
      rfl
    rw [hrun, hsteps]
    cases hremove : fails .advisoryRemove with
    | true =>
      refine .inl ⟨⟨.activemq, .advisoryRemove⟩, { c with advisoryClosed := some true }, ?_, .advisoryRemove,
        mem_cons_self, hremove⟩
      rw [upTo_cons_of_fails fails hremove]
      refine bind_error ?_
      simp only [attempt, hremove, if_true]
      rfl
    | false =>
      have hfirst : attempt fails ExceptionKind.activemq unaffected .advisoryRemove
          ⟨{ c with advisoryClosed := some true }, done⟩
          = .ok () ⟨{ c with advisoryClosed := some true }, done ++ [.advisoryRemove]⟩ := by
        simp only [attempt, hremove, Bool.false_eq_true, if_false]
        rfl
      rw [bind_ok hfirst]
      cases hdispatcher : fails .advisoryDispatcher with
      | true =>
        refine .inl ⟨⟨.cms, .advisoryDispatcher⟩, { c with advisoryClosed := some true }, ?_, .advisoryDispatcher,
          by simp, hdispatcher⟩
        rw [upTo_cons_of_not fails hremove, upTo_cons_of_fails fails hdispatcher]
        simp only [attempt, hdispatcher, if_true, append_assoc]
        rfl
      | false =>
        refine .inr ⟨{ c with advisoryClosed := some true }, ?_, rfl, rfl, rfl, ?_⟩
        · simp only [attempt, hdispatcher, Bool.false_eq_true, if_false, append_assoc]
          rfl
        · intro step hstep
          rcases mem_cons.mp hstep with rfl | hstep
          · exact hremove
          · rw [mem_singleton.mp hstep]
            exact hdispatcher
  · have hsteps : c.advisorySteps = [] := if_neg h
    rw [hsteps, append_nil]
    exact .inr ⟨c, if_neg h, rfl, rfl, rfl, fun step hstep => absurd hstep not_mem_nil⟩

theorem closeTempDestinations_run (c : ClosingConnection)
    (hkept : Kept fails first done) : ∃ first', guarded isCms (closeTempDestinations fails) first ⟨c, done⟩
        = .ok first' ⟨c, done ++ upTo fails (c.activeTempDestinations.map .tempDestination)⟩ ∧
      Kept fails first' (done ++ upTo fails (c.activeTempDestinations.map .tempDestination)) := by
  have hrun := guarded_forM fails (show isCms .cms = true from rfl) unaffected
    (c.activeTempDestinations.map .tempDestination) first ⟨c, done⟩
  rw [foldl_unaffected] at hrun
  exact ⟨_, hrun, hkept.append .cms _ (find_upTo fails _)⟩

theorem shutdownExecutor_run (c : ClosingConnection) (hkept : Kept fails first done) :
    ∃ first', shutdownExecutor fails first ⟨c, done⟩ = .ok first' ⟨c, done ++ if c.hasExecutor then [.executor] else []⟩ ∧
      Kept fails first' (done ++ if c.hasExecutor then [.executor] else []) := by
  by_cases h : c.hasExecutor = true
  · rw [if_pos h]
    refine ⟨_, (if_pos h).trans (guarded_attempt fails rfl unaffected .executor first ⟨c, done⟩), ?_⟩
    exact hkept.append .decaf [.executor] rfl
  · rw [if_neg h, append_nil]
    exact ⟨first, if_neg h, hkept⟩

def farewellSteps (c : ClosingConnection) : List CleanupStep :=
  if c.isConnectionInfoSentToBroker then [.removeInfo, .shutdownInfo] else []

theorem farewell_run (c : ClosingConnection) : ∃ first,
    farewell fails none ⟨c, done⟩ = .ok first ⟨c, done ++ c.farewellSteps⟩ ∧ Kept fails first c.farewellSteps := by
  have hkept : Kept fails (none : First) [] := rfl
  by_cases h : c.isConnectionInfoSentToBroker = true
  · have hactivemq : isActiveMQ .activemq = true := rfl
    have hremove := guarded_attempt fails hactivemq unaffected .removeInfo none ⟨c, done⟩
    have hfirst := (hkept.append .activemq [.removeInfo] rfl).append .activemq [.shutdownInfo] rfl
    have hshutdown := guarded_attempt fails hactivemq unaffected .shutdownInfo
      ((none : First).or (([.removeInfo].find? fails).map (⟨.activemq, ·⟩))) ⟨c, done ++ [.removeInfo]⟩
    rw [farewellSteps, if_pos h]
    refine ⟨_, (if_pos h).trans ((bind_ok hremove).trans (hshutdown.trans ?_)), hfirst⟩
    rw [append_assoc]
    rfl
  · rw [farewellSteps, if_neg h, append_nil]
    exact ⟨none, if_neg h, hkept⟩

theorem disconnect_run (fails : CleanupStep → Bool) (c : ClosingConnection) (done : List CleanupStep) :
    disconnect fails ⟨c, done⟩ =
      match if fails .transport then some .transport else c.farewellSteps.find? fails with
      | none => .ok () ⟨c, done ++ c.farewellSteps ++ [.transport]⟩
      | some step => .error ⟨.activemq, step⟩ ⟨c, done ++ c.farewellSteps ++ [.transport]⟩ := by
  obtain ⟨first, hfarewell, hkept⟩ : ∃ first, farewell fails none ⟨c, done⟩ = .ok first ⟨c, done ++ c.farewellSteps⟩ ∧
      Kept fails first c.farewellSteps := farewell_run c
  unfold disconnect mapError
  rw [bind_ok hfarewell]
  cases htransport : fails .transport with
  | true =>
    have hattempt : attempt fails ExceptionKind.decaf unaffected .transport ⟨c, done ++ c.farewellSteps⟩
        = .error ⟨.decaf, .transport⟩ ⟨c, done ++ c.farewellSteps ++ [.transport]⟩ := by
      simp only [attempt, htransport, if_true]
      rfl
    rw [bind_error (guarded_uncaught hattempt rfl)]
    rfl
  | false =>
    have hattempt : attempt fails ExceptionKind.decaf unaffected .transport ⟨c, done ++ c.farewellSteps⟩
        = .ok () ⟨c, done ++ c.farewellSteps ++ [.transport]⟩ := by
      simp only [attempt, htransport, Bool.false_eq_true, if_false]
      rfl
    rw [bind_ok (guarded_ok hattempt), ← hkept]
    cases first with
    | none => rfl
    | some e => rfl

/-! ### Closing -/

section Steps

variable (fails)

/-- The steps up to the sessions, as far as they are carried out. -/
def firstSteps (c : ClosingConnection) : List CleanupStep :=
  ((if c.transportFailed then [] else [.stop]) ++ if c.hasScheduler then [.scheduler] else []) ++
    upTo fails (c.activeSessions.map .session)

/-- The steps before the broker is told, as far as they are carried out. -/
def stepsBefore (c : ClosingConnection) : List CleanupStep :=
  firstSteps fails c ++ c.advisorySteps ++ upTo fails (c.activeTempDestinations.map .tempDestination) ++
    if c.hasExecutor then [.executor] else []

end Steps

theorem closeOpen_run (fails : CleanupStep → Bool) (c : ClosingConnection) :
    (∃ e c', closeOpen fails ⟨c, []⟩ = .error e ⟨c', firstSteps fails c ++ upTo fails c.advisorySteps⟩ ∧
        ∃ step ∈ c.advisorySteps, fails step = true) ∨
      (∃ first : First, ∃ c' : ClosingConnection, closeOpen fails ⟨c, []⟩
          = rethrow first ⟨c', stepsBefore fails c ++ c.farewellSteps ++ [.transport]⟩ ∧
        c'.closed = true ∧ (∀ step ∈ c.advisorySteps, fails step = false) ∧
        first.map Thrown.origin = ((stepsBefore fails c).find? fails).or
          (if fails .transport then some .transport else c.farewellSteps.find? fails)) := by
  obtain ⟨first1, hstop, hkept1⟩ : ∃ first, stopUnlessFailed fails none ⟨c, []⟩
      = .ok first ⟨c, if c.transportFailed then [] else [.stop]⟩ ∧
        Kept fails first (if c.transportFailed then [] else [.stop]) := stopUnlessFailed_run c
  obtain ⟨first2, hscheduler, hkept2⟩ := stopScheduler_run { c with closing := true } hkept1
  obtain ⟨first3, c3, hsessions, hkept3, hkeeps⟩ := disposeSessions_run { c with closing := true } hkept2
  have hadvisorySteps : c3.advisorySteps = c.advisorySteps := by
    rw [advisorySteps, hkeeps.advisoryClosed]
    rfl
  have hfirst : ∀ {r}, (do
      disposeAdvisory fails
      let first ← guarded isCms (closeTempDestinations fails) first3
      let first ← shutdownExecutor fails first
      let first ← guarded isException (disconnect fails) first
      modifyConnection fun c => { c with started := false, closed := true }
      rethrow first : Program Unit) ⟨c3, firstSteps fails c⟩ = r → closeOpen fails ⟨c, []⟩ = r := by
    intro r hr
    have hclosing : modifyConnection (fun c => { c with closing := true })
        ⟨c, if c.transportFailed then [] else [.stop]⟩
        = .ok () ⟨{ c with closing := true }, if c.transportFailed then [] else [.stop]⟩ := rfl
    rw [closeOpen, bind_ok hstop, bind_ok hclosing, bind_ok hscheduler, bind_ok hsessions]
    exact hr
  rcases disposeAdvisory_run fails c3 (firstSteps fails c) with
    ⟨e, c', herror, hfails⟩ | ⟨c4, hadvisory, htemp, hexecutor, hinfo, hfine⟩
  · rw [hadvisorySteps] at herror hfails
    exact .inl ⟨e, c', hfirst (bind_error herror), hfails⟩
  · rw [hadvisorySteps] at hadvisory hfine
    have hnone : c.advisorySteps.find? fails = none := by
      rw [List.find?_eq_none]
      intro step hstep
      rw [hfine step hstep]
      decide
    have hkept4 : Kept fails first3 (firstSteps fails c ++ c.advisorySteps) := by
      unfold Kept at hkept3 ⊢
      rw [List.find?_append, hnone, Option.or_none]
      exact hkept3
    obtain ⟨first5, htemps, hkept5⟩ := closeTempDestinations_run c4 hkept4
    obtain ⟨first6, hshutdown, hkept6⟩ := shutdownExecutor_run c4 hkept5
    have htempSteps : c4.activeTempDestinations = c.activeTempDestinations := htemp.trans hkeeps.activeTempDestinations
    have hexecutorStep : c4.hasExecutor = c.hasExecutor := hexecutor.trans hkeeps.hasExecutor
    have hfarewell : c4.farewellSteps = c.farewellSteps := by
      rw [farewellSteps, hinfo.trans hkeeps.isConnectionInfoSentToBroker]
      rfl
    rw [htempSteps] at htemps hshutdown hkept6
    rw [hexecutorStep] at hshutdown hkept6
    have hdisconnect := disconnect_run fails c4 (stepsBefore fails c)
    rw [hfarewell] at hdisconnect
    have hrun := fun {r} (hr : (do
        let first ← guarded isException (disconnect fails) first6
        modifyConnection fun c => { c with started := false, closed := true }
        rethrow first : Program Unit) ⟨c4, stepsBefore fails c⟩ = r) =>
      hfirst ((bind_ok hadvisory).trans ((bind_ok htemps).trans ((bind_ok hshutdown).trans hr)))
    refine .inr ?_
    cases hfound : (if fails .transport then some .transport else c.farewellSteps.find? fails) with
    | none =>
      rw [hfound] at hdisconnect
      refine ⟨first6, { c4 with started := false, closed := true }, hrun (bind_ok (guarded_ok hdisconnect)), rfl,
        hfine, ?_⟩
      rw [Option.or_none]
      exact hkept6
    | some step =>
      rw [hfound] at hdisconnect
      refine ⟨first6.or (some ⟨.activemq, step⟩), { c4 with started := false, closed := true },
        hrun (bind_ok (guarded_caught hdisconnect rfl)), rfl, hfine, ?_⟩
      rw [Option.map_or]
      exact congrArg (Option.or · (some step)) hkept6

/-- The transport is not closed when the advisory consumer throws. -/
theorem transport_not_mem (c : ClosingConnection) : .transport ∉ firstSteps fails c ++ upTo fails c.advisorySteps := by
  have hstop : CleanupStep.transport ∉ (if c.transportFailed then [] else [CleanupStep.stop]) := by
    split_ifs <;> simp
  have hscheduler : CleanupStep.transport ∉ (if c.hasScheduler then [CleanupStep.scheduler] else []) := by
    split_ifs <;> simp
  have hsessions : CleanupStep.transport ∉ upTo fails (c.activeSessions.map .session) := by
    intro hmem
    have := mem_of_upTo fails hmem
    simp at this
  have hadvisory : CleanupStep.transport ∉ upTo fails c.advisorySteps := by
    intro hmem
    have := mem_of_upTo fails hmem
    unfold advisorySteps at this
    split_ifs at this <;> simp at this
  simp only [firstSteps, mem_append, hstop, hscheduler, hsessions, hadvisory, or_false, not_false_iff]

theorem session_mem_iff {id : Nat} : .session id ∈ stepsBefore fails c ++ c.farewellSteps ++ [.transport] ↔
      .session id ∈ upTo fails (c.activeSessions.map .session) := by
  have hstop : CleanupStep.session id ∉ (if c.transportFailed then [] else [CleanupStep.stop]) := by
    split_ifs <;> simp
  have hscheduler : CleanupStep.session id ∉ (if c.hasScheduler then [CleanupStep.scheduler] else []) := by
    split_ifs <;> simp
  have hadvisory : CleanupStep.session id ∉ c.advisorySteps := by
    unfold advisorySteps
    split_ifs <;> simp
  have htemp : CleanupStep.session id ∉ upTo fails (c.activeTempDestinations.map .tempDestination) := by
    intro hmem
    have := mem_of_upTo fails hmem
    simp at this
  have hexecutor : CleanupStep.session id ∉ (if c.hasExecutor then [CleanupStep.executor] else []) := by
    split_ifs <;> simp
  have hfarewell : CleanupStep.session id ∉ c.farewellSteps := by
    unfold farewellSteps
    split_ifs <;> simp
  have htransport : CleanupStep.session id ∉ [CleanupStep.transport] := by simp
  simp only [stepsBefore, firstSteps, mem_append, hstop, hscheduler, hadvisory, htemp, hexecutor, hfarewell, htransport,
    false_or, or_false]

theorem sessions_iff (c : ClosingConnection) :
    (∀ id ∈ c.activeSessions, .session id ∈ stepsBefore fails c ++ c.farewellSteps ++ [.transport]) ↔
      ∀ before id after, c.activeSessions = before ++ id :: after → fails (.session id) = true → after = [] := by
  have hinjective : Function.Injective CleanupStep.session := by
    rintro a b ⟨⟩
    rfl
  have hnodup : (c.activeSessions.map CleanupStep.session).Nodup := List.Nodup.map hinjective c.distinct
  have hcomplete := upTo_complete fails hnodup
  rw [forall_mem_map] at hcomplete
  simp only [session_mem_iff]
  rw [hcomplete]
  constructor
  · intro hlast before id after hsessions hfails
    have hnil := hlast (before.map .session) (.session id) (after.map .session) (by rw [hsessions]; simp) hfails
    exact map_eq_nil_iff.mp hnil
  · intro hlast before step after hsessions hfails
    obtain ⟨before', rest, hids, hbefore, hrest⟩ := map_eq_append_iff.mp hsessions
    obtain ⟨id, after', hids', rfl, hafter⟩ := map_eq_cons_iff.mp hrest
    rw [hids'] at hids
    rw [← hafter, hlast before' id after' hids hfails, map_nil]

theorem isSome_find_before (hadvisory : ∀ step ∈ c.advisorySteps, fails step = false) :
    ((stepsBefore fails c).find? fails).isSome ↔ ∃ step ∈ c.earlySteps, fails step = true := by
  have hnone : c.advisorySteps.find? fails = none := by
    rw [List.find?_eq_none]
    intro step hstep
    rw [hadvisory step hstep]
    decide
  have hfind : (stepsBefore fails c).find? fails = c.earlySteps.find? fails := by
    simp only [stepsBefore, firstSteps, earlySteps, List.find?_append, find_upTo, hnone, Option.or_none]
  rw [hfind, List.find?_isSome]

/-- The first exception is reported unless one of the transport takes the place of one of telling the broker. -/
theorem reported_iff (fails : CleanupStep → Bool) (before : Option CleanupStep) (c : ClosingConnection) :
    before.or (if fails .transport then some .transport else c.farewellSteps.find? fails)
        = (before.or (c.farewellSteps.find? fails)).or ([.transport].find? fails) ↔
      (fails .transport = true → before.isSome = true ∨
        c.isConnectionInfoSentToBroker = false ∨ fails .removeInfo = false ∧ fails .shutdownInfo = false) := by
  cases before with
  | some step => simp
  | none =>
    cases htransport : fails .transport with
    | false => simp [htransport]
    | true =>
      unfold farewellSteps
      cases c.isConnectionInfoSentToBroker <;> cases hremove : fails .removeInfo <;>
        cases hshutdown : fails .shutdownInfo <;> simp [htransport, hremove, hshutdown]

/-- Closing an open connection is complete exactly when no session but the last throws, the advisory consumer
does not, and the transport does not throw over an exception of telling the broker. -/
theorem closesCompletely_iff (c : ClosingConnection) (hopen : c.closed = false) :
    ClosesCompletely fails c ↔ Survivable fails c := by
  have hclose : close fails ⟨c, []⟩ = mapError (fun e => { e with kind := .cms }) (closeOpen fails) ⟨c, []⟩ :=
    if_neg (by rw [hopen]; decide)
  rcases closeOpen_run fails c with ⟨e, c', herror, hfails⟩ | ⟨first, c', hrun, hclosed, hadvisory, hfirst⟩
  · refine iff_of_false ?_ ?_
    · rintro ⟨-, -, htransport, -⟩
      rw [hclose, mapError_error herror] at htransport
      exact transport_not_mem c htransport
    · intro hsurvivable
      obtain ⟨step, hstep, hfail⟩ := hfails
      unfold advisorySteps at hstep
      split_ifs at hstep with hpresent
      · obtain ⟨hremove, hdispatcher⟩ := hsurvivable.advisory hpresent
        rcases mem_cons.mp hstep with rfl | hstep
        · rw [hremove] at hfail
          cases hfail
        · rw [mem_singleton.mp hstep, hdispatcher] at hfail
          cases hfail
      · cases hstep
  · have hresult : reported (close fails ⟨c, []⟩) = first.map Thrown.origin ∧ stateOf (close fails ⟨c, []⟩)
        = ⟨c', stepsBefore fails c ++ c.farewellSteps ++ [.transport]⟩ := by
      rw [hclose, mapError, hrun]
      cases first with
      | none => exact ⟨rfl, rfl⟩
      | some e => exact ⟨rfl, rfl⟩
    obtain ⟨hreported, hstate⟩ := hresult
    have hfind : (stepsBefore fails c ++ c.farewellSteps ++ [CleanupStep.transport]).find? fails
        = (((stepsBefore fails c).find? fails).or (c.farewellSteps.find? fails)).or
          ([CleanupStep.transport].find? fails) := by
      rw [List.find?_append, List.find?_append]
    have hsame := reported_iff fails ((stepsBefore fails c).find? fails) c
    rw [← hfirst, ← hfind, isSome_find_before hadvisory] at hsame
    unfold ClosesCompletely
    dsimp only
    rw [hreported, hstate]
    constructor
    · rintro ⟨hsessions, -, -, -, hfound, -⟩
      refine ⟨(sessions_iff c).mp hsessions, fun hpresent => ?_, hsame.mp hfound⟩
      rw [advisorySteps, if_pos hpresent] at hadvisory
      exact ⟨hadvisory _ (by simp), hadvisory _ (by simp)⟩
    · rintro ⟨hsessions, -, htransport⟩
      refine ⟨(sessions_iff c).mpr hsessions, fun hsent => ?_, by simp, hclosed, hsame.mpr htransport, ?_⟩
      · rw [farewellSteps, if_pos hsent]
        exact ⟨by simp, by simp⟩
      · exact fun _ _ => if_pos hclosed

def twoSessions : ClosingConnection := { activeSessions := [1, 2], distinct := by decide, advisoryClosed := some false }

theorem twoSessions_close : ClosesCompletely (fun step => step = .session 2 ∨ step = .removeInfo) twoSessions := by
  refine (closesCompletely_iff twoSessions rfl).mpr ⟨?_, fun _ => ⟨rfl, rfl⟩, fun htransport => absurd htransport (by decide)⟩
  intro before id after hsessions hfails
  have hsessions : [1, 2] = before ++ id :: after := hsessions
  rcases before with _ | ⟨first, _ | ⟨second, before⟩⟩
  · obtain ⟨rfl, -⟩ := List.cons.inj hsessions
    exact absurd hfails (by decide)
  · exact (List.cons.inj (List.cons.inj hsessions).2).2.symm
  · have hlength := congrArg List.length hsessions
    simp only [length_cons, length_append, length_nil] at hlength
    omega

/-- The first session throws: the second is left alone. -/
theorem twoSessions_not_closed : ¬ClosesCompletely (fun step => step = .session 1) twoSessions := by
  rintro ⟨hsessions, -⟩
  exact absurd (hsessions 2 (by decide)) (by decide)

end ClosingConnection

end ActiveMQCpp.Core
