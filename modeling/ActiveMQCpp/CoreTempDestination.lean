import Mathlib.Data.String.Basic
import ActiveMQCpp.DecafStlMap
import ActiveMQCpp.LibStream

/-! `ActiveMQConnection::deleteTempDestination`: the read lock of the sessions and the registration of the destination,
on every path. -/

namespace ActiveMQCpp.Core

open Codec Decaf

inductive ConnectionRequest where
  | connectionInfo
  | advisoryConsumer
  | removeDestination (physicalName : String)
  deriving DecidableEq

inductive DeletionException where
  | nullPointerException
  | closedOrFailed
  | refused (request : ConnectionRequest)
  | consumerUsesDestination
  | illegalMonitorStateException
  deriving DecidableEq

/-- A destination is given by its physical name, which `equals` and the comparator of the map compare. A session is
given by the destinations of its consumers. `readHolds` counts the holds of the calling thread on the read lock of the
sessions, `locks` and `unlocks` the calls. -/
structure DeletingConnection where
  closed : Bool := false
  transportFailed : Bool := false
  isConnectionInfoSentToBroker : Bool := true
  watchTopicAdvisories : Bool := true
  activeSessions : List (List String) := []
  activeTempDestinations : StlMap String String := {}
  readHolds : Nat := 0
  locks : Nat := 0
  unlocks : Nat := 0

namespace DeletingConnection

abbrev Deletion (α : Type) : Type := EStateM DeletionException DeletingConnection α

def checkClosedOrFailed : Deletion Unit := fun c =>
  if c.closed || c.transportFailed then .error .closedOrFailed c else .ok () c

def readLock : Deletion Unit := fun c => .ok () { c with readHolds := c.readHolds + 1, locks := c.locks + 1 }

/-- A thread that does not hold the lock cannot release it. -/
def readUnlock : Deletion Unit := fun c =>
  if c.readHolds = 0 then .error .illegalMonitorStateException { c with unlocks := c.unlocks + 1 }
  else .ok () { c with readHolds := c.readHolds - 1, unlocks := c.unlocks + 1 }

/-- `accepts` says which requests are answered, and by no exception. -/
def syncRequest (accepts : ConnectionRequest → Bool) (request : ConnectionRequest) : Deletion Unit := do
  checkClosedOrFailed
  if accepts request then pure () else throw (.refused request)

def ensureConnectionInfoSent (accepts : ConnectionRequest → Bool) : Deletion Unit := fun c =>
  if c.isConnectionInfoSentToBroker || c.closed then .ok () c
  else
    (do
      syncRequest accepts .connectionInfo
      modify fun c => { c with isConnectionInfoSentToBroker := true }
      if c.watchTopicAdvisories then syncRequest accepts .advisoryConsumer : Deletion Unit) c

def isInUse (session : List String) (destination : String) : Bool := session.contains destination

/-- The body of the `try` that looks at the sessions. -/
def refuseInUse (destination : String) : List (List String) → Deletion Unit
  | [] => readUnlock
  | session :: sessions =>
    if isInUse session destination then do
      readUnlock
      throw .consumerUsesDestination
    else refuseInUse destination sessions

/-- `remove` of a key that is not there returns. -/
def removeTempDestination (destination : String) : Deletion Unit :=
  modify fun c => { c with activeTempDestinations :=
    if c.activeTempDestinations.containsKey destination then c.activeTempDestinations.erase destination
    else c.activeTempDestinations }

def deleteTempDestination (accepts : ConnectionRequest → Bool) : Option String → Deletion Unit
  | none => throw .nullPointerException
  | some destination => do
    checkClosedOrFailed
    ensureConnectionInfoSent accepts
    readLock
    let sessions := (← get).activeSessions
    tryCatch (refuseInUse destination sessions) fun ex => do
      readUnlock
      throw ex
    removeTempDestination destination
    syncRequest accepts (.removeDestination destination)

def isRegistered (c : DeletingConnection) (destination : String) : Bool := c.activeTempDestinations.containsKey destination

def usedBySession (c : DeletingConnection) (destination : String) : Bool := c.activeSessions.any (isInUse · destination)

/-- The call comes to the sessions: the connection is usable and the broker knows of it in the end. -/
def ReachesSessions (accepts : ConnectionRequest → Bool) (c : DeletingConnection) : Prop :=
  c.closed = false ∧ c.transportFailed = false ∧
    (c.isConnectionInfoSentToBroker = false → accepts .connectionInfo = true ∧
      (c.watchTopicAdvisories = true → accepts .advisoryConsumer = true))

/-- Nothing that the sessions and the temporary destinations depend on has changed. -/
structure SameSessions (c c' : DeletingConnection) : Prop where
  closed : c'.closed = c.closed
  transportFailed : c'.transportFailed = c.transportFailed
  activeSessions : c'.activeSessions = c.activeSessions
  activeTempDestinations : c'.activeTempDestinations = c.activeTempDestinations
  readHolds : c'.readHolds = c.readHolds
  locks : c'.locks = c.locks
  unlocks : c'.unlocks = c.unlocks

theorem SameSessions.refl (c : DeletingConnection) : SameSessions c c := ⟨rfl, rfl, rfl, rfl, rfl, rfl, rfl⟩

section

variable {accepts : ConnectionRequest → Bool} {c : DeletingConnection}
variable {destination : Option String}

theorem checkClosedOrFailed_ok (hopen : c.closed = false) (hworks : c.transportFailed = false) :
    checkClosedOrFailed c = .ok () c := by
  rw [checkClosedOrFailed, hopen, hworks]
  rfl

theorem checkClosedOrFailed_error (h : ¬ (c.closed = false ∧ c.transportFailed = false)) :
    checkClosedOrFailed c = .error .closedOrFailed c := by
  rw [checkClosedOrFailed, if_pos]
  cases hclosed : c.closed with
  | true => rfl
  | false =>
    cases hfailed : c.transportFailed with
    | true => rfl
    | false => exact absurd ⟨hclosed, hfailed⟩ h

theorem syncRequest_run (hopen : c.closed = false) (hworks : c.transportFailed = false) (request : ConnectionRequest) :
    syncRequest accepts request c = if accepts request then .ok () c else .error (.refused request) c := by
  rw [syncRequest, bind_ok (checkClosedOrFailed_ok hopen hworks)]
  cases accepts request <;> rfl

theorem ensureConnectionInfoSent_unsent (hsent : c.isConnectionInfoSentToBroker = false) (hopen : c.closed = false)
    (hworks : c.transportFailed = false) :
    ensureConnectionInfoSent accepts c =
      if accepts .connectionInfo then
        if c.watchTopicAdvisories then
          syncRequest accepts .advisoryConsumer { c with isConnectionInfoSentToBroker := true }
        else .ok () { c with isConnectionInfoSentToBroker := true }
      else .error (.refused .connectionInfo) c := by
  have hrequest : syncRequest accepts .connectionInfo c = _ := syncRequest_run hopen hworks .connectionInfo
  have hneeded : ¬ (c.isConnectionInfoSentToBroker || c.closed) = true := by
    rw [hsent, hopen]
    decide
  rw [ensureConnectionInfoSent, if_neg hneeded]
  by_cases hconnection : accepts .connectionInfo = true
  · rw [if_pos hconnection] at hrequest ⊢
    rw [bind_ok hrequest, bind_ok (modify_run _ _)]
    split_ifs <;> rfl
  · rw [if_neg hconnection] at hrequest ⊢
    exact bind_error hrequest

theorem ensureConnectionInfoSent_ok (hreach : ReachesSessions accepts c) :
    ∃ c', ensureConnectionInfoSent accepts c = .ok () c' ∧ SameSessions c c' := by
  obtain ⟨hopen, hworks, hinfo⟩ := hreach
  cases hsent : c.isConnectionInfoSentToBroker with
  | true => exact ⟨c, by rw [ensureConnectionInfoSent, hsent]; rfl, .refl c⟩
  | false =>
    obtain ⟨hconnection, hadvisory⟩ := hinfo hsent
    refine ⟨{ c with isConnectionInfoSentToBroker := true }, ?_, ⟨rfl, rfl, rfl, rfl, rfl, rfl, rfl⟩⟩
    rw [ensureConnectionInfoSent_unsent hsent hopen hworks, if_pos hconnection]
    by_cases hwatch : c.watchTopicAdvisories = true
    · rw [if_pos hwatch, syncRequest_run (by exact hopen) (by exact hworks), if_pos (hadvisory hwatch)]
    · rw [if_neg hwatch]

theorem ensureConnectionInfoSent_error (hopen : c.closed = false) (hworks : c.transportFailed = false)
    (hreach : ¬ ReachesSessions accepts c) :
    ∃ ex c', ensureConnectionInfoSent accepts c = .error ex c' ∧ SameSessions c c' := by
  have hsent : c.isConnectionInfoSentToBroker = false := by
    cases hsent : c.isConnectionInfoSentToBroker with
    | false => rfl
    | true => exact absurd ⟨hopen, hworks, fun h => by rw [hsent] at h; cases h⟩ hreach
  rw [ensureConnectionInfoSent_unsent hsent hopen hworks]
  by_cases hconnection : accepts .connectionInfo = true
  · have hrefused : ¬ (c.watchTopicAdvisories = true → accepts .advisoryConsumer = true) := fun hadvisory =>
      hreach ⟨hopen, hworks, fun _ => ⟨hconnection, hadvisory⟩⟩
    obtain ⟨hwatch, hadvisory⟩ := Classical.not_imp.mp hrefused
    refine ⟨.refused .advisoryConsumer, { c with isConnectionInfoSentToBroker := true }, ?_, ⟨rfl, rfl, rfl, rfl, rfl, rfl, rfl⟩⟩
    rw [if_pos hconnection, if_pos hwatch, syncRequest_run (by exact hopen) (by exact hworks), if_neg hadvisory]
  · exact ⟨.refused .connectionInfo, c, if_neg hconnection, .refl c⟩

/-- The sessions are searched while the lock is held, and the lock is released once on either way out. -/
theorem refuseInUse_run (destination : String) (sessions : List (List String)) (hheld : c.readHolds ≠ 0) :
    refuseInUse destination sessions c =
      if sessions.any (isInUse · destination) then
        .error .consumerUsesDestination { c with readHolds := c.readHolds - 1, unlocks := c.unlocks + 1 }
      else .ok () { c with readHolds := c.readHolds - 1, unlocks := c.unlocks + 1 } := by
  have hunlock : readUnlock c = .ok () { c with readHolds := c.readHolds - 1, unlocks := c.unlocks + 1 } := if_neg hheld
  induction sessions with
  | nil => exact hunlock
  | cons session sessions ih =>
    rw [refuseInUse, List.any_cons]
    cases isInUse session destination with
    | true =>
      rw [if_pos rfl, Bool.true_or, if_pos rfl, bind_ok hunlock]
      rfl
    | false =>
      rw [if_neg Bool.false_ne_true, Bool.false_or]
      exact ih

/-! ### The paths of the call -/

theorem delete_before (h : destination = none ∨ ¬ ReachesSessions accepts c) :
    ∃ ex c', deleteTempDestination accepts destination c = .error ex c' ∧ SameSessions c c' := by
  cases destination with
  | none => exact ⟨_, c, rfl, .refl c⟩
  | some destination =>
    have hreach := h.resolve_left (Option.some_ne_none destination)
    rw [deleteTempDestination]
    by_cases husable : c.closed = false ∧ c.transportFailed = false
    · rw [bind_ok (checkClosedOrFailed_ok husable.1 husable.2)]
      obtain ⟨ex, c', hrun, hsame⟩ := ensureConnectionInfoSent_error husable.1 husable.2 hreach
      exact ⟨ex, c', bind_error hrun, hsame⟩
    · exact ⟨_, c, bind_error (checkClosedOrFailed_error husable), .refl c⟩

/-- What follows `lock`. -/
def afterLock (accepts : ConnectionRequest → Bool) (destination : String) (sessions : List (List String)) :
    Deletion Unit := do
  tryCatch (refuseInUse destination sessions) fun ex => do
    readUnlock
    throw ex
  removeTempDestination destination
  syncRequest accepts (.removeDestination destination)

theorem delete_locked (destination : String) (hreach : ReachesSessions accepts c) :
    ∃ c₁, SameSessions c c₁ ∧ deleteTempDestination accepts (some destination) c =
      afterLock accepts destination c.activeSessions { c₁ with readHolds := c₁.readHolds + 1, locks := c₁.locks + 1 } := by
  obtain ⟨c₁, hensure, hsame⟩ := ensureConnectionInfoSent_ok hreach
  have hlock : readLock c₁ = .ok () { c₁ with readHolds := c₁.readHolds + 1, locks := c₁.locks + 1 } := rfl
  refine ⟨c₁, hsame, ?_⟩
  rw [deleteTempDestination, bind_ok (checkClosedOrFailed_ok hreach.1 hreach.2.1), bind_ok hensure, bind_ok hlock,
    bind_ok (get_run _), ← hsame.activeSessions]
  rfl

/-- The second `unlock` finds the lock released, or gives up a hold that the caller still has. -/
theorem delete_inUse {destination : String} (hreach : ReachesSessions accepts c)
    (hused : c.usedBySession destination = true) :
    ∃ c', deleteTempDestination accepts (some destination) c =
        .error (if c.readHolds = 0 then .illegalMonitorStateException else .consumerUsesDestination) c' ∧
      c'.locks = c.locks + 1 ∧ c'.unlocks = c.unlocks + 2 ∧ c'.readHolds = c.readHolds - 1 ∧
      c'.activeTempDestinations = c.activeTempDestinations := by
  obtain ⟨c₁, hsame, hrun⟩ := delete_locked destination hreach
  have hscan := refuseInUse_run (c := { c₁ with readHolds := c₁.readHolds + 1, locks := c₁.locks + 1 }) destination
    c.activeSessions (Nat.succ_ne_zero _)
  rw [if_pos (by exact hused)] at hscan
  by_cases hheld : c.readHolds = 0
  · have hthrows : afterLock accepts destination c.activeSessions
        { c₁ with readHolds := c₁.readHolds + 1, locks := c₁.locks + 1 } =
        .error .illegalMonitorStateException { c₁ with locks := c₁.locks + 1, unlocks := c₁.unlocks + 1 + 1 } := by
      apply bind_error
      rw [tryCatch_error hscan]
      apply bind_error
      rw [readUnlock, if_pos (by rw [hsame.readHolds]; exact hheld)]
      rfl
    rw [if_pos hheld, hrun, hthrows]
    exact ⟨_, rfl, congrArg (· + 1) hsame.locks, congrArg (· + 2) hsame.unlocks, by rw [hsame.readHolds, hheld],
      hsame.activeTempDestinations⟩
  · have hunlock : readUnlock { c₁ with locks := c₁.locks + 1, unlocks := c₁.unlocks + 1 } =
        .ok () { c₁ with readHolds := c₁.readHolds - 1, locks := c₁.locks + 1, unlocks := c₁.unlocks + 1 + 1 } :=
      if_neg (by rw [hsame.readHolds]; exact hheld)
    have hthrows : afterLock accepts destination c.activeSessions
        { c₁ with readHolds := c₁.readHolds + 1, locks := c₁.locks + 1 } =
        .error .consumerUsesDestination
          { c₁ with readHolds := c₁.readHolds - 1, locks := c₁.locks + 1, unlocks := c₁.unlocks + 1 + 1 } := by
      apply bind_error
      rw [tryCatch_error hscan]
      exact bind_ok hunlock
    rw [if_neg hheld, hrun, hthrows]
    exact ⟨_, rfl, congrArg (· + 1) hsame.locks, congrArg (· + 2) hsame.unlocks, congrArg (· - 1) hsame.readHolds,
      hsame.activeTempDestinations⟩

theorem delete_unused {destination : String} (hreach : ReachesSessions accepts c)
    (hused : c.usedBySession destination = false) :
    ∃ c', deleteTempDestination accepts (some destination) c =
        (if accepts (.removeDestination destination) then .ok () c'
          else .error (.refused (.removeDestination destination)) c') ∧
      c'.locks = c.locks + 1 ∧ c'.unlocks = c.unlocks + 1 ∧ c'.readHolds = c.readHolds ∧
      c'.isRegistered destination = false := by
  obtain ⟨c₁, hsame, hrun⟩ := delete_locked destination hreach
  have hscan := refuseInUse_run (c := { c₁ with readHolds := c₁.readHolds + 1, locks := c₁.locks + 1 }) destination
    c.activeSessions (Nat.succ_ne_zero _)
  rw [if_neg (by rw [Bool.not_eq_true]; exact hused)] at hscan
  have hopen : c₁.closed = false := hsame.closed.trans hreach.1
  have hworks : c₁.transportFailed = false := hsame.transportFailed.trans hreach.2.1
  rw [hrun, afterLock, bind_ok (tryCatch_ok hscan), removeTempDestination, bind_ok (modify_run _ _),
    syncRequest_run (by exact hopen) (by exact hworks)]
  refine ⟨_, rfl, congrArg (· + 1) hsame.locks, congrArg (· + 1) hsame.unlocks, hsame.readHolds, ?_⟩
  rw [isRegistered]
  by_cases hthere : c₁.activeTempDestinations.containsKey destination = true
  · rw [if_pos (by exact hthere), StlMap.containsKey, StlMap.erase, OrderedMap.find_erase]
    simp
  · rw [if_neg (by exact hthere)]
    exact eq_false_of_ne_true hthere

/-! ### The claim on every path -/

/-- The lock is released as often as it is taken, and a call that throws leaves the destination registered. -/
structure DeletesCleanly (accepts : ConnectionRequest → Bool) (destination : Option String) (c : DeletingConnection) :
    Prop where
  balanced : (stateOf (deleteTempDestination accepts destination c)).unlocks + c.locks =
    c.unlocks + (stateOf (deleteTempDestination accepts destination c)).locks
  kept : returns (deleteTempDestination accepts destination c) = false → ∀ name ∈ destination,
    c.isRegistered name = true → (stateOf (deleteTempDestination accepts destination c)).isRegistered name = true

/-- A call that comes to the sessions finds none that uses the destination, and the broker accepts the removal of a
destination that is registered. -/
def Removable (accepts : ConnectionRequest → Bool) (destination : Option String) (c : DeletingConnection) : Prop :=
  ∀ name ∈ destination, ReachesSessions accepts c →
    c.usedBySession name = false ∧ (c.isRegistered name = true → accepts (.removeDestination name) = true)

theorem deletesCleanly_before (h : destination = none ∨ ¬ ReachesSessions accepts c) :
    DeletesCleanly accepts destination c := by
  obtain ⟨ex, c', hrun, hsame⟩ := delete_before h
  constructor
  · rw [hrun, stateOf, hsame.locks, hsame.unlocks]
  · intro _ name _ hregistered
    rw [hrun, stateOf, isRegistered, hsame.activeTempDestinations]
    exact hregistered

theorem deletesCleanly_iff (accepts : ConnectionRequest → Bool) (destination : Option String) (c : DeletingConnection) :
    DeletesCleanly accepts destination c ↔ Removable accepts destination c := by
  constructor
  · rintro ⟨hbalanced, hkept⟩ name hname hreach
    rw [Option.mem_def.mp hname] at hbalanced hkept
    have hused : c.usedBySession name = false := by
      by_contra hused
      obtain ⟨c', hrun, hlocks, hunlocks, -⟩ := delete_inUse hreach (Bool.of_not_eq_false hused)
      rw [hrun, stateOf, hlocks, hunlocks] at hbalanced
      omega
    refine ⟨hused, fun hregistered => ?_⟩
    obtain ⟨c', hrun, -, -, -, hgone⟩ := delete_unused hreach hused
    by_contra hrefused
    rw [hrun, if_neg hrefused] at hkept
    have hstill := hkept rfl name rfl hregistered
    rw [stateOf, hgone] at hstill
    cases hstill
  · intro hremovable
    cases destination with
    | none => exact deletesCleanly_before (.inl rfl)
    | some name =>
      by_cases hreach : ReachesSessions accepts c
      · obtain ⟨hused, haccepted⟩ := hremovable name rfl hreach
        obtain ⟨c', hrun, hlocks, hunlocks, -⟩ := delete_unused hreach hused
        constructor
        · rw [hrun]
          split_ifs
          · rw [stateOf, hlocks, hunlocks]
            omega
          · rw [stateOf, hlocks, hunlocks]
            omega
        · intro hthrows name' hname' hregistered
          cases Option.mem_some.mp hname'
          rw [hrun, if_pos (haccepted hregistered)] at hthrows
          cases hthrows
      · exact deletesCleanly_before (.inr hreach)

/-- One session has a consumer on the destination, and the lock is released twice. -/
theorem deletion_unbalanced : ¬ DeletesCleanly (fun _ => true) (some "ID:1:1:1")
    { activeSessions := [["ID:1:1:1"]], activeTempDestinations := StlMap.put "ID:1:1:1" "ID:1:1:1" {} } := by
  rintro ⟨hbalanced, -⟩
  exact absurd hbalanced (by decide)

end

end DeletingConnection

end ActiveMQCpp.Core
