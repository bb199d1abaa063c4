import ActiveMQCpp.CoreTransactionContext

/-! What a `start` or an `end` that throws leaves of the association. -/

namespace ActiveMQCpp.Core

open Codec State

namespace TransactionContext

open TransactionException

variable {κ σ : Type} {oracle : ContextOracle κ σ}

def association (c : TransactionContext κ σ) : Option Xid × Option (TransactionId κ) × List σ :=
  (c.associatedXid, c.transactionId, c.synchronizations)

theorem frames_call (called : ContextCall κ σ) : Frames association (call oracle called) := by
  intro c
  rw [call]
  cases oracle.fails c.calls called <;> rfl

theorem frames_notifyAll (callback : SynchronizationCallback) (syncs : List σ) :
    Frames association (notifyAll oracle callback syncs) := by
  induction syncs with
  | nil => exact frames_pure _
  | cons sync syncs ih => exact (frames_call _).bind fun _ => ih

theorem frames_beforeEnd : Frames association (beforeEnd oracle) := fun c => frames_notifyAll .beforeEnd c.synchronizations c

theorem frames_sendEnd (id : Option (TransactionId κ)) : Frames association (sendEnd oracle id) := by
  cases id with
  | none => exact frames_pure ()
  | some id => exact (frames_call _).mapError

/-- The association is removed when nothing can throw any more. -/
theorem guards_setXid_none : Guards association (setXid oracle none) := by
  apply (frames_call _).mapError.bind_guards
  intro _
  apply frames_get.bind_guards
  intro c
  exact (frames_sendEnd c.transactionId).bind_guards fun _ => guards_modify _

theorem guards_leave : Guards association (leave oracle) :=
  frames_beforeEnd.mapError.bind_guards fun _ => guards_setXid_none

theorem guards_end (xid : Option Xid) (flags : UInt32) : Guards association («end» oracle xid flags) := by
  apply frames_get.bind_guards
  intro c
  apply (frames_throwIf _ _).bind_guards
  intro _
  apply Guards.ite
  · exact (frames_throwIf _ _).bind_guards fun _ => guards_leave
  · apply Guards.ite
    · exact guards_leave.ite (frames_pure ()).guards
    · exact guards_throw _

/-! ### The start of an association -/

structure Startable (c : TransactionContext κ σ) (flags : UInt32) : Prop where
  notLocal : c.isInLocalTransaction = false
  notAssociated : c.associatedXid = none
  notJoin : flags &&& tmJoin ≠ tmJoin
  notResume : flags &&& tmResume ≠ tmResume

variable {c : TransactionContext κ σ} {flags : UInt32}

theorem start_run (h : Startable c flags) (xid : Option Xid) :
    start oracle xid flags c = setXid oracle xid { c with synchronizations := [] } := by
  have hassociated : c.associatedXid.isSome = false := by rw [h.notAssociated]; rfl
  rw [start, bind_ok (get_run c), bind_ok (throwIf_false h.notLocal), bind_ok (throwIf_false hassociated),
    bind_ok (throwIf_false (decide_eq_false h.notJoin)), bind_ok (throwIf_false (decide_eq_false h.notResume)),
    bind_ok (modify_run _ c)]

theorem start_refused (h : ¬ Startable c flags) (xid : Option Xid) : ∃ e, start oracle xid flags c = .error e c := by
  rw [start, bind_ok (get_run c)]
  cases hlocal : c.isInLocalTransaction with
  | true => exact ⟨_, bind_error (throwIf_true rfl)⟩
  | false =>
    rw [bind_ok (throwIf_false rfl)]
    cases hassociated : c.associatedXid.isSome with
    | true => exact ⟨_, bind_error (throwIf_true rfl)⟩
    | false =>
      rw [bind_ok (throwIf_false rfl)]
      by_cases hjoin : flags &&& tmJoin = tmJoin
      · exact ⟨_, bind_error (throwIf_true (decide_eq_true hjoin))⟩
      · rw [bind_ok (throwIf_false (decide_eq_false hjoin))]
        by_cases hresume : flags &&& tmResume = tmResume
        · exact ⟨_, bind_error (throwIf_true (decide_eq_true hresume))⟩
        · have hnone := Option.isNone_iff_eq_none.mp (Option.isSome_eq_false_iff.mp hassociated)
          exact absurd ⟨hlocal, hnone, hjoin, hresume⟩ h

theorem setXid_unusable {e : TransactionException} (h : oracle.fails c.calls .checkConnection = some e) (xid : Option Xid) :
    setXid oracle xid c = .error (toXAException e) { c with calls := c.calls ++ [.checkConnection] } := by
  cases xid with
  | none => rw [setXid, bind_error (mapError_error (call_error h))]
  | some xid => rw [setXid, bind_error (mapError_error (call_error h))]

theorem setXid_some (h : oracle.fails c.calls .checkConnection = none) (xid : Xid) :
    ∃ c', (setXid oracle (some xid) c = match oracle.fails (c.calls ++ [.checkConnection]) (.send .begin xid.transactionId) with
      | none => .ok () c'
      | some e => .error (toXAException e) c') ∧ c'.associatedXid = some xid := by
  rw [setXid, bind_ok (mapError_eq_ok.mpr (call_ok h)), bind_ok (modify_run _ _)]
  cases hsend : oracle.fails (c.calls ++ [.checkConnection]) (.send .begin xid.transactionId) with
  | none => exact ⟨_, mapError_eq_ok.mpr (call_ok (by exact hsend)), rfl⟩
  | some e => exact ⟨_, mapError_error (call_error (by exact hsend)), rfl⟩

/-- Without an `xid` the association is removed, after the command that ends it. -/
theorem setXid_none (h : oracle.fails c.calls .checkConnection = none) :
    returns (setXid oracle none c) = false ↔ ∃ id, c.transactionId = some id ∧
      oracle.fails (c.calls ++ [.checkConnection]) (.send .end id) ≠ none := by
  rw [setXid, bind_ok (mapError_eq_ok.mpr (call_ok h)), bind_ok (get_run _)]
  cases hid : c.transactionId with
  | none =>
    rw [sendEnd, bind_ok (pure_run _ _)]
    simp [returns]
  | some id =>
    rw [sendEnd]
    cases hsend : oracle.fails (c.calls ++ [.checkConnection]) (.send .end id) with
    | none =>
      rw [bind_ok (mapError_eq_ok.mpr (call_ok (by exact hsend)))]
      simp [returns, hsend]
    | some e =>
      rw [bind_error (mapError_error (call_error (by exact hsend)))]
      simp [returns, hsend]

/-! ### The claim on both calls -/

inductive AssociationCall where
  | start (xid : Option Xid) (flags : UInt32)
  | end (xid : Option Xid) (flags : UInt32)

def AssociationCall.run (oracle : ContextOracle κ σ) : AssociationCall → Action κ σ Unit
  | .start xid flags => TransactionContext.start oracle xid flags
  | .end xid flags => TransactionContext.end oracle xid flags

structure SameAssociation (c c' : TransactionContext κ σ) : Prop where
  associatedXid : c'.associatedXid = c.associatedXid
  transactionId : c'.transactionId = c.transactionId
  isInXATransaction : c'.isInXATransaction = c.isInXATransaction
  synchronizations : c'.synchronizations = c.synchronizations

/-- A call that throws leaves everything as it was. -/
def Atomic (oracle : ContextOracle κ σ) (called : AssociationCall) (c : TransactionContext κ σ) : Prop :=
  returns (called.run oracle c) = false → SameAssociation c (stateOf (called.run oracle c))

/-- A `start` that passes its checks sends its command without an exception, and where it may throw before it there are no
synchronizations to lose. -/
def StartsSafely (oracle : ContextOracle κ σ) (c : TransactionContext κ σ) : AssociationCall → Prop
  | .end _ _ => True
  | .start xid flags => Startable c flags →
      (oracle.fails c.calls .checkConnection ≠ none → c.synchronizations = []) ∧
      (oracle.fails c.calls .checkConnection = none →
        (∀ x ∈ xid, oracle.fails (c.calls ++ [.checkConnection]) (.send .begin x.transactionId) = none) ∧
        (xid = none → ∀ id ∈ c.transactionId,
          oracle.fails (c.calls ++ [.checkConnection]) (.send .end id) ≠ none → c.synchronizations = []))

theorem sameAssociation_iff {c' : TransactionContext κ σ} :
    SameAssociation c c' ↔ association c' = association c := by
  constructor
  · rintro ⟨hxid, hid, -, hsyncs⟩
    rw [association, association, hxid, hid, hsyncs]
  · intro h
    obtain ⟨hxid, hrest⟩ := Prod.mk.inj h
    obtain ⟨hid, hsyncs⟩ := Prod.mk.inj hrest
    exact ⟨hxid, hid, by rw [isInXATransaction, isInXATransaction, hid], hsyncs⟩

theorem same_of_emptied {m : Action κ σ Unit} (hguards : Guards association m)
    (hthrows : returns (m { c with synchronizations := [] }) = false) :
    SameAssociation c (stateOf (m { c with synchronizations := [] })) ↔ c.synchronizations = [] := by
  rw [sameAssociation_iff, hguards _ hthrows]
  constructor
  · intro h
    exact (Prod.mk.inj (Prod.mk.inj h).2).2.symm
  · intro h
    rw [association, association, h]

theorem atomic_start_iff (xid : Option Xid) (h : Startable c flags) :
    Atomic oracle (.start xid flags) c ↔ StartsSafely oracle c (.start xid flags) := by
  rw [Atomic, AssociationCall.run, start_run h, StartsSafely, imp_iff_right h]
  cases hcheck : oracle.fails c.calls .checkConnection with
  | some e =>
    have hrun := setXid_unusable (c := { c with synchronizations := [] }) hcheck xid
    rw [hrun, returns, stateOf, imp_iff_right rfl]
    constructor
    · intro hsame
      exact ⟨fun _ => hsame.synchronizations.symm, nofun⟩
    · rintro ⟨hempty, -⟩
      exact ⟨rfl, rfl, rfl, (hempty (Option.some_ne_none e)).symm⟩
  | none =>
    rw [imp_iff_right rfl]
    cases xid with
    | some x =>
      obtain ⟨c', hrun, hassociated⟩ := setXid_some (c := { c with synchronizations := [] }) hcheck x
      rw [hrun]
      cases hsend : oracle.fails (c.calls ++ [.checkConnection]) (.send .begin x.transactionId) with
      | none =>
        refine iff_of_true nofun ⟨fun hne => absurd rfl hne, fun x' hx' => ?_, nofun⟩
        cases Option.mem_some.mp hx'
        exact hsend
      | some e =>
        constructor
        · intro hsame
          have hkept := (hsame rfl).associatedXid
          rw [stateOf, hassociated, h.notAssociated] at hkept
          cases hkept
        · rintro ⟨-, hsent, -⟩
          rw [hsent x rfl] at hsend
          cases hsend
    | none =>
      have hends := setXid_none (c := { c with synchronizations := [] }) hcheck
      constructor
      · intro hatomic
        refine ⟨fun hne => absurd rfl hne, nofun, fun _ id hid hfails => ?_⟩
        have hthrows := hends.mpr ⟨id, hid, hfails⟩
        exact (same_of_emptied guards_setXid_none hthrows).mp (hatomic hthrows)
      · rintro ⟨-, -, hempty⟩ hthrows
        obtain ⟨id, hid, hfails⟩ := hends.mp hthrows
        exact (same_of_emptied guards_setXid_none hthrows).mpr (hempty rfl id hid hfails)

theorem association_atomic_iff (oracle : ContextOracle κ σ) (called : AssociationCall) (c : TransactionContext κ σ) :
    Atomic oracle called c ↔ StartsSafely oracle c called := by
  cases called with
  | «end» xid flags => exact iff_of_true (fun hthrows => sameAssociation_iff.mpr (guards_end xid flags c hthrows)) trivial
  | start xid flags =>
    by_cases h : Startable c flags
    · exact atomic_start_iff xid h
    · refine iff_of_true (fun _ => ?_) fun hstartable => absurd hstartable h
      obtain ⟨e, hrun⟩ : ∃ e, start oracle xid flags c = .error e c := start_refused h xid
      rw [AssociationCall.run, hrun]
      exact ⟨rfl, rfl, rfl, rfl⟩

/-- The first command of a new association fails, and the association stays. -/
theorem association_kept :
    ¬ Atomic (κ := Nat) (σ := Nat)
      { fails := fun _ called => if called matches .send .begin _ then some .activemq else none, readOnly := fun _ => false }
      (.start (some { formatId := 1, globalTransactionId := [1], branchQualifier := [2] }) 0) { connectionId := 1 } := by
  intro hatomic
  exact absurd (hatomic rfl).associatedXid (by decide)

end TransactionContext

end ActiveMQCpp.Core
