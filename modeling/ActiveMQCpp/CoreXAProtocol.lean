import ActiveMQCpp.CoreXAAssociation
import ActiveMQCpp.LibRuns

/-! The order of the commands that the XA methods send for one `Xid`. Several transactions may be interleaved, so that
only `BEGIN` and `END` are tied to the association. -/

namespace ActiveMQCpp.Core

open Codec Runs State

/-- The commands for one `Xid`: `true` between its `BEGIN` and its `END`. -/
def nextCommand : Bool → TransactionType → Option Bool
  | false, .begin => some true
  | true, .end => some false
  | false, .prepare | false, .commitOnePhase | false, .commitTwoPhase => some false
  | started, .rollback | started, .forget => some started
  | _, _ => none

/-- The commands can be sent in this order. -/
def InOrder (types : List TransactionType) : Prop := (types.foldlM nextCommand false).isSome = true

/-- The id of the transaction of an `Xid`. -/
def Xid.identifies {κ : Type} (xid : Xid) : TransactionId κ → Bool
  | .xa formatId globalTransactionId branchQualifier =>
    formatId = xid.formatId && globalTransactionId = xid.globalTransactionId && branchQualifier = xid.branchQualifier
  | .local _ => false

theorem Xid.identifies_transactionId {κ : Type} {xid xid' : Xid} :
    xid.identifies (xid'.transactionId : TransactionId κ) = true ↔ xid' = xid := by
  rw [transactionId, identifies, Bool.and_eq_true, Bool.and_eq_true, decide_eq_true_iff, decide_eq_true_iff,
    decide_eq_true_iff]
  constructor
  · rintro ⟨⟨hformat, hgtrid⟩, hbqual⟩
    cases xid
    cases xid'
    cases hformat
    cases hgtrid
    cases hbqual
    rfl
  · rintro rfl
    exact ⟨⟨rfl, rfl⟩, rfl⟩

theorem xidEquals_refl (xid : Xid) : xidEquals (some xid) (some xid) = true := by
  simp [xidEquals]

/-! ### What an XA resource may do -/

/-- An association, and the commands sent for one `Xid`. -/
structure Association (κ : Type) where
  associatedXid : Option Xid := none
  transactionId : Option (TransactionId κ) := none
  sent : List TransactionType := []

namespace Association

variable {κ : Type}

/-- A command counts if it is for the `Xid`. -/
def send (xid : Xid) (type : TransactionType) (id : TransactionId κ) (a : Association κ) : Association κ :=
  { a with sent := if xid.identifies id then a.sent ++ [type] else a.sent }

/-- A call that is accepted: a resource begins one transaction at a time, and ends it before it starts another; the
commands that settle a transaction are sent for others only, and those that give one up at any time. -/
inductive Step (xid : Xid) (a : Association κ) : Association κ → Prop where
  | idle : Step xid a a
  | start (started : Xid) (h : a.associatedXid = none) :
      Step xid a (send xid .begin started.transactionId ⟨some started, some started.transactionId, a.sent⟩)
  | release (h : a.transactionId = none) : Step xid a ⟨none, none, a.sent⟩
  | finish (id : TransactionId κ) (h : a.transactionId = some id) : Step xid a (send xid .end id ⟨none, none, a.sent⟩)
  | settle (settled : Xid) (h : xidEquals a.associatedXid (some settled) = false) (type : TransactionType)
      (htype : type = .prepare ∨ type = .commitOnePhase ∨ type = .commitTwoPhase) :
      Step xid a (a.send xid type settled.transactionId)
  | giveUp (id : TransactionId κ) (type : TransactionType) (htype : type = .rollback ∨ type = .forget) :
      Step xid a (a.send xid type id)

/-- The id is that of the associated `Xid`, and the commands were sent in order. -/
structure Ordered (xid : Xid) (a : Association κ) : Prop where
  linked : a.transactionId = a.associatedXid.map Xid.transactionId
  order : a.sent.foldlM nextCommand false = some (a.transactionId.any xid.identifies)

variable {xid : Xid} {a a' : Association κ}

theorem send_order {started started' : Bool} {type : TransactionType} {id : TransactionId κ}
    (horder : a.sent.foldlM nextCommand false = some started)
    (hsent : xid.identifies id = true → nextCommand started type = some started')
    (hother : xid.identifies id = false → started' = started) :
    (a.send xid type id).sent.foldlM nextCommand false = some started' := by
  rw [send]
  cases hid : xid.identifies id with
  | true =>
    rw [if_pos rfl, List.foldlM_append, horder]
    simp [hsent hid]
  | false => rw [if_neg Bool.false_ne_true, horder, hother hid]

theorem ordered_step (h : Ordered xid a) (hstep : Step xid a a') : Ordered xid a' := by
  cases hstep with
  | idle => exact h
  | start started hnone =>
    refine ⟨rfl, send_order (a := ⟨some started, some started.transactionId, a.sent⟩) h.order ?_ ?_⟩
    · intro hid
      rw [h.linked, hnone]
      simp [send, hid, nextCommand]
    · intro hid
      rw [h.linked, hnone]
      simp [send, hid]
  | release hnone =>
    refine ⟨rfl, ?_⟩
    have horder := h.order
    rw [hnone] at horder
    exact horder
  | finish id hid =>
    refine ⟨rfl, send_order (a := ⟨none, none, a.sent⟩) h.order ?_ ?_⟩
    · intro hxid
      rw [hid]
      simp [send, hxid, nextCommand]
    · intro hxid
      rw [hid]
      simp [send, hxid]
  | settle settled hother type htype =>
    refine ⟨h.linked, send_order h.order ?_ fun _ => rfl⟩
    intro hid
    have hnot : a.transactionId.any xid.identifies = false := by
      rw [h.linked]
      cases hassociated : a.associatedXid with
      | none => rfl
      | some associated =>
        rw [Option.map_some, Option.any_some, ← Bool.not_eq_true, Xid.identifies_transactionId]
        intro heq
        rw [hassociated, heq, Xid.identifies_transactionId.mp hid, xidEquals_refl] at hother
        cases hother
    show nextCommand (a.transactionId.any xid.identifies) type = some (a.transactionId.any xid.identifies)
    rw [hnot]
    rcases htype with rfl | rfl | rfl <;> rfl
  | giveUp id type htype =>
    refine ⟨h.linked, send_order h.order ?_ fun _ => rfl⟩
    intro _
    show nextCommand (a.transactionId.any xid.identifies) type = some (a.transactionId.any xid.identifies)
    rcases htype with rfl | rfl <;> cases a.transactionId.any xid.identifies <;> rfl

end Association

/-! ### What the context does -/

namespace TransactionContext

open TransactionException Association

variable {κ σ : Type} {oracle : ContextOracle κ σ} {c c' : TransactionContext κ σ} {id : TransactionId κ} {u : Unit}
variable {xid : Xid}

def sentFor (xid : Xid) : ContextCall κ σ → Option TransactionType
  | .send type id => if xid.identifies id then some type else none
  | .checkConnection | .notify _ _ => none

def commands (xid : Xid) (calls : List (ContextCall κ σ)) : List TransactionType := calls.filterMap (sentFor xid)

/-- The association of a context with the commands that it has sent for an `Xid`. -/
def view (xid : Xid) (c : TransactionContext κ σ) : Association κ :=
  ⟨c.associatedXid, c.transactionId, commands xid c.calls⟩

theorem commands_append (xid : Xid) (calls calls' : List (ContextCall κ σ)) :
    commands xid (calls ++ calls') = commands xid calls ++ commands xid calls' := List.filterMap_append

theorem view_send (xid : Xid) (type : TransactionType) (id : TransactionId κ) (c : TransactionContext κ σ) :
    view xid { c with calls := c.calls ++ [.send type id] } = (view xid c).send xid type id := by
  rw [view, commands_append, Association.send, view]
  cases hid : xid.identifies id with
  | true =>
    have hsent : commands (σ := σ) xid [.send type id] = [type] := by simp [commands, sentFor, hid]
    rw [hsent, if_pos rfl]
  | false =>
    have hsent : commands (σ := σ) xid [.send type id] = [] := by simp [commands, sentFor, hid]
    rw [hsent, List.append_nil, if_neg Bool.false_ne_true]

theorem call_eq_ok {called : ContextCall κ σ} (h : call oracle called c = .ok u c') :
    c' = { c with calls := c.calls ++ [called] } := by
  rw [call] at h
  split at h <;> cases h
  rfl

theorem frames_checkConnection (xid : Xid) : Frames (view xid) (call oracle .checkConnection) := by
  intro c
  have hview : view xid { c with calls := c.calls ++ [.checkConnection] } = view xid c := by
    rw [view, commands_append]
    exact congrArg (Association.mk _ _) (List.append_nil _)
  rw [call]
  cases oracle.fails c.calls .checkConnection <;> exact hview

theorem frames_notify (xid : Xid) (callback : SynchronizationCallback) (sync : σ) :
    Frames (view xid) (call oracle (.notify callback sync)) := by
  intro c
  have hview : view xid { c with calls := c.calls ++ [.notify callback sync] } = view xid c := by
    rw [view, commands_append]
    exact congrArg (Association.mk _ _) (List.append_nil _)
  rw [call]
  cases oracle.fails c.calls (.notify callback sync) <;> exact hview

theorem frames_view_notifyAll (xid : Xid) (callback : SynchronizationCallback) (syncs : List σ) :
    Frames (view xid) (notifyAll oracle callback syncs) := by
  induction syncs with
  | nil => exact frames_pure _
  | cons sync syncs ih => exact (frames_notify xid callback sync).bind fun _ => ih

theorem frames_afterAll (xid : Xid) (callback : SynchronizationCallback) : Frames (view xid) (afterAll oracle callback) := by
  intro c
  have hframes : view xid (stateOf (notifyAll oracle callback c.synchronizations c)) = view xid c :=
    frames_view_notifyAll xid callback c.synchronizations c
  rw [afterAll]
  cases hrun : notifyAll oracle callback c.synchronizations c with
  | ok _ c' =>
    rw [hrun] at hframes
    exact hframes
  | error e c' =>
    rw [hrun] at hframes
    exact hframes

theorem view_of_ok {α : Type} {m : Action κ σ α} {a : α} (xid : Xid) (hframes : Frames (view xid) m) (h : m c = .ok a c') :
    view xid c' = view xid c := by
  have hview := hframes c
  rwa [h] at hview

theorem view_setXid_some {started : Xid} (h : setXid oracle (some started) c = .ok u c') :
    view xid c' = Association.send xid .begin started.transactionId ⟨some started, some started.transactionId, (view xid c).sent⟩ := by
  obtain ⟨_, c₁, hcheck, hrest⟩ := bind_eq_ok.mp h
  have hview := view_of_ok xid (frames_checkConnection xid).mapError hcheck
  obtain ⟨_, c₂, hmodify, hsend⟩ := bind_eq_ok.mp hrest
  cases hmodify
  rw [call_eq_ok (mapError_eq_ok.mp hsend), view_send, ← hview]
  rfl

theorem view_setXid_none (h : setXid oracle none c = .ok u c') : Association.Step xid (view xid c) (view xid c') := by
  obtain ⟨_, c₁, hcheck, hrest⟩ := bind_eq_ok.mp h
  have hview := view_of_ok xid (frames_checkConnection xid).mapError hcheck
  obtain ⟨_, c₂, hget, hend⟩ := bind_eq_ok.mp hrest
  cases hget
  obtain ⟨_, c₃, hsend, hmodify⟩ := bind_eq_ok.mp hend
  cases hmodify
  rw [← hview]
  cases hid : c₁.transactionId with
  | none =>
    rw [hid] at hsend
    cases hsend
    exact Association.Step.release hid
  | some id =>
    rw [hid, sendEnd, mapError_eq_ok] at hsend
    cases call_eq_ok hsend
    show Association.Step xid (view xid c₁) ⟨none, none, (view xid { c₁ with calls := c₁.calls ++ [.send .end id] }).sent⟩
    rw [view_send]
    exact Association.Step.finish id hid

theorem view_leave (h : leave oracle c = .ok u c') : Association.Step xid (view xid c) (view xid c') := by
  obtain ⟨_, c₁, hbefore, hset⟩ := bind_eq_ok.mp h
  have hframes : Frames (view xid) (beforeEnd oracle) := fun c => frames_view_notifyAll xid .beforeEnd c.synchronizations c
  rw [← view_of_ok xid hframes.mapError hbefore]
  exact view_setXid_none hset

theorem view_start {started : Option Xid} {flags : UInt32} (h : start oracle started flags c = .ok u c') :
    Association.Step xid (view xid c) (view xid c') := by
  by_cases hstartable : Startable c flags
  · rw [start_run hstartable] at h
    cases started with
    | none => exact view_setXid_none (c := { c with synchronizations := [] }) h
    | some started =>
      rw [view_setXid_some h]
      exact Association.Step.start started hstartable.notAssociated
  · obtain ⟨e, hrefused⟩ : ∃ e, start oracle started flags c = .error e c := start_refused hstartable started
    rw [hrefused] at h
    cases h

theorem view_end {ended : Option Xid} {flags : UInt32} (h : «end» oracle ended flags c = .ok u c') :
    Association.Step xid (view xid c) (view xid c') := by
  rw [«end», bind_ok (get_run c)] at h
  obtain ⟨_, c₁, hlocal, hrest⟩ := bind_eq_ok.mp h
  have hsame := view_of_ok xid (frames_throwIf _ _) hlocal
  rw [← hsame]
  split_ifs at hrest
  · obtain ⟨_, c₂, hother, hleave⟩ := bind_eq_ok.mp hrest
    rw [← view_of_ok xid (frames_throwIf _ _) hother]
    exact view_leave hleave
  · exact view_leave hrest
  · cases hrest
    exact Association.Step.idle
  · cases hrest

theorem throwIfAssociated_ok {xid : Option Xid} {x : Xid} (h : throwIfAssociated xid c = .ok x c') :
    xid = some x ∧ xidEquals c.associatedXid (some x) = false ∧ c' = c := by
  cases xid with
  | none => cases h
  | some xid =>
    rw [throwIfAssociated, bind_ok (get_run c)] at h
    cases hequals : xidEquals c.associatedXid (some xid) with
    | true =>
      rw [bind_error (throwIf_true hequals)] at h
      cases h
    | false =>
      rw [bind_ok (throwIf_false hequals)] at h
      cases h
      exact ⟨rfl, hequals, rfl⟩

theorem of_rollbackQuietly {α : Type} {m : Action κ σ α} {a : α} (h : tryCatch m (rollbackQuietly oracle) c = .ok a c') :
    m c = .ok a c' := by
  cases hrun : m c with
  | ok b c₁ =>
    rw [tryCatch_ok hrun] at h
    exact h
  | error e c₁ =>
    rw [tryCatch_error hrun, rollbackQuietly] at h
    split_ifs at h
    · obtain ⟨_, _, -, hthrow⟩ := bind_eq_ok.mp h
      cases hthrow
    · cases h

theorem view_prepare {prepared : Option Xid} {readOnly : Bool}
    (h : prepare oracle prepared c = .ok readOnly c') : Association.Step xid (view xid c) (view xid c') := by
  obtain ⟨x, c₁, hx, hrest⟩ := bind_eq_ok.mp h
  obtain ⟨-, hother, rfl⟩ := throwIfAssociated_ok hx
  obtain ⟨_, c₂, hsend, hafter⟩ := bind_eq_ok.mp (of_rollbackQuietly hrest)
  have hview : view xid c' = view xid c₂ := by
    rw [bind_ok (get_run c₂)] at hafter
    split_ifs at hafter
    · obtain ⟨_, c₃, htold, hend⟩ := bind_eq_ok.mp hafter
      cases hend
      exact view_of_ok xid (frames_afterAll xid .afterCommit) htold
    · cases hafter
      rfl
  rw [hview, call_eq_ok hsend, view_send]
  exact Association.Step.settle x hother .prepare (Or.inl rfl)

theorem view_commitXA (xid : Xid) {committed : Option Xid} {onePhase : Bool}
    (h : commitXA oracle committed onePhase c = .ok u c') : ∃ x type, committed = some x ∧
      xidEquals c.associatedXid (some x) = false ∧ view xid c' = (view xid c).send xid type x.transactionId ∧
      (type = .commitOnePhase ∨ type = .commitTwoPhase) ∧ (onePhase = true → type = .commitOnePhase) := by
  obtain ⟨x, c₁, hx, hrest⟩ := bind_eq_ok.mp h
  obtain ⟨hcommitted, hother, rfl⟩ := throwIfAssociated_ok hx
  obtain ⟨_, c₂, hcheck, hsending⟩ := bind_eq_ok.mp (of_rollbackQuietly hrest)
  obtain ⟨_, c₃, hsend, hafter⟩ := bind_eq_ok.mp hsending
  have hview := view_of_ok xid (frames_afterAll xid .afterCommit) hafter
  rw [call_eq_ok hsend, view_send, view_of_ok xid (frames_checkConnection xid) hcheck] at hview
  refine ⟨x, _, hcommitted, hother, hview, ?_, fun hone => if_pos hone⟩
  cases onePhase
  · exact Or.inl rfl
  · exact Or.inl rfl

theorem view_xaTransactionId {xid : Option Xid} (h : xaTransactionId xid c = .ok id c') : c' = c := by
  cases xid with
  | none => cases h
  | some xid =>
    rw [xaTransactionId] at h
    dsimp only at h
    split_ifs at h
    · split at h <;> cases h
      rfl
    · cases h
      rfl

theorem view_rollbackXA {rolledBack : Option Xid} (h : rollbackXA oracle rolledBack c = .ok u c') :
    Association.Step xid (view xid c) (view xid c') := by
  obtain ⟨id, c₁, hid, hrest⟩ := bind_eq_ok.mp h
  cases view_xaTransactionId hid
  obtain ⟨_, c₂, hcheck, hsending⟩ := bind_eq_ok.mp (mapError_eq_ok.mp hrest)
  obtain ⟨_, c₃, hsend, hafter⟩ := bind_eq_ok.mp hsending
  rw [view_of_ok xid (frames_afterAll xid .afterRollback) hafter, call_eq_ok hsend, view_send,
    view_of_ok xid (frames_checkConnection xid) hcheck]
  exact Association.Step.giveUp id .rollback (Or.inl rfl)

theorem view_forget {forgotten : Option Xid} (h : forget oracle forgotten c = .ok u c') :
    Association.Step xid (view xid c) (view xid c') := by
  obtain ⟨id, c₁, hid, hrest⟩ := bind_eq_ok.mp h
  cases view_xaTransactionId hid
  rw [call_eq_ok (mapError_eq_ok.mp hrest), view_send]
  exact Association.Step.giveUp id .forget (Or.inr rfl)

end TransactionContext

/-! ### Runs of the XA methods -/

open TransactionContext

variable {κ σ : Type}

inductive XACall where
  | start (xid : Option Xid) (flags : UInt32)
  | end (xid : Option Xid) (flags : UInt32)
  | prepare (xid : Option Xid)
  | commit (xid : Option Xid) (onePhase : Bool)
  | rollback (xid : Option Xid)
  | forget (xid : Option Xid)

def accepted {α : Type} : EStateM.Result TransactionException (TransactionContext κ σ) α → Option (TransactionContext κ σ)
  | .ok _ c => some c
  | .error _ _ => none

theorem accepted_eq_some {α : Type} {r : EStateM.Result TransactionException (TransactionContext κ σ) α}
    {c : TransactionContext κ σ} : accepted r = some c ↔ ∃ a, r = .ok a c := by
  cases r with
  | ok a c' => simp [accepted]
  | error e c' => simp [accepted]

namespace XACall

def step (oracle : ContextOracle κ σ) (c : TransactionContext κ σ) : XACall → Option (TransactionContext κ σ)
  | .start xid flags => accepted (TransactionContext.start oracle xid flags c)
  | .end xid flags => accepted (TransactionContext.end oracle xid flags c)
  | .prepare xid => accepted (TransactionContext.prepare oracle xid c)
  | .commit xid onePhase => accepted (commitXA oracle xid onePhase c)
  | .rollback xid => accepted (rollbackXA oracle xid c)
  | .forget xid => accepted (TransactionContext.forget oracle xid c)

variable {oracle : ContextOracle κ σ} {c c' : TransactionContext κ σ}

/-- Every call that is accepted is one that an XA resource may make. -/
theorem view_step (xid : Xid) {called : XACall} (h : step oracle c called = some c') :
    Association.Step xid (view xid c) (view xid c') := by
  cases called with
  | start started flags =>
    obtain ⟨_, hrun⟩ := accepted_eq_some.mp h
    exact view_start hrun
  | «end» ended flags =>
    obtain ⟨_, hrun⟩ := accepted_eq_some.mp h
    exact view_end hrun
  | prepare prepared =>
    obtain ⟨_, hrun⟩ := accepted_eq_some.mp h
    exact view_prepare hrun
  | commit committed onePhase =>
    obtain ⟨_, hrun⟩ := accepted_eq_some.mp h
    obtain ⟨x, type, -, hother, hview, htype, -⟩ := view_commitXA xid hrun
    rw [hview]
    exact Association.Step.settle x hother type (Or.inr htype)
  | rollback rolledBack =>
    obtain ⟨_, hrun⟩ := accepted_eq_some.mp h
    exact view_rollbackXA hrun
  | forget forgotten =>
    obtain ⟨_, hrun⟩ := accepted_eq_some.mp h
    exact view_forget hrun

/-- The commands for an `Xid` are sent in order, and the commit in one phase is sent as such. -/
theorem commands_inOrder (oracle : ContextOracle κ σ) (connectionId : κ) {calls : List XACall} {c : TransactionContext κ σ}
    (hrun : run (step oracle) { connectionId } calls = some c) (xid : Xid) :
    InOrder (commands xid c.calls) ∧ ∀ c', step oracle c (.commit (some xid) true) = some c' →
      commands xid c'.calls = commands xid c.calls ++ [.commitOnePhase] := by
  constructor
  · have hordered : (view xid c).Ordered xid := by
      have hstep : ∀ (c : TransactionContext κ σ) (called : XACall) (c' : TransactionContext κ σ),
          (view xid c).Ordered xid → True → step oracle c called = some c' → (view xid c').Ordered xid :=
        fun c called c' hordered _ hstep => Association.ordered_step hordered (view_step xid hstep)
      exact invariant_run hstep ⟨rfl, rfl⟩ (Always.of_forall (fun _ _ _ => trivial) _) hrun
    exact Option.isSome_of_eq_some hordered.order
  · intro c' hcommit
    obtain ⟨_, hreturns⟩ := accepted_eq_some.mp hcommit
    obtain ⟨x, type, hx, -, hview, -, htype⟩ := view_commitXA xid hreturns
    cases hx
    cases htype rfl
    have hsent := congrArg Association.sent hview
    rwa [Association.send, if_pos (Xid.identifies_transactionId.mpr rfl)] at hsent

def quiet : ContextOracle Nat Nat where
  fails := fun _ _ => none
  readOnly := fun _ => false

/-- A transaction, with another that is only prepared, as by a manager that recovers it. -/
def interleaved : List XACall :=
  [.start (some { formatId := 1, globalTransactionId := [1], branchQualifier := [] }) 0,
    .prepare (some { formatId := 1, globalTransactionId := [2], branchQualifier := [] }),
    .end (some { formatId := 1, globalTransactionId := [1], branchQualifier := [] }) tmSuccess,
    .commit (some { formatId := 1, globalTransactionId := [1], branchQualifier := [] }) true]

theorem interleaved_inOrder : ∃ c : TransactionContext Nat Nat, run (step quiet) { connectionId := 1 } interleaved = some c ∧
    InOrder (commands { formatId := 1, globalTransactionId := [1], branchQualifier := [] } c.calls) := by
  have haccepted : (run (step quiet) { connectionId := 1 } interleaved).isSome = true := by decide +kernel
  obtain ⟨c, hrun⟩ := Option.isSome_iff_exists.mp haccepted
  exact ⟨c, hrun, (commands_inOrder quiet 1 hrun _).1⟩

/-! ### Every order occurs -/

/-- Between the calls of an `Xid`, associated with it or with none. -/
def resting (xid : Xid) (started : Bool) (calls : List (ContextCall Nat Nat)) : TransactionContext Nat Nat where
  connectionId := 1
  associatedXid := if started then some xid else none
  transactionId := if started then some xid.transactionId else none
  calls := calls

/-- The call that sends a command, apart from `COMMITTWOPHASE` and `RECOVER`. -/
def request (xid : Xid) : TransactionType → XACall
  | .begin => .start (some xid) 0
  | .end => .end (some xid) tmSuccess
  | .prepare => .prepare (some xid)
  | .commitOnePhase | .commitTwoPhase => .commit (some xid) true
  | .rollback => .rollback (some xid)
  | .forget | .recover => .forget (some xid)

theorem xaTransactionId_resting (xid : Xid) (started : Bool) (calls : List (ContextCall Nat Nat)) :
    xaTransactionId (some xid) (resting xid started calls) = .ok xid.transactionId (resting xid started calls) := by
  rw [xaTransactionId]
  cases started with
  | false => rfl
  | true => exact if_pos (xidEquals_refl xid)

theorem commands_checked (xid : Xid) (calls : List (ContextCall Nat Nat)) (type : TransactionType) :
    commands xid (calls ++ [.checkConnection] ++ [.send type xid.transactionId]) = commands xid calls ++ [type] ∧
      commands xid (calls ++ [.send type xid.transactionId]) = commands xid calls ++ [type] := by
  have hid : xid.identifies (xid.transactionId : TransactionId Nat) = true := Xid.identifies_transactionId.mpr rfl
  simp [commands, sentFor, hid, List.filterMap_cons]

theorem end_resting (xid : Xid) (calls : List (ContextCall Nat Nat)) :
    step quiet (resting xid true calls) (request xid .end) =
      some (resting xid false (calls ++ [.checkConnection] ++ [.send .end xid.transactionId])) := by
  have hend : TransactionContext.end quiet (some xid) tmSuccess (resting xid true calls) = leave quiet (resting xid true calls) := by
    have hlocal : (resting xid true calls).isInLocalTransaction = false := rfl
    rw [TransactionContext.end, bind_ok (get_run _), bind_ok (throwIf_false hlocal), if_neg (by decide), if_pos (by decide)]
    exact congrFun (if_pos (xidEquals_refl xid)) _
  rw [request, step, hend]
  rfl

theorem request_accepted (xid : Xid) {started started' : Bool} {type : TransactionType}
    (hnext : nextCommand started type = some started') (htype : type ≠ .commitTwoPhase) (calls : List (ContextCall Nat Nat)) :
    ∃ calls', step quiet (resting xid started calls) (request xid type) = some (resting xid started' calls') ∧
      commands xid calls' = commands xid calls ++ [type] := by
  obtain ⟨hchecked, hunchecked⟩ := commands_checked xid calls type
  cases type with
  | begin =>
    cases started <;> cases hnext
    exact ⟨_, rfl, hchecked⟩
  | «end» =>
    cases started <;> cases hnext
    exact ⟨_, end_resting xid calls, hchecked⟩
  | prepare =>
    cases started <;> cases hnext
    exact ⟨_, rfl, hunchecked⟩
  | commitOnePhase =>
    cases started <;> cases hnext
    exact ⟨_, rfl, hchecked⟩
  | commitTwoPhase => exact absurd rfl htype
  | rollback =>
    refine ⟨_, ?_, hchecked⟩
    rw [request, step, rollbackXA, bind_ok (xaTransactionId_resting xid started calls)]
    cases started <;> cases hnext <;> rfl
  | recover => cases started <;> cases hnext
  | forget =>
    refine ⟨_, ?_, hunchecked⟩
    rw [request, step, TransactionContext.forget, bind_ok (xaTransactionId_resting xid started calls)]
    cases started <;> cases hnext <;> rfl

/-- Every order that `nextCommand` allows occurs, apart from the second phase of a commit, which is never sent. -/
theorem order_occurs (xid : Xid) {types : List TransactionType} {started started' : Bool} (hone : .commitTwoPhase ∉ types)
    (horder : types.foldlM nextCommand started = some started') (calls : List (ContextCall Nat Nat)) :
    ∃ c, run (step quiet) (resting xid started calls) (types.map (request xid)) = some c ∧
      commands xid c.calls = commands xid calls ++ types := by
  induction types generalizing started calls with
  | nil => exact ⟨_, rfl, (List.append_nil _).symm⟩
  | cons type types ih =>
    rw [List.foldlM_cons] at horder
    obtain ⟨next, hnext, hrest⟩ := Option.bind_eq_some_iff.mp horder
    have htype : type ≠ .commitTwoPhase := fun heq => hone (heq ▸ List.mem_cons_self)
    obtain ⟨calls', hstep, hsent⟩ := request_accepted xid hnext htype calls
    obtain ⟨c, hrun, hcommands⟩ := ih (fun hmem => hone (List.mem_cons_of_mem _ hmem)) hrest calls'
    exact ⟨c, run_cons.mpr ⟨_, hstep, hrun⟩, by rw [hcommands, hsent, List.append_assoc, List.singleton_append]⟩

theorem order_occurs_prepared : let xid : Xid := { formatId := 1, globalTransactionId := [1], branchQualifier := [] }
    let types : List TransactionType := [.begin, .end, .prepare, .rollback]
    ∃ c, run (step quiet) (resting xid false []) (types.map (request xid)) = some c ∧ commands xid c.calls = types := by
  intro xid types
  exact order_occurs xid (by decide) (rfl : types.foldlM nextCommand false = some false) []

/-- The sequences that an `Xid` runs through by itself. -/
def IsProtocol (types : List TransactionType) : Prop :=
  types <+: [.begin, .end, .prepare, .commitTwoPhase] ∨ types <+: [.begin, .end, .prepare, .rollback] ∨
    types <+: [.begin, .end, .commitOnePhase] ∨ types <+: [.begin, .end, .rollback]

/-- What the manager asks for is sent, for an `Xid` that was never started as well. -/
theorem commands_not_protocol :
    ∃ c : TransactionContext Nat Nat, run (step quiet) { connectionId := 1 }
        [.prepare (some { formatId := 1, globalTransactionId := [2], branchQualifier := [] }),
          .forget (some { formatId := 1, globalTransactionId := [2], branchQualifier := [] })] = some c ∧
      ¬ IsProtocol (commands { formatId := 1, globalTransactionId := [2], branchQualifier := [] } c.calls) := by
  have hsent : (run (step quiet) { connectionId := 1 }
      [.prepare (some { formatId := 1, globalTransactionId := [2], branchQualifier := [] }),
        .forget (some { formatId := 1, globalTransactionId := [2], branchQualifier := [] })]).map
      (fun c => commands { formatId := 1, globalTransactionId := [2], branchQualifier := [] } c.calls) =
      some [.prepare, .forget] := by decide
  obtain ⟨c, hrun, hcommands⟩ := Option.map_eq_some_iff.mp hsent
  refine ⟨c, hrun, ?_⟩
  rw [hcommands]
  rintro (h | h | h | h) <;> exact absurd h (by decide)

end XACall

end ActiveMQCpp.Core
