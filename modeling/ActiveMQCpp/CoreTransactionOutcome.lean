import Mathlib.Data.List.Count
import Mathlib.Data.List.Perm.Subperm
import ActiveMQCpp.CoreTransactionContext
import ActiveMQCpp.LibRuns

/-! Who is told of the end of a local transaction. -/

namespace ActiveMQCpp.Core

open Codec Runs State List TransactionContext

namespace TransactionContext

open TransactionException

variable {κ σ : Type} (oracle : ContextOracle κ σ)

/-! ### What the callbacks answer -/

/-- What the first callback that throws throws, when the callbacks are called in turn after `calls`. -/
def thrown (callback : SynchronizationCallback) : List σ → List (ContextCall κ σ) → Option TransactionException
  | [], _ => none
  | sync :: syncs, calls =>
    match oracle.fails calls (.notify callback sync) with
    | some e => some e
    | none => thrown callback syncs (calls ++ [.notify callback sync])

/-- The synchronizations up to the first that throws. -/
def told (callback : SynchronizationCallback) : List σ → List (ContextCall κ σ) → List σ
  | [], _ => []
  | sync :: syncs, calls =>
    sync :: match oracle.fails calls (.notify callback sync) with
      | some _ => []
      | none => told callback syncs (calls ++ [.notify callback sync])

def toldCalls (callback : SynchronizationCallback) (syncs : List σ) (calls : List (ContextCall κ σ)) :
    List (ContextCall κ σ) := (told oracle callback syncs calls).map (.notify callback)

/-- No callback throws but the last. -/
def AllTold (callback : SynchronizationCallback) (syncs : List σ) (calls : List (ContextCall κ σ)) : Prop :=
  ∀ pre sync post, syncs = pre ++ sync :: post → post ≠ [] →
    oracle.fails (calls ++ pre.map (.notify callback)) (.notify callback sync) = none

variable {oracle} {callback : SynchronizationCallback} {syncs : List σ} {calls : List (ContextCall κ σ)}
  {c : TransactionContext κ σ} {e : TransactionException} {id : TransactionId κ}

theorem allTold_cons {sync : σ} (h : oracle.fails calls (.notify callback sync) = none) :
    AllTold oracle callback (sync :: syncs) calls ↔ AllTold oracle callback syncs (calls ++ [.notify callback sync]) := by
  constructor
  · intro hall pre sync' post heq hpost
    have hnone := hall (sync :: pre) sync' post (congrArg (sync :: ·) heq) hpost
    rwa [map_cons, append_cons] at hnone
  · intro hall pre sync' post heq hpost
    cases pre with
    | nil =>
      cases heq
      rw [map_nil, append_nil]
      exact h
    | cons first pre =>
      cases heq
      rw [map_cons, append_cons]
      exact hall pre sync' post rfl hpost

theorem told_eq_iff : told oracle callback syncs calls = syncs ↔ AllTold oracle callback syncs calls := by
  induction syncs generalizing calls with
  | nil =>
    refine iff_of_true rfl fun pre sync post heq => ?_
    cases pre <;> cases heq
  | cons sync syncs ih =>
    rw [told]
    cases hfails : oracle.fails calls (.notify callback sync) with
    | none => rw [allTold_cons hfails, ← ih, List.cons.injEq, and_iff_right rfl]
    | some e =>
      constructor
      · intro heq pre sync' post hsplit hpost
        have hlength := congrArg List.length (heq.trans hsplit)
        have := length_pos_of_ne_nil hpost
        rw [length_append, length_cons, length_cons, length_nil] at hlength
        omega
      · intro hall
        by_cases hsyncs : syncs = []
        · rw [hsyncs]
        · have hnone := hall [] sync syncs rfl hsyncs
          rw [map_nil, append_nil, hfails] at hnone
          cases hnone

theorem told_prefix : told oracle callback syncs calls <+: syncs := by
  induction syncs generalizing calls with
  | nil => exact prefix_rfl
  | cons sync syncs ih =>
    rw [told, cons_prefix_cons]
    refine ⟨rfl, ?_⟩
    cases oracle.fails calls (.notify callback sync) with
    | none => exact ih
    | some e => exact nil_prefix

/-! ### The loops over the set -/

def record (called : List (ContextCall κ σ)) (c : TransactionContext κ σ) : TransactionContext κ σ :=
  { c with calls := c.calls ++ called }

theorem notifyAll_run : notifyAll oracle callback syncs c = match thrown oracle callback syncs c.calls with
    | none => .ok () (c.record (toldCalls oracle callback syncs c.calls))
    | some e => .error e (c.record (toldCalls oracle callback syncs c.calls)) := by
  induction syncs generalizing c with
  | nil =>
    rw [thrown, toldCalls, told, record, map_nil, append_nil]
    rfl
  | cons sync syncs ih =>
    show (call oracle (.notify callback sync) >>= fun _ => notifyAll oracle callback syncs) c = _
    rw [thrown, toldCalls, told]
    cases hfails : oracle.fails c.calls (.notify callback sync) with
    | none =>
      rw [bind_ok (call_ok hfails), ih]
      simp only [toldCalls, record, map_cons, append_assoc, singleton_append]
    | some e => exact bind_error (call_error hfails)

def ending (oracle : ContextOracle κ σ) (c : TransactionContext κ σ) : TransactionContext κ σ :=
  c.record (toldCalls oracle .beforeEnd c.synchronizations c.calls)

theorem beforeEnd_ok (h : thrown oracle .beforeEnd c.synchronizations c.calls = none) :
    beforeEnd oracle c = .ok () (ending oracle c) := by
  rw [beforeEnd, notifyAll_run, h]
  rfl

theorem beforeEnd_error (h : thrown oracle .beforeEnd c.synchronizations c.calls = some e) :
    beforeEnd oracle c = .error e (ending oracle c) := by
  rw [beforeEnd, notifyAll_run, h]
  rfl

theorem stateOf_afterAll : stateOf (afterAll oracle callback c) =
    { c with calls := c.calls ++ toldCalls oracle callback c.synchronizations c.calls, synchronizations := [] } := by
  rw [afterAll, notifyAll_run]
  cases thrown oracle callback c.synchronizations c.calls <;> rfl

theorem afterAll_empty (h : c.synchronizations = []) : afterAll oracle callback c = .ok () c := by
  obtain ⟨_, _, _, _, syncs, calls⟩ := c
  cases h
  rw [afterAll, notifyAll_run, thrown, toldCalls, told, record, map_nil, append_nil]

/-! ### The ends of a transaction -/

def finished (oracle : ContextOracle κ σ) (request : ContextCall κ σ) (callback : SynchronizationCallback)
    (c : TransactionContext κ σ) : TransactionContext κ σ :=
  { c with
    transactionId := none
    synchronizations := []
    calls := c.calls ++ [request] ++ toldCalls oracle callback c.synchronizations (c.calls ++ [request]) }

/-- The request failed, and nobody was told. -/
def abandoned (request : ContextCall κ σ) (c : TransactionContext κ σ) : TransactionContext κ σ :=
  { c with transactionId := none, calls := c.calls ++ [request] }

theorem sendRollback_answered (h : oracle.fails c.calls (.send .rollback id) = none) :
    stateOf (sendRollback oracle (some id) c) = finished oracle (.send .rollback id) .afterRollback c := by
  rw [sendRollback, bind_ok (modify_run _ _), bind_ok (call_ok (by exact h)), afterRollback, stateOf_afterAll]
  rfl

theorem sendRollback_failed (h : oracle.fails c.calls (.send .rollback id) = some e) :
    stateOf (sendRollback oracle (some id) c) = abandoned (.send .rollback id) c := by
  rw [sendRollback, bind_ok (modify_run _ _), bind_error (call_error (by exact h))]
  rfl

theorem sendCommit_answered (h : oracle.fails c.calls (.send .commitOnePhase id) = none) :
    stateOf (sendCommit oracle (some id) c) = finished oracle (.send .commitOnePhase id) .afterCommit c := by
  rw [sendCommit, bind_ok (modify_run _ _)]
  have hafter : stateOf (afterCommit oracle (abandoned (.send .commitOnePhase id) c)) = _ := stateOf_afterAll
  cases hrun : afterCommit oracle (abandoned (.send .commitOnePhase id) c) with
  | ok _ c' =>
    rw [tryCatch_ok ((bind_ok (call_ok (by exact h))).trans hrun)]
    rw [hrun] at hafter
    exact hafter
  | error e c' =>
    rw [tryCatch_error ((bind_ok (call_ok (by exact h))).trans hrun)]
    rw [hrun] at hafter
    have hempty : c'.synchronizations = [] := congrArg synchronizations hafter
    -- The set was cleared, and what the clause calls finds nobody to tell.
    split_ifs
    · rw [stateOf_bind_throw, afterRollback, afterAll_empty hempty]
      exact hafter
    · exact hafter

theorem sendCommit_refused (h : oracle.fails c.calls (.send .commitOnePhase id) = some e) (he : e.isCms = true) :
    stateOf (sendCommit oracle (some id) c) = finished oracle (.send .commitOnePhase id) .afterRollback c := by
  rw [sendCommit, bind_ok (modify_run _ _), tryCatch_error (bind_error (call_error (by exact h))), if_pos he,
    stateOf_bind_throw, afterRollback, stateOf_afterAll]
  rfl

theorem sendCommit_failed (h : oracle.fails c.calls (.send .commitOnePhase id) = some e) (he : e.isCms = false) :
    stateOf (sendCommit oracle (some id) c) = abandoned (.send .commitOnePhase id) c := by
  rw [sendCommit, bind_ok (modify_run _ _), tryCatch_error (bind_error (call_error (by exact h))),
    if_neg (by rw [he]; decide)]
  rfl

/-! ### Rollback and commit -/

theorem rollback_stopped (hXA : c.isInXATransaction = false)
    (h : thrown oracle .beforeEnd c.synchronizations c.calls = some e) (he : e ≠ .transactionRolledBack) :
    stateOf (rollback oracle c) = ending oracle c := by
  rw [rollback, stateOf_mapError, bind_ok (get_run c), bind_ok (throwIf_false hXA)]
  have hstop : tryCatch (beforeEnd oracle) (fun e => if e = .transactionRolledBack then pure () else throw e) c =
      .error e (ending oracle c) := by
    rw [tryCatch_error (beforeEnd_error h), if_neg he]
    rfl
  rw [bind_error hstop]
  rfl

theorem rollback_sent (hXA : c.isInXATransaction = false)
    (h : ∀ e, thrown oracle .beforeEnd c.synchronizations c.calls = some e → e = .transactionRolledBack) :
    stateOf (rollback oracle c) = stateOf (sendRollback oracle c.transactionId (ending oracle c)) := by
  rw [rollback, stateOf_mapError, bind_ok (get_run c), bind_ok (throwIf_false hXA)]
  have hgoes : tryCatch (beforeEnd oracle) (fun e => if e = .transactionRolledBack then pure () else throw e) c =
      .ok () (ending oracle c) := by
    cases hthrown : thrown oracle .beforeEnd c.synchronizations c.calls with
    | none => exact tryCatch_ok (beforeEnd_ok hthrown)
    | some e =>
      rw [tryCatch_error (beforeEnd_error hthrown), if_pos (h e hthrown)]
      rfl
  rw [bind_ok hgoes, bind_ok (get_run _)]
  rfl

theorem commit_stopped (hXA : c.isInXATransaction = false)
    (h : thrown oracle .beforeEnd c.synchronizations c.calls = some e) (he : e.isCms = false) :
    stateOf (commit oracle c) = ending oracle c := by
  rw [commit, stateOf_mapError, bind_ok (get_run c), bind_ok (throwIf_false hXA), bind_error]
  · rfl
  · rw [tryCatch_error (beforeEnd_error h), if_neg (by rw [he]; decide)]
    rfl

theorem commit_rolledBack (hXA : c.isInXATransaction = false)
    (h : thrown oracle .beforeEnd c.synchronizations c.calls = some e) (he : e.isCms = true) :
    stateOf (commit oracle c) = stateOf (rollback oracle (ending oracle c)) := by
  rw [commit, stateOf_mapError, bind_ok (get_run c), bind_ok (throwIf_false hXA)]
  let handler : TransactionException → Action κ σ Unit := fun e => do
    if e.isCms then rollback oracle
    throw e
  have hcatch : tryCatch (beforeEnd oracle) handler c = (rollback oracle >>= fun _ => throw e) (ending oracle c) := by
    rw [tryCatch_error (beforeEnd_error h)]
    exact congrFun (if_pos he) _
  rw [bind_run, hcatch, bind_run]
  cases rollback oracle (ending oracle c) <;> rfl

theorem commit_sent (hXA : c.isInXATransaction = false) (h : thrown oracle .beforeEnd c.synchronizations c.calls = none) :
    stateOf (commit oracle c) = stateOf (sendCommit oracle c.transactionId (ending oracle c)) := by
  rw [commit, stateOf_mapError, bind_ok (get_run c), bind_ok (throwIf_false hXA), bind_ok (tryCatch_ok (beforeEnd_ok h)),
    bind_ok (get_run _)]
  rfl

/-! ### Once a transaction has ended -/

section Ended

variable [DecidableEq σ]

/-- The call tells `sync` how the transaction ended. -/
def isOutcome (sync : σ) : ContextCall κ σ → Bool
  | .notify .afterCommit told | .notify .afterRollback told => told = sync
  | _ => false

def outcomes (sync : σ) (calls : List (ContextCall κ σ)) : Nat := calls.countP (isOutcome sync)

/-- Every synchronization registered has been told once after `before`. -/
structure Ended (registered : List σ) (before : List (ContextCall κ σ)) (c : TransactionContext κ σ) : Prop where
  told : ∀ sync ∈ registered, outcomes sync (c.calls.drop before.length) = 1
  synchronizations : c.synchronizations = []
  notInTransaction : c.isInTransaction = false

/-- The registered synchronizations are those of the set, and none has been told since `before`. -/
structure Pending (registered : List σ) (before : List (ContextCall κ σ)) (c : TransactionContext κ σ) : Prop where
  nodup : c.synchronizations.Nodup
  mem_iff : ∀ sync, sync ∈ registered ↔ sync ∈ c.synchronizations
  untold : ∃ quiet, c.calls = before ++ quiet ∧ ∀ sync, outcomes sync quiet = 0

variable {registered : List σ} {before : List (ContextCall κ σ)}

theorem outcomes_append (sync : σ) (calls calls' : List (ContextCall κ σ)) :
    outcomes sync (calls ++ calls') = outcomes sync calls + outcomes sync calls' := countP_append

theorem outcomes_send (sync : σ) (type : TransactionType) : outcomes sync [.send type id] = 0 := rfl

theorem outcomes_beforeEnd (sync : σ) (syncs : List σ) :
    outcomes (κ := κ) sync (syncs.map (.notify .beforeEnd)) = 0 := by
  rw [outcomes, countP_map, countP_eq_zero]
  intro s _
  exact Bool.false_ne_true

theorem outcomes_told (hcallback : callback ≠ .beforeEnd) (sync : σ) (syncs : List σ) :
    outcomes (κ := κ) sync (syncs.map (.notify callback)) = syncs.count sync := by
  rw [outcomes, countP_map, List.count]
  congr
  funext s
  cases callback with
  | beforeEnd => exact absurd rfl hcallback
  | afterCommit => rfl
  | afterRollback => rfl

theorem Pending.ending (h : Pending registered before c) : Pending registered before (ending oracle c) := by
  obtain ⟨quiet, hcalls, hquiet⟩ := h.untold
  refine ⟨h.nodup, h.mem_iff, quiet ++ toldCalls oracle .beforeEnd c.synchronizations c.calls, ?_, fun sync => ?_⟩
  · rw [TransactionContext.ending, record, hcalls, List.append_assoc]
  · rw [outcomes_append, hquiet, toldCalls, outcomes_beforeEnd]

theorem ended_finished (h : Pending registered before c) (hcallback : callback ≠ .beforeEnd) (type : TransactionType) :
    Ended registered before (finished oracle (.send type id) callback c) ↔
      AllTold oracle callback c.synchronizations (c.calls ++ [.send type id]) := by
  obtain ⟨quiet, hcalls, hquiet⟩ := h.untold
  have hcount : ∀ sync, outcomes sync ((finished oracle (.send type id) callback c).calls.drop before.length) =
      (told oracle callback c.synchronizations (c.calls ++ [.send type id])).count sync := by
    intro sync
    rw [finished, toldCalls, hcalls, append_assoc, append_assoc, drop_left, outcomes_append,
      outcomes_append, hquiet, outcomes_send, outcomes_told hcallback, Nat.zero_add, Nat.zero_add]
  rw [← told_eq_iff]
  constructor
  · intro hended
    have hsubset : c.synchronizations ⊆ told oracle callback c.synchronizations (c.calls ++ [.send type id]) := by
      intro sync hsync
      have hone := hended.told sync ((h.mem_iff sync).mpr hsync)
      rw [hcount] at hone
      exact count_pos_iff.mp (by omega)
    exact told_prefix.eq_of_length_le (subperm_of_subset h.nodup hsubset).length_le
  · intro heq
    refine ⟨fun sync hsync => ?_, rfl, rfl⟩
    rw [hcount, heq]
    exact count_eq_one_of_mem h.nodup ((h.mem_iff sync).mp hsync)

theorem ended_abandoned (h : Pending registered before c) (request : ContextCall κ σ) :
    Ended registered before (abandoned request c) ↔ c.synchronizations = [] := by
  constructor
  · intro hended
    exact hended.synchronizations
  · intro hempty
    refine ⟨fun sync hsync => ?_, hempty, rfl⟩
    have hmem := (h.mem_iff sync).mp hsync
    rw [hempty] at hmem
    cases hmem

theorem not_ended (hid : c.transactionId = some id) : ¬ Ended registered before c := by
  intro hended
  have hnot := hended.notInTransaction
  rw [isInTransaction, hid] at hnot
  cases hnot

/-! ### When an end is told to everyone -/

/-- The request of `rollback` is answered, and no callback throws before the last. -/
def RollbackRequestAnswered (oracle : ContextOracle κ σ) (id : TransactionId κ) (c : TransactionContext κ σ) : Prop :=
  match oracle.fails c.calls (.send .rollback id) with
  | none => AllTold oracle .afterRollback c.synchronizations (c.calls ++ [.send .rollback id])
  | some _ => c.synchronizations = []

/-- Before the end of a transaction by `rollback` only a `TransactionRolledBackException` is thrown. -/
def RollbackAnswered (oracle : ContextOracle κ σ) (id : TransactionId κ) (c : TransactionContext κ σ) : Prop :=
  (∀ e, thrown oracle .beforeEnd c.synchronizations c.calls = some e → e = .transactionRolledBack) ∧
    RollbackRequestAnswered oracle id (ending oracle c)

/-- The request of `commit` is answered or refused with a `CMSException`, and no callback throws before the last. -/
def CommitRequestAnswered (oracle : ContextOracle κ σ) (id : TransactionId κ) (c : TransactionContext κ σ) : Prop :=
  match oracle.fails c.calls (.send .commitOnePhase id) with
  | none => AllTold oracle .afterCommit c.synchronizations (c.calls ++ [.send .commitOnePhase id])
  | some e =>
    if e.isCms then AllTold oracle .afterRollback c.synchronizations (c.calls ++ [.send .commitOnePhase id])
    else c.synchronizations = []

/-- What is thrown before the end of a transaction by `commit` is a `CMSException`, and the rollback is answered. -/
def CommitAnswered (oracle : ContextOracle κ σ) (id : TransactionId κ) (c : TransactionContext κ σ) : Prop :=
  match thrown oracle .beforeEnd c.synchronizations c.calls with
  | none => CommitRequestAnswered oracle id (ending oracle c)
  | some e => e.isCms = true ∧ RollbackAnswered oracle id (ending oracle c)

theorem ended_sendRollback (h : Pending registered before c) :
    Ended registered before (stateOf (sendRollback oracle (some id) c)) ↔ RollbackRequestAnswered oracle id c := by
  rw [RollbackRequestAnswered]
  cases hsend : oracle.fails c.calls (.send .rollback id) with
  | none =>
    rw [sendRollback_answered hsend]
    exact ended_finished h (by decide) .rollback
  | some e =>
    rw [sendRollback_failed hsend]
    exact ended_abandoned h _

theorem ended_sendCommit (h : Pending registered before c) :
    Ended registered before (stateOf (sendCommit oracle (some id) c)) ↔ CommitRequestAnswered oracle id c := by
  rw [CommitRequestAnswered]
  cases hsend : oracle.fails c.calls (.send .commitOnePhase id) with
  | none =>
    rw [sendCommit_answered hsend]
    exact ended_finished h (by decide) .commitOnePhase
  | some e =>
    cases he : e.isCms with
    | true =>
      rw [sendCommit_refused hsend he]
      simp only [he, if_true]
      exact ended_finished h (by decide) .commitOnePhase
    | false =>
      rw [sendCommit_failed hsend he]
      simp only [he, Bool.false_eq_true, if_false]
      exact ended_abandoned h _

theorem ended_rollback (h : Pending registered before c) (hXA : c.isInXATransaction = false)
    (hid : c.transactionId = some id) :
    Ended registered before (stateOf (rollback oracle c)) ↔ RollbackAnswered oracle id c := by
  rw [RollbackAnswered]
  by_cases hquiet : ∀ e, thrown oracle .beforeEnd c.synchronizations c.calls = some e → e = .transactionRolledBack
  · rw [rollback_sent hXA hquiet, hid, ended_sendRollback h.ending, and_iff_right hquiet]
  · refine iff_of_false ?_ fun hanswered => hquiet hanswered.1
    push Not at hquiet
    obtain ⟨e, hthrown, he⟩ := hquiet
    rw [rollback_stopped hXA hthrown he]
    exact not_ended hid

theorem ended_commit (h : Pending registered before c) (hXA : c.isInXATransaction = false)
    (hid : c.transactionId = some id) :
    Ended registered before (stateOf (commit oracle c)) ↔ CommitAnswered oracle id c := by
  rw [CommitAnswered]
  cases hthrown : thrown oracle .beforeEnd c.synchronizations c.calls with
  | none => rw [commit_sent hXA hthrown, hid, ended_sendCommit h.ending]
  | some e =>
    cases he : e.isCms with
    | true =>
      rw [commit_rolledBack hXA hthrown he, ended_rollback h.ending hXA hid]
      exact (and_iff_right he).symm
    | false =>
      rw [commit_stopped hXA hthrown he]
      exact iff_of_false (not_ended hid) fun hanswered => Bool.false_ne_true (he.symm.trans hanswered.1)

end Ended

/-! ### Outside of a transaction -/

theorem rollback_outside (hid : c.transactionId = none) :
    ∃ called, stateOf (rollback oracle c) = c.record called := by
  have hXA : c.isInXATransaction = false := by rw [isInXATransaction, hid]
  by_cases hquiet : ∀ e, thrown oracle .beforeEnd c.synchronizations c.calls = some e → e = .transactionRolledBack
  · rw [rollback_sent hXA hquiet, hid]
    exact ⟨_, rfl⟩
  · push Not at hquiet
    obtain ⟨e, hthrown, he⟩ := hquiet
    exact ⟨_, rollback_stopped hXA hthrown he⟩

theorem commit_outside (hid : c.transactionId = none) : ∃ called, stateOf (commit oracle c) = c.record called := by
  have hXA : c.isInXATransaction = false := by rw [isInXATransaction, hid]
  cases hthrown : thrown oracle .beforeEnd c.synchronizations c.calls with
  | none =>
    rw [commit_sent hXA hthrown, hid]
    exact ⟨_, rfl⟩
  | some e =>
    cases he : e.isCms with
    | false => exact ⟨_, commit_stopped hXA hthrown he⟩
    | true =>
      obtain ⟨called, hrun⟩ : ∃ called, stateOf (rollback oracle (ending oracle c)) = (ending oracle c).record called :=
        rollback_outside hid
      rw [commit_rolledBack hXA hthrown he, hrun, ending, record, record, append_assoc]
      exact ⟨_, rfl⟩

theorem begin_inside (hXA : c.isInXATransaction = false) (hid : c.transactionId = some id) :
    stateOf (begin oracle c) = c := by
  have hin : (!c.isInTransaction) = false := by rw [isInTransaction, hid]; rfl
  rw [begin, stateOf_mapError, bind_ok (get_run c), bind_ok (throwIf_false hXA), if_neg (by rw [hin]; decide)]
  rfl

theorem begin_outside (hid : c.transactionId = none) :
    (stateOf (begin oracle c)).synchronizations = [] ∧ (stateOf (begin oracle c)).isInXATransaction = false := by
  have hXA : c.isInXATransaction = false := by rw [isInXATransaction, hid]
  have hout : (!c.isInTransaction) = true := by rw [isInTransaction, hid]; rfl
  rw [begin, stateOf_mapError, bind_ok (get_run c), bind_ok (throwIf_false hXA), if_pos hout, bind_ok (modify_run _ c)]
  cases hsend : oracle.fails c.calls (.send .begin (.local ⟨c.connectionId, c.nextLocalTransactionId⟩)) with
  | none =>
    rw [bind_ok (call_ok (by exact hsend))]
    exact ⟨rfl, rfl⟩
  | some e =>
    rw [bind_error (call_error (by exact hsend))]
    exact ⟨rfl, hXA⟩

theorem isInLocalTransaction_iff : c.isInLocalTransaction = true ↔ ∃ id, c.transactionId = some (.local id) := by
  rw [isInLocalTransaction]
  split
  · rename_i id hid
    exact iff_of_true rfl ⟨id, hid⟩
  · rename_i hnot
    exact iff_of_false Bool.false_ne_true fun ⟨id, hid⟩ => hnot id hid

theorem nodup_addSynchronization [LinearOrder σ] (sync : σ) (h : c.synchronizations.Nodup) :
    (c.addSynchronization sync).synchronizations.Nodup := by
  rw [addSynchronization]
  split_ifs with hmem
  · exact h
  · exact (perm_orderedInsert _ sync _).nodup_iff.mpr (nodup_cons.mpr ⟨hmem, h⟩)

theorem mem_addSynchronization [LinearOrder σ] (sync sync' : σ) :
    sync' ∈ (c.addSynchronization sync).synchronizations ↔ sync' = sync ∨ sync' ∈ c.synchronizations := by
  rw [addSynchronization]
  split_ifs with hmem
  · refine (or_iff_right_of_imp ?_).symm
    rintro rfl
    exact hmem
  · exact mem_orderedInsert _

end TransactionContext

/-! ### Runs of local transactions -/

open TransactionContext

variable {κ σ : Type} [LinearOrder σ]

inductive LocalCall (σ : Type) where
  | begin
  | commit
  | rollback
  | addSynchronization (sync : σ)
  | removeSynchronization (sync : σ)

def LocalCall.run (oracle : ContextOracle κ σ) (c : TransactionContext κ σ) : LocalCall σ → TransactionContext κ σ
  | .begin => stateOf (TransactionContext.begin oracle c)
  | .commit => stateOf (TransactionContext.commit oracle c)
  | .rollback => stateOf (TransactionContext.rollback oracle c)
  | .addSynchronization sync => c.addSynchronization sync
  | .removeSynchronization sync => c.removeSynchronization sync

/-- Beside the context, the synchronizations registered during a transaction that were neither removed nor told. -/
structure Ledger (κ σ : Type) where
  context : TransactionContext κ σ
  registered : List σ := []

namespace Ledger

variable (oracle : ContextOracle κ σ)

def untold (l : Ledger κ σ) (c' : TransactionContext κ σ) : List σ :=
  l.registered.filter fun sync => outcomes sync (c'.calls.drop l.context.calls.length) = 0

def step (l : Ledger κ σ) (call : LocalCall σ) : Option (Ledger κ σ) :=
  let c' := call.run oracle l.context
  match call with
  | .begin => some ⟨c', l.registered⟩
  | .commit => some ⟨c', l.untold c'⟩
  | .rollback => some ⟨c', l.untold c'⟩
  | .addSynchronization sync =>
    some ⟨c', if l.context.isInLocalTransaction then sync :: l.registered else l.registered⟩
  | .removeSynchronization sync => some ⟨c', l.registered.filter (· ≠ sync)⟩

/-- The end of a local transaction tells everyone registered in it, and the start of the next drops nobody. -/
def Delivers (l : Ledger κ σ) : LocalCall σ → Prop
  | .begin => ∀ sync ∈ l.registered, sync ∈ (LocalCall.begin.run oracle l.context).synchronizations
  | .commit => l.context.isInLocalTransaction = true →
      Ended l.registered l.context.calls (LocalCall.commit.run oracle l.context)
  | .rollback => l.context.isInLocalTransaction = true →
      Ended l.registered l.context.calls (LocalCall.rollback.run oracle l.context)
  | .addSynchronization _ | .removeSynchronization _ => True

/-- The broker and the callbacks answer the end of a local transaction so that it is told to everyone. -/
def Answered (l : Ledger κ σ) : LocalCall σ → Prop
  | .commit => ∀ id, l.context.transactionId = some (.local id) → CommitAnswered oracle (.local id) l.context
  | .rollback => ∀ id, l.context.transactionId = some (.local id) → RollbackAnswered oracle (.local id) l.context
  | .begin | .addSynchronization _ | .removeSynchronization _ => True

/-- During a transaction the set holds what is registered, and nothing stays registered after it. -/
structure Agrees (l : Ledger κ σ) : Prop where
  notXA : l.context.isInXATransaction = false
  nodup : l.context.synchronizations.Nodup
  inside : ∀ id, l.context.transactionId = some id → ∀ sync, sync ∈ l.registered ↔ sync ∈ l.context.synchronizations
  outside : l.context.transactionId = none → l.registered = []

variable {oracle} {l l' : Ledger κ σ}

theorem Agrees.pending (h : Agrees l) {id : TransactionId κ} (hid : l.context.transactionId = some id) :
    Pending l.registered l.context.calls l.context :=
  ⟨h.nodup, h.inside id hid, [], (append_nil _).symm, fun _ => rfl⟩

omit [LinearOrder σ] in
theorem Agrees.transactionId (h : Agrees l) :
    l.context.transactionId = none ∨ ∃ id, l.context.transactionId = some (.local id) := by
  have hXA := h.notXA
  rw [isInXATransaction] at hXA
  cases hid : l.context.transactionId with
  | none => exact Or.inl rfl
  | some id =>
    cases id with
    | «local» id => exact Or.inr ⟨id, rfl⟩
    | xa formatId globalTransactionId branchQualifier =>
      rw [hid] at hXA
      cases hXA

theorem Agrees.ended (h : Ended l.registered l.context.calls l'.context) (hregistered : l'.registered = l.untold l'.context) :
    Agrees l' := by
  have hid : l'.context.transactionId = none := Option.not_isSome_iff_eq_none.mp (by
    rw [← isInTransaction, h.notInTransaction]
    exact Bool.false_ne_true)
  have hempty : l'.registered = [] := by
    rw [hregistered, untold, filter_eq_nil_iff]
    intro sync hsync
    rw [h.told sync hsync]
    decide
  refine ⟨by rw [isInXATransaction, hid], by rw [h.synchronizations]; exact nodup_nil, fun id hsome => ?_,
    fun _ => hempty⟩
  rw [hid] at hsome
  cases hsome

theorem Agrees.outside_step (h : Agrees l) (hid : l.context.transactionId = none) {called : List (ContextCall κ σ)}
    (hcontext : l'.context = l.context.record called) (hregistered : l'.registered = l.untold l'.context) : Agrees l' := by
  refine ⟨by rw [hcontext]; exact h.notXA, by rw [hcontext]; exact h.nodup, fun id hsome => ?_, fun _ => ?_⟩
  · rw [hcontext, record, hid] at hsome
    cases hsome
  · rw [hregistered, untold, h.outside hid, filter_nil]

theorem delivers_iff (l : Ledger κ σ) (call : LocalCall σ) (h : Agrees l) : Delivers oracle l call ↔ Answered oracle l call := by
  cases call with
  | begin =>
    refine iff_of_true (fun sync hsync => ?_) trivial
    rcases h.transactionId with hid | ⟨id, hid⟩
    · rw [h.outside hid] at hsync
      cases hsync
    · rw [LocalCall.run, begin_inside h.notXA hid]
      exact (h.inside _ hid sync).mp hsync
  | commit =>
    rw [Delivers, isInLocalTransaction_iff, forall_exists_index, Answered]
    exact forall_congr' fun id => imp_congr_right fun hid => ended_commit (h.pending hid) h.notXA hid
  | rollback =>
    rw [Delivers, isInLocalTransaction_iff, forall_exists_index, Answered]
    exact forall_congr' fun id => imp_congr_right fun hid => ended_rollback (h.pending hid) h.notXA hid
  | addSynchronization sync => exact Iff.rfl
  | removeSynchronization sync => exact Iff.rfl

theorem agrees_step (l : Ledger κ σ) (call : LocalCall σ) (l' : Ledger κ σ) (h : Agrees l) (hanswered : Answered oracle l call)
    (hstep : step oracle l call = some l') : Agrees l' := by
  cases call with
  | begin =>
    cases hstep
    rcases h.transactionId with hid | ⟨id, hid⟩
    · obtain ⟨hempty, hXA⟩ : (stateOf (begin oracle l.context)).synchronizations = [] ∧
          (stateOf (begin oracle l.context)).isInXATransaction = false := begin_outside hid
      refine ⟨hXA, ?_, fun _ _ sync => ?_, fun _ => h.outside hid⟩
      · rw [LocalCall.run, hempty]
        exact nodup_nil
      · rw [LocalCall.run, hempty, h.outside hid]
    · rw [LocalCall.run, begin_inside h.notXA hid]
      exact h
  | commit =>
    cases hstep
    rcases h.transactionId with hid | ⟨id, hid⟩
    · obtain ⟨called, hcontext⟩ : ∃ called, stateOf (TransactionContext.commit oracle l.context) = l.context.record called :=
        commit_outside hid
      exact h.outside_step hid hcontext rfl
    · exact Agrees.ended ((ended_commit (h.pending hid) h.notXA hid).mpr (hanswered id hid)) rfl
  | rollback =>
    cases hstep
    rcases h.transactionId with hid | ⟨id, hid⟩
    · obtain ⟨called, hcontext⟩ : ∃ called, stateOf (TransactionContext.rollback oracle l.context) = l.context.record called :=
        rollback_outside hid
      exact h.outside_step hid hcontext rfl
    · exact Agrees.ended ((ended_rollback (h.pending hid) h.notXA hid).mpr (hanswered id hid)) rfl
  | addSynchronization sync =>
    cases hstep
    have hcontext : (l.context.addSynchronization sync).transactionId = l.context.transactionId := by
      rw [addSynchronization]
      split_ifs <;> rfl
    refine ⟨?_, nodup_addSynchronization sync h.nodup, fun id hid sync' => ?_, fun hid => ?_⟩
    · rw [LocalCall.run, isInXATransaction, hcontext, ← isInXATransaction]
      exact h.notXA
    · rw [LocalCall.run] at hid ⊢
      rw [hcontext] at hid
      rcases h.transactionId with hnone | ⟨id', hlocal⟩
      · rw [hnone] at hid
        cases hid
      · rw [if_pos (isInLocalTransaction_iff.mpr ⟨id', hlocal⟩), mem_cons, mem_addSynchronization,
          h.inside id hid sync']
    · rw [LocalCall.run, hcontext] at hid
      have hout : ¬ l.context.isInLocalTransaction = true := by rw [isInLocalTransaction, hid]; exact Bool.false_ne_true
      rw [if_neg hout]
      exact h.outside hid
  | removeSynchronization sync =>
    cases hstep
    refine ⟨h.notXA, h.nodup.erase sync, fun id hid sync' => ?_, fun hid => ?_⟩
    · rw [mem_filter, h.inside id hid sync', LocalCall.run, removeSynchronization, h.nodup.mem_erase_iff,
        decide_eq_true_iff, and_comm]
    · rw [h.outside hid, filter_nil]

/-- In the runs whose transactions end in answered requests, and in no others, the ends are told to everyone who is
registered. -/
theorem delivers_iff_answered (oracle : ContextOracle κ σ) (connectionId : κ) (calls : List (LocalCall σ)) :
    Always (step oracle) (Delivers oracle) ⟨{ connectionId }, []⟩ calls ↔
      Always (step oracle) (Answered oracle) ⟨{ connectionId }, []⟩ calls :=
  always_congr delivers_iff agrees_step ⟨rfl, nodup_nil, fun _ h => (by cases h), fun _ => rfl⟩ calls

/-- The request fails as the requests of a connection do, with an exception that is no `CMSException`. -/
theorem failed_request_untold :
    ¬ Always
      (step (κ := Nat) (σ := Nat)
        { fails := fun _ called => if called matches .send .commitOnePhase _ then some .activemq else none
          readOnly := fun _ => false })
      (Delivers
        { fails := fun _ called => if called matches .send .commitOnePhase _ then some .activemq else none
          readOnly := fun _ => false })
      ⟨{ connectionId := 1 }, []⟩ [.begin, .addSynchronization 7, .commit] := by
  rintro ⟨-, hbegun⟩
  obtain ⟨-, hadded⟩ := hbegun _ rfl
  obtain ⟨hcommitted, -⟩ := hadded _ rfl
  exact absurd (hcommitted (by decide)).synchronizations (by decide)

end Ledger

end ActiveMQCpp.Core
