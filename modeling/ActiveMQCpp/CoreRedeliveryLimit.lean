import ActiveMQCpp.CoreDelivery
import ActiveMQCpp.LibPreserves
import ActiveMQCpp.LibRuns

/-! How often a message is handed to the application. A rollback raises the redelivery counter of every message it
takes back, and looks at the one of the newest when it decides whether the limit is exceeded. -/

namespace ActiveMQCpp.Core

open Codec Runs Kernel List Moves

variable {μ : Type}
variable {s s' : Kernel μ}

/-! ### The messages of a consumer -/

def MessageDispatch.tally (d : MessageDispatch μ) : Nat × Int := (d.ref, d.message.redeliveryCounter)

def Kernel.out (s : Kernel μ) : List (Nat × Int) := s.deliveredMessages.map MessageDispatch.tally

def Kernel.pool (s : Kernel μ) : List (Nat × Int) := s.waiting.map MessageDispatch.tally

/-- No message is there that was not there before. -/
structure Fewer (s s' : Kernel μ) : Prop where
  out : s'.out.Sublist s.out
  pool : s'.pool.Subperm s.pool

instance : Std.Refl (Fewer (μ := μ)) := ⟨fun _ => ⟨.refl _, .refl _⟩⟩

instance : IsTrans (Kernel μ) Fewer := ⟨fun _ _ _ h h' => ⟨h'.out.trans h.out, h'.pool.trans h.pool⟩⟩

theorem Fewer.of_waiting (hdelivered : s'.deliveredMessages.Sublist s.deliveredMessages)
    (hwaiting : s'.waiting.Subperm s.waiting) : Fewer s s' := by
  obtain ⟨l, hperm, hsub⟩ := hwaiting
  exact ⟨hdelivered.map _, l.map _, hperm.map _, hsub.map _⟩

theorem Fewer.of_delivered (hdelivered : s'.deliveredMessages.Sublist s.deliveredMessages)
    (hwaiting : s'.waiting = s.waiting) : Fewer s s' :=
  .of_waiting hdelivered (hwaiting ▸ .refl _)

theorem Fewer.same (hdelivered : s'.deliveredMessages = s.deliveredMessages)
    (hwaiting : s'.waiting = s.waiting) : Fewer s s' :=
  .of_delivered (hdelivered ▸ .refl _) hwaiting

theorem SameBut.waiting {p : Kernel μ} (h : SameBut s p) : p.waiting = s.waiting := by
  rw [Kernel.waiting, Kernel.waiting, h.unconsumedMessages, h.sessionMessages, h.dispatched, h.scheduled]

/-! ### Acknowledging -/

theorem fewer_sendAck (ack : MessageAck μ) : Moves Fewer (sendAck ack) := by
  intro s
  rw [sendAck]
  split_ifs
  · exact refl_of Fewer s
  · exact .same rfl rfl

theorem fewer_doStartTransaction (setup : Setup) : Moves Fewer (doStartTransaction setup : Act μ Unit) := by
  refine moves_modify fun s => ?_
  split_ifs
  · exact .same rfl rfl
  · exact refl_of Fewer s

theorem fewer_registerSync (setup : Setup) : Moves Fewer (registerSync setup : Act μ Unit) := by
  rw [registerSync]
  exact (fewer_doStartTransaction setup).bind fun _ => moves_modify fun s => .same rfl rfl

theorem fewer_sendSuperseded (ackType : AckType) (old : Option (MessageAck μ)) :
    Moves Fewer (sendSuperseded ackType old) := by
  cases old with
  | none => exact moves_pure _
  | some ack =>
    rw [sendSuperseded]
    exact ite (fewer_sendAck ack) (moves_pure _)

theorem fewer_sendPending (pending : Option (MessageAck μ)) : Moves Fewer (pending.forM sendAck : Act μ Unit) := by
  cases pending with
  | none => exact moves_pure _
  | some ack => exact fewer_sendAck ack

theorem fewer_ackLater (setup : Setup) (d : MessageDispatch μ) (ackType : AckType) :
    Moves Fewer (ackLater setup d ackType) := by
  rw [ackLater]
  refine moves_get_bind fun s => moves_when (fewer_registerSync setup) ?_ s
  refine (moves_modify fun s => .same rfl rfl).bind fun _ => moves_get_bind fun s => bind ?_ (fun _ => ?_) s
  · exact moves_modify fun s => .same rfl rfl
  · refine (fewer_sendSuperseded ackType s.pendingAck).bind fun _ => ?_
    refine moves_when (moves_modify fun s => .same rfl rfl) (moves_get_bind fun s => ?_)
    refine ite ?_ (moves_pure _) s
    exact (fewer_sendPending s.pendingAck).bind fun _ => moves_modify fun s => .same rfl rfl

theorem fewer_immediateIndividualTransactedAck (setup : Setup) (d : MessageDispatch μ) :
    Moves Fewer (immediateIndividualTransactedAck setup d) := by
  rw [immediateIndividualTransactedAck]
  exact (fewer_registerSync setup).bind fun _ => moves_get_bind fun s => fewer_sendAck _ s

theorem fewer_acknowledgeDispatch (d : MessageDispatch μ) (ackType : AckType) :
    Moves Fewer (acknowledgeDispatch d ackType) := by
  rw [acknowledgeDispatch]
  exact (fewer_sendAck _).bind fun _ => moves_modify fun s => .of_delivered eraseP_sublist rfl

theorem fewer_sendPendingAck : Moves Fewer (do
    let s : Kernel μ ← get
    if s.deliveredCounter > 0 then
      match s.pendingAck with
      | none => pure ()
      | some pending =>
        sendAck pending
        modify fun s => { s with pendingAck := none, deliveredCounter := 0 } : Act μ Unit) := by
  refine moves_get_bind fun s => ite ?_ (moves_pure _) s
  cases s.pendingAck with
  | none => exact moves_pure _
  | some pending => exact (fewer_sendAck pending).bind fun _ => moves_modify fun s => .same rfl rfl

theorem fewer_sendOptimizedAcks (now : Int) : Moves Fewer (sendOptimizedAcks now : Act μ Unit) := by
  rw [sendOptimizedAcks]
  refine moves_get_bind fun s => ?_
  cases makeAckForAllDeliveredMessages .consumed s with
  | none => exact fewer_sendPendingAck s
  | some ack =>
    refine bind (moves_modify fun s => .of_delivered (nil_sublist _) rfl) (fun _ => ?_) s
    refine (fewer_sendAck ack).bind fun _ => ?_
    exact (moves_modify fun s => .same rfl rfl).bind fun _ => fewer_sendPendingAck

theorem fewer_ackDelivered (setup : Setup) (now : Int) : Moves Fewer (ackDelivered setup now : Act μ Unit) := by
  rw [ackDelivered]
  refine moves_get_bind fun s => ite (moves_pure _) (ite ?_ ?_) s
  · refine (moves_modify fun s => .same rfl rfl).bind fun _ => moves_get_bind fun s => ?_
    exact ite (fewer_sendOptimizedAcks now) (moves_pure _) s
  · cases makeAckForAllDeliveredMessages .consumed s with
    | none => exact moves_pure _
    | some ack =>
      refine bind (moves_modify fun s => .of_delivered (nil_sublist _) rfl) fun _ => ?_
      exact fewer_sendAck ack

theorem fewer_afterMessageIsConsumed (setup : Setup) (now : Int) (d : MessageDispatch μ) (messageExpired : Bool) :
    Moves Fewer (afterMessageIsConsumed setup now d messageExpired) := by
  rw [afterMessageIsConsumed]
  refine moves_get_bind fun s => ?_
  split_ifs
  · exact refl_of Fewer s
  · exact fewer_acknowledgeDispatch d .expired s
  · exact refl_of Fewer s
  · exact refl_of Fewer s
  · refine bind (moves_modify fun s => .same rfl rfl) (fun _ => ?_) s
    exact (fewer_ackDelivered setup now).bind fun _ => moves_modify fun s => .same rfl rfl
  · exact fewer_ackLater setup d .consumed s
  · exact fewer_ackLater setup d .delivered s
  · exact refl_of Fewer s
  · exact refl_of Fewer s

theorem fewer_deliverAcks (setup : Setup) : Moves Fewer (deliverAcks setup : Act μ Unit) := by
  refine moves_modify fun s => ?_
  have htake : Fewer s (takeAck setup s).2 := by
    rw [takeAck]
    split_ifs
    · cases makeAckForAllDeliveredMessages .consumed s with
      | none => exact .same rfl rfl
      | some ack => exact .of_delivered (nil_sublist _) rfl
    · cases s.pendingAck with
      | none => exact refl_of Fewer s
      | some pending =>
        simp only
        split_ifs
        · exact .same rfl rfl
        · exact refl_of Fewer s
  split_ifs
  · exact refl_of Fewer s
  · generalize takeAck setup s = taken at htake
    obtain ⟨ack, s'⟩ := taken
    cases ack with
    | none => exact htake
    | some ack => exact ⟨htake.out, htake.pool⟩

theorem fewer_runAckTask : Moves Fewer (runAckTask : Act μ Unit) := by
  intro s
  rw [runAckTask]
  cases s.submitted with
  | nil => exact refl_of Fewer s
  | cons ack rest =>
    have hsend := fewer_sendAck ack { s with submitted := rest }
    exact ⟨hsend.out, hsend.pool⟩

theorem fewer_setOptimizeAcknowledge (setup : Setup) (value : Bool) :
    Moves Fewer (setOptimizeAcknowledge setup value : Act μ Unit) := by
  rw [setOptimizeAcknowledge]
  refine moves_get_bind fun s => ?_
  refine moves_when (fewer_deliverAcks setup) ?_ s
  exact moves_modify fun s => .same rfl rfl

/-! ### Interruptions and tasks -/

theorem fewer_clearMessagesInProgress (setup : Setup) : Moves Fewer (clearMessagesInProgress setup : Act μ Unit) := by
  refine moves_modify fun s => ?_
  by_cases hflag : s.inProgressClearRequiredFlag > 0
  · rw [if_pos hflag]
    refine .of_waiting (.refl _) (List.Sublist.subperm ?_)
    simp only [waiting, removeAll, clear_messages, nil_append]
    exact sublist_append_right _ _
  · rw [if_neg hflag]
    exact refl_of Fewer s

theorem fewer_start : Moves Fewer (start : Act μ Unit) := by
  refine moves_modify fun s => ?_
  split_ifs
  · exact refl_of Fewer s
  · refine .same rfl ?_
    simp only [waiting, start_held]

theorem runRedeliveryTask_dispatched (redeliveries : List (MessageDispatch μ)) (s : Kernel μ) :
    ∃ given, given.Sublist redeliveries ∧
      runRedeliveryTask redeliveries s = .ok () { s with dispatched := s.dispatched ++ given } := by
  cases hclosed : s.unconsumedMessages.closed with
  | false => exact ⟨redeliveries, .refl _, runRedeliveryTask_run redeliveries s hclosed⟩
  | true =>
    refine ⟨[], nil_sublist _, ?_⟩
    rw [append_nil]
    cases redeliveries with
    | nil => rfl
    | cons d redeliveries => rw [runRedeliveryTask, bind_ok (get_run s), if_pos hclosed, pure_run]

theorem flatMap_eraseIdx_perm {α β : Type} (f : α → List β) (l : List α) (i : Nat) {a : α} (h : l[i]? = some a) :
    (f a ++ (l.eraseIdx i).flatMap f).Perm (l.flatMap f) := by
  induction l generalizing i with
  | nil => cases h
  | cons b l ih =>
    cases i with
    | zero =>
      cases h
      exact .refl _
    | succ i =>
      rw [eraseIdx_cons_succ, flatMap_cons, flatMap_cons]
      exact (perm_append_comm_assoc _ _ _).trans ((ih i h).append_left _)

theorem fewer_runTask (index : Nat) : Moves Fewer (runTask index : Act μ Unit) := by
  rw [runTask]
  refine moves_get_bind fun s => ?_
  cases hentry : s.scheduled[index]? with
  | none => exact refl_of Fewer s
  | some entry =>
    obtain ⟨task, delay⟩ := entry
    have hperm := flatMap_eraseIdx_perm (fun t => t.1.messages) s.scheduled index hentry
    simp only
    rw [bind_ok (modify_run _ s)]
    cases task with
    | startConsumer =>
      have hfirst : Fewer s { s with scheduled := s.scheduled.eraseIdx index } := by
        refine .of_waiting (.refl _) (List.Perm.subperm ?_)
        exact ((hperm.append_left _).append_left _).append_left _
      exact trans_of Fewer hfirst (fewer_start _)
    | nonBlockingRedelivery redeliveries =>
      obtain ⟨given, hgiven, hrun⟩ := runRedeliveryTask_dispatched redeliveries
        { s with scheduled := s.scheduled.eraseIdx index }
      simp only [hrun, stateOf]
      refine .of_waiting (.refl _) ?_
      simp only [waiting, append_assoc, subperm_append_left]
      exact (hgiven.append_right _).subperm.trans hperm.subperm

section Ids

variable [DecidableEq μ]

theorem fewer_clearDeliveredList (setup : Setup) : Moves Fewer (clearDeliveredList setup : Act μ Unit) := by
  intro s
  obtain ⟨s₁, hrun, hsub, -⟩ := clearDeliveredList_run setup s
  obtain ⟨s₂, hrun', hsame, -⟩ := clearDeliveredList_same setup s
  cases hrun.symm.trans hrun'
  rw [hrun]
  exact .of_delivered hsub hsame.waiting

omit [DecidableEq μ] in
theorem fewer_rollbackOnFailedRecoveryRedelivery : Moves Fewer (rollbackOnFailedRecoveryRedelivery : Act μ Unit) := by
  intro s
  rw [rollbackOnFailedRecoveryRedelivery]
  split
  · exact refl_of Fewer s
  · simp only
    split_ifs <;> exact refl_of Fewer s

theorem fewer_acknowledge (setup : Setup) : Moves Fewer (acknowledge setup : Act μ Unit) := by
  rw [acknowledge]
  refine (fewer_clearDeliveredList setup).bind fun _ => moves_get_bind fun s => ?_
  cases makeAckForAllDeliveredMessages .consumed s with
  | none => exact refl_of Fewer s
  | some ack =>
    have hsend : Moves Fewer (do
        modify fun s => { s with pendingAck := none }
        let s ← get
        sendAck (if isTransacted setup s then { ack with transactionId := s.transactionId } else ack)
        modify fun s =>
          { s with
            deliveredCounter := max 0 (s.deliveredCounter - s.deliveredMessages.length)
            additionalWindowSize := max 0 (s.additionalWindowSize - s.deliveredMessages.length)
            deliveredMessages := if isTransacted setup s then s.deliveredMessages else [] } : Act μ Unit) := by
      refine (moves_modify fun s => .same rfl rfl).bind fun _ => ?_
      refine moves_get_bind fun s => bind (fewer_sendAck _) (fun _ => moves_modify fun s => ?_) s
      refine .of_delivered ?_ rfl
      simp only
      split_ifs
      · exact .refl _
      · exact nil_sublist _
    split_ifs
    · refine bind fewer_rollbackOnFailedRecoveryRedelivery (fun _ => ?_) s
      exact (fewer_doStartTransaction setup).bind fun _ => hsend
    · exact hsend s

end Ids

/-! ### The tally -/

/-- No message has been handed out more often than its redelivery counter says, and none of those that wait has
been handed out more often than the limit allows. -/
structure Tally (N : Int) (handed arrived : List Nat) (out pool : List (Nat × Int)) : Prop where
  nodup : ((out ++ pool).map Prod.fst).Nodup
  known : ∀ e ∈ out ++ pool, e.1 ∈ arrived
  early : ∀ r ∈ handed, r ∈ arrived
  out : ∀ e ∈ out, (handed.count e.1 : Int) ≤ e.2 + 1
  pool : ∀ e ∈ pool, (handed.count e.1 : Int) ≤ e.2 ∧ (handed.count e.1 : Int) ≤ N
  limit : ∀ r, (handed.count r : Int) ≤ N + 1

def raise (e : Nat × Int) : Nat × Int := (e.1, e.2 + 1)

section Tally

variable {N : Int} {handed arrived : List Nat} {out out' pool pool' : List (Nat × Int)} {e : Nat × Int}

theorem Tally.fewer (h : Tally N handed arrived out pool) (hout : out'.Sublist out) (hpool : pool'.Subperm pool) :
    Tally N handed arrived out' pool' := by
  have hsub : (out' ++ pool').Subperm (out ++ pool) := hout.subperm.append hpool
  obtain ⟨l, hperm, hl⟩ := hsub
  refine ⟨?_, fun e he => ?_, h.early, fun e he => h.out e (hout.subset he), fun e he => h.pool e (hpool.subset he),
    h.limit⟩
  · exact ((hperm.map _).nodup_iff).mp (h.nodup.sublist (hl.map _))
  · exact h.known e (hl.subset (hperm.mem_iff.mpr he))

theorem Tally.arrive (h : Tally N handed arrived out pool) (hnew : e.1 ∉ arrived) (hcounter : 0 ≤ e.2) (hlimit : 0 ≤ N) :
    Tally N handed (e.1 :: arrived) out (e :: pool) := by
  have hnever : handed.count e.1 = 0 := count_eq_zero.mpr fun hmem => hnew (h.early e.1 hmem)
  refine ⟨?_, fun f hf => ?_, fun r hr => mem_cons_of_mem _ (h.early r hr), h.out, fun f hf => ?_, h.limit⟩
  · rw [(perm_middle.map Prod.fst).nodup_iff, map_cons, nodup_cons]
    refine ⟨fun hmem => ?_, h.nodup⟩
    obtain ⟨f, hf, hsame⟩ := mem_map.mp hmem
    exact hnew (hsame ▸ h.known f hf)
  · rcases mem_cons.mp (perm_middle.mem_iff.mp hf) with rfl | hf
    · exact mem_cons_self
    · exact mem_cons_of_mem _ (h.known f hf)
  · rcases mem_cons.mp hf with rfl | hf
    · rw [hnever]
      exact ⟨hcounter, hlimit⟩
    · exact h.pool f hf

theorem Tally.deliver (h : Tally N handed arrived out (e :: pool)) : Tally N handed arrived (e :: out) pool := by
  refine ⟨?_, fun f hf => ?_, h.early, fun f hf => ?_, fun f hf => h.pool f (mem_cons_of_mem _ hf), h.limit⟩
  · exact ((perm_middle.map Prod.fst).nodup_iff).mp h.nodup
  · exact h.known f (perm_middle.mem_iff.mpr hf)
  · rcases mem_cons.mp hf with rfl | hf
    · have hcount := (h.pool f mem_cons_self).1
      omega
    · exact h.out f hf

theorem Tally.hand (h : Tally N handed arrived out (e :: pool)) :
    Tally N (handed ++ [e.1]) arrived (e :: out) pool := by
  have hfirst := h.pool e mem_cons_self
  have hnodup := h.deliver.nodup
  have hcount : ∀ r, (handed ++ [e.1]).count r = handed.count r + if r = e.1 then 1 else 0 := by
    intro r
    rw [count_append, count_singleton]
    simp only [beq_iff_eq]
    rw [if_congr eq_comm rfl rfl]
  have hother : ∀ f ∈ out ++ pool, (handed ++ [e.1]).count f.1 = handed.count f.1 := by
    intro f hf
    rw [cons_append, map_cons, nodup_cons] at hnodup
    rw [hcount, if_neg fun hsame => hnodup.1 (mem_map.mpr ⟨f, hf, hsame⟩), Nat.add_zero]
  refine ⟨hnodup, h.deliver.known, fun r hr => ?_, fun f hf => ?_, fun f hf => ?_, fun r => ?_⟩
  · rcases mem_append.mp hr with hr | hr
    · exact h.early r hr
    · rw [mem_singleton.mp hr]
      exact h.known e (mem_append_right _ mem_cons_self)
  · rcases mem_cons.mp hf with rfl | hf
    · rw [hcount, if_pos rfl]
      omega
    · rw [hother f (mem_append_left _ hf)]
      exact h.out f hf
  · rw [hother f (mem_append_right _ hf)]
    exact h.pool f (mem_cons_of_mem _ hf)
  · rw [hcount]
    by_cases hsame : r = e.1
    · rw [if_pos hsame, hsame]
      omega
    · rw [if_neg hsame]
      exact h.limit r

theorem raise_fst (l : List (Nat × Int)) : (l.map raise).map Prod.fst = l.map Prod.fst := by
  rw [map_map]
  rfl

theorem Tally.keep (h : Tally N handed arrived out pool) : Tally N handed arrived (out.map raise) pool := by
  refine ⟨?_, fun f hf => ?_, h.early, fun f hf => ?_, h.pool, h.limit⟩
  · rw [map_append, raise_fst, ← map_append]
    exact h.nodup
  · rcases mem_append.mp hf with hf | hf
    · obtain ⟨e, he, rfl⟩ := mem_map.mp hf
      exact h.known e (mem_append_left _ he)
    · exact h.known f (mem_append_right _ hf)
  · obtain ⟨e, he, rfl⟩ := mem_map.mp hf
    have hcount := h.out e he
    simp only [raise]
    omega

theorem Tally.requeue (h : Tally N handed arrived out pool) (hlimit : ∀ e ∈ out, e.2 + 1 ≤ N) :
    Tally N handed arrived [] (out.map raise ++ pool) := by
  have hkeep := h.keep
  refine ⟨hkeep.nodup, hkeep.known, h.early, fun f hf => absurd hf not_mem_nil, fun f hf => ?_, h.limit⟩
  rcases mem_append.mp hf with hf | hf
  · obtain ⟨e, he, rfl⟩ := mem_map.mp hf
    have hcount := h.out e he
    have hle := hlimit e he
    simp only [raise]
    omega
  · exact h.pool f hf

end Tally

section Ids

variable [DecidableEq μ]
variable {s : Kernel μ} {call : Call μ}

/-! ### Messages that are handed out -/

/-- A message that the consumer was given has been delivered. -/
structure Delivers (d : MessageDispatch μ) (s s' : Kernel μ) : Prop where
  out : s'.out.Sublist (d.tally :: s.out)
  pool : s'.pool.Subperm s.pool

/-- A message that the consumer was given waits with the others. -/
structure Enqueues (d : MessageDispatch μ) (s s' : Kernel μ) : Prop where
  out : s'.out.Sublist s.out
  pool : s'.pool.Subperm (d.tally :: s.pool)

def handedOver : EStateM.Result Fault (Kernel μ) Bool → Bool
  | .ok handed _ => handed
  | .error _ _ => false

def Places (d : MessageDispatch μ) (s : Kernel μ) (run : EStateM.Result Fault (Kernel μ) Bool) : Prop :=
  Delivers d s (stateOf run) ∨ Enqueues d s (stateOf run) ∧ handedOver run = false

section Places

omit [DecidableEq μ]

variable {d : MessageDispatch μ} {s s₁ s₂ : Kernel μ}

theorem Fewer.delivers (h : Fewer s s₁) (d : MessageDispatch μ) : Delivers d s s₁ :=
  ⟨h.out.trans (sublist_cons_self _ _), h.pool⟩

theorem Fewer.delivers_after (h : Fewer s s₁) (h' : Delivers d s₁ s₂) : Delivers d s s₂ :=
  ⟨h'.out.trans (h.out.cons_cons _), h'.pool.trans h.pool⟩

theorem Delivers.fewer (h : Delivers d s s₁) (h' : Fewer s₁ s₂) : Delivers d s s₂ :=
  ⟨h'.out.trans h.out, h'.pool.trans h.pool⟩

theorem Places.after {run : EStateM.Result Fault (Kernel μ) Bool} (h : Fewer s s₁) (h' : Places d s₁ run) :
    Places d s run := by
  rcases h' with hdelivers | ⟨henqueues, hnot⟩
  · exact .inl (h.delivers_after hdelivers)
  · exact .inr ⟨⟨henqueues.out.trans h.out, henqueues.pool.trans ((subperm_cons _).mpr h.pool)⟩, hnot⟩

theorem fewer_places {m : Act μ Bool} (h : Moves Fewer m) (d : MessageDispatch μ) (s : Kernel μ) : Places d s (m s) :=
  .inl ((h s).delivers d)

theorem places_bind {m : Act μ Unit} {f : Unit → Act μ Bool} (hm : Moves (Delivers d) m)
    (hf : ∀ u, Moves Fewer (f u)) (s : Kernel μ) : Places d s ((m >>= f) s) :=
  .inl (hm.followedBy hf (fun _ _ h => h) (fun _ _ _ h h' => h.fewer h') s)

theorem beforeMessageIsConsumed_delivers (setup : Setup) (d : MessageDispatch μ) :
    Moves (Delivers d) (beforeMessageIsConsumed setup d) := by
  rw [beforeMessageIsConsumed]
  refine followedBy (R := Fewer) (moves_modify fun s => .same rfl rfl) (fun _ => ?_) (fun _ _ h => h.delivers d)
    fun _ _ _ h h' => h.delivers_after h'
  refine ite (fun s => (refl_of Fewer s).delivers d) ?_
  refine followedBy (moves_modify fun s => ⟨.refl _, .refl _⟩) (fun _ => ?_) (fun _ _ h => h)
    fun _ _ _ h h' => h.fewer h'
  refine moves_get_bind fun s => ite (ite ?_ ?_) (moves_pure _) s
  · exact fewer_immediateIndividualTransactedAck setup d
  · exact fewer_ackLater setup d .delivered

theorem enqueue_messages (d : MessageDispatch μ) (c : MessageDispatchChannel μ) :
    (enqueue d c).held.messages.Perm (d :: c.held.messages) := by
  rw [enqueue]
  cases c.held with
  | fifo channel => exact perm_append_singleton d channel
  | priority channels =>
    have hlanes : Function.update channels (getChannel d) (channels (getChannel d) ++ [d])
        = fun i => channels i ++ if getChannel d = i then [d] else [] := by
      funext i
      by_cases hi : getChannel d = i
      · subst hi
        simp
      · rw [Function.update_of_ne (Ne.symm hi)]
        simp [hi]
    simp only [Channels.messages, hlanes]
    refine (flatMap_append_perm _ _ _).symm.trans ?_
    rw [lane_perm]
    exact perm_append_singleton d _

theorem fewer_posionAck (d : MessageDispatch μ) (cause : String) : Moves Fewer (posionAck d cause) := fewer_sendAck _

theorem fewer_rollbackDuplicate (message : Message μ) : Moves Fewer (rollbackDuplicate message) :=
  moves_modify fun _ => .same rfl rfl

theorem enqueue_places (d : MessageDispatch μ) (s : Kernel μ) : Places d s ((do
      modify fun s => { s with unconsumedMessages := enqueue d s.unconsumedMessages }
      pure false : Act μ Bool) s) := by
  refine .inr ⟨⟨.refl _, ?_⟩, rfl⟩
  refine List.Perm.subperm ?_
  rw [pool, pool, ← map_cons]
  exact ((enqueue_messages d s.unconsumedMessages).append_right _).map _

end Places

omit [DecidableEq μ] in
theorem deliverNew_places (setup : Setup) (consumerId : String) (now : Int) (expired : Bool) (d : MessageDispatch μ)
    (s : Kernel μ) : Places d s (deliverNew setup consumerId now expired d s) := by
  rw [deliverNew, bind_ok (get_run s)]
  split_ifs
  · exact fewer_places ((fewer_posionAck d _).bind fun _ => moves_pure _) d s
  · refine places_bind (beforeMessageIsConsumed_delivers setup d) (fun _ => ?_) s
    exact (fewer_afterMessageIsConsumed setup now d true).bind fun _ => moves_pure _
  · exact places_bind (beforeMessageIsConsumed_delivers setup d) (fun _ => moves_pure _) s
  · exact (enqueue_places d _).after (fewer_rollbackDuplicate d.message s)
  · exact enqueue_places d s

theorem fewer_redeliveryExpectedInCurrentTransaction (setup : Setup) (d : MessageDispatch μ) (markReceipt : Bool) :
    Moves Fewer (redeliveryExpectedInCurrentTransaction setup d markReceipt) := by
  intro s
  rw [redeliveryExpectedInCurrentTransaction]
  split
  · exact refl_of Fewer s
  · simp only
    split_ifs
    · exact .same rfl rfl
    · exact refl_of Fewer s
    · exact refl_of Fewer s

omit [DecidableEq μ] in
theorem fewer_suppressDuplicate (setup : Setup) (consumerId : String) (d : MessageDispatch μ) (expected : Bool) :
    Moves Fewer (suppressDuplicate setup consumerId d expected) := by
  rw [suppressDuplicate]
  refine ite (ite ?_ (fewer_sendAck _)) (fewer_posionAck d _)
  exact fewer_immediateIndividualTransactedAck setup d

theorem dispatchAs_places (setup : Setup) {unseen seen : Act μ Bool} {d : MessageDispatch μ}
    (hunseen : ∀ s, Places d s (unseen s)) (hseen : ∀ s, Places d s (seen s)) (s : Kernel μ) :
    Places d s (dispatchAs setup unseen seen s) := by
  have hclear := fewer_clearMessagesInProgress setup s
  have hrun : clearMessagesInProgress setup s = .ok () (stateOf (clearMessagesInProgress setup s)) := rfl
  rw [dispatchAs, bind_ok hrun]
  obtain ⟨s₂, hrun₂, -⟩ := clearDeliveredList_run setup (stateOf (clearMessagesInProgress setup s))
  have hclear₂ := fewer_clearDeliveredList setup (stateOf (clearMessagesInProgress setup s))
  rw [hrun₂] at hclear₂
  rw [bind_ok hrun₂, bind_ok (get_run s₂)]
  refine Places.after (trans_of Fewer hclear hclear₂) ?_
  split_ifs
  · exact fewer_places (moves_pure false) d s₂
  · exact hunseen s₂
  · exact hseen s₂

theorem dispatch_places (setup : Setup) (consumerId : String) (now : Int) (expired : Bool) (d : MessageDispatch μ)
    (seen : Seen) (s : Kernel μ) : Places d s (dispatch setup consumerId now expired d seen s) := by
  have hnew := deliverNew_places setup consumerId now expired d
  induction seen generalizing s with
  | never => exact dispatchAs_places setup hnew hnew s
  | before =>
    refine dispatchAs_places setup hnew (fun s => ?_) s
    refine fewer_places ((fewer_redeliveryExpectedInCurrentTransaction setup d true).bind fun expected => ?_) d s
    exact (fewer_suppressDuplicate setup consumerId d expected).bind fun _ => moves_pure _
  | inCompetingTransaction next ih =>
    refine dispatchAs_places setup hnew (fun s => ?_) s
    have hexpected := fewer_redeliveryExpectedInCurrentTransaction setup d true s
    rw [bind_run]
    cases hrun : redeliveryExpectedInCurrentTransaction setup d true s with
    | error e s' =>
      rw [hrun] at hexpected
      exact .inl (hexpected.delivers d)
    | ok expected s' =>
      rw [hrun] at hexpected
      refine Places.after hexpected ?_
      cases expected with
      | true => exact fewer_places ((fewer_suppressDuplicate setup consumerId d true).bind fun _ => moves_pure _) d s'
      | false =>
        have hduplicate := fewer_rollbackDuplicate d.message s'
        exact (ih _).after hduplicate

theorem receive_places (setup : Setup) (consumerId : String) (now : Int) (expired : Bool) (d : MessageDispatch μ)
    (s : Kernel μ) : Places d s (receive setup consumerId now expired d s) := by
  rw [receive, bind_ok (get_run s)]
  split_ifs
  · refine places_bind (beforeMessageIsConsumed_delivers setup d) (fun _ => ?_) s
    refine (fewer_afterMessageIsConsumed setup now d true).bind fun _ => ?_
    exact (fewer_clearDeliveredList setup).bind fun _ => moves_pure _
  · refine fewer_places ((fewer_posionAck d _).bind fun _ => ?_) d s
    exact (fewer_clearDeliveredList setup).bind fun _ => moves_pure _
  · refine places_bind (beforeMessageIsConsumed_delivers setup d) (fun _ => ?_) s
    exact (fewer_afterMessageIsConsumed setup now d false).bind fun _ => moves_pure _

/-! ### Runs -/

/-- A consumer, the messages that have been handed to the application, one after the other, those that the broker
has dispatched, and those that a rollback has acknowledged as poison. -/
structure Delivering (μ : Type) where
  kernel : Kernel μ
  handed : List Nat := []
  arrived : List Nat := []
  poisoned : List (MessageDispatch μ) := []

/-- Where a message that the session gives to a consumer comes from. -/
inductive Source (μ : Type) where
  | broker (d : MessageDispatch μ)
  | redispatched
  | redelivered

inductive Event (μ : Type) where
  | dispatch (source : Source μ) (now : Int) (expired : Bool) (seen : Seen)
  | iterate (now : Int) (expired : Bool) (seen : Seen)
  | receive (now : Int) (expired : Bool)
  | call (call : Call μ)

/-- The message that the session gives next. What the broker dispatches is a new object, with the number of times
it has been redelivered before. -/
def Source.next (c : Delivering μ) : Source μ → Option (MessageDispatch μ × Delivering μ)
  | .broker d =>
    if d.ref ∈ c.arrived ∨ d.message.redeliveryCounter < 0 then none
    else some (d, { c with arrived := d.ref :: c.arrived })
  | .redispatched =>
    c.kernel.sessionMessages.held.removeFirst.map fun (d, held) =>
      (d, { c with kernel := { c.kernel with sessionMessages := { c.kernel.sessionMessages with held := held } } })
  | .redelivered =>
    match c.kernel.dispatched with
    | [] => none
    | d :: rest => some (d, { c with kernel := { c.kernel with dispatched := rest } })

/-- The next message of the consumer's own channel. -/
def Delivering.dequeue (c : Delivering μ) : Option (MessageDispatch μ × Delivering μ) :=
  (dequeueNoWait c.kernel.unconsumedMessages).map fun (d, channel) =>
    (d, { c with kernel := { c.kernel with unconsumedMessages := channel } })

def Delivering.take (c : Delivering μ) (d : MessageDispatch μ) (run : EStateM.Result Fault (Kernel μ) Bool) :
    Delivering μ :=
  { c with
    kernel := stateOf run
    handed := if handedOver run then c.handed ++ [d.ref] else c.handed }

/-- The messages that a rollback acknowledges as poison are all that it takes back, if it sends such an
acknowledgement. -/
def poisonedBy (setup : Setup) (s : Kernel μ) (call : Call μ) : List (MessageDispatch μ) :=
  match rollbackFrom setup s call with
  | none => []
  | some r =>
    if ((stateOf (rollback setup r)).sent.drop r.sent.length).any fun ack => ack.ackType = .poison then
      (r.takenBack setup).map MessageDispatch.redelivered
    else []

/-- The application gets messages through `dispatch` and `receive` only. -/
def deliveryStep (setup : Setup) (consumerId : String) (c : Delivering μ) : Event μ → Option (Delivering μ)
  | .dispatch source now expired seen =>
    (source.next c).map fun (d, c) => c.take d (dispatch setup consumerId now expired d seen c.kernel)
  | .iterate now expired seen =>
    if setup.hasListener then
      c.dequeue.map fun (d, c) => c.take d (dispatch setup consumerId now expired d seen c.kernel)
    else none
  | .receive now expired =>
    if setup.hasListener then none
    else c.dequeue.map fun (d, c) => c.take d (receive setup consumerId now expired d c.kernel)
  | .call (.beforeMessageIsConsumed _) => none
  | .call call =>
    some { c with
      kernel := stateOf (perform setup call c.kernel)
      poisoned := c.poisoned ++ poisonedBy setup c.kernel call }

/-- The newest of the messages that a rollback takes back has been redelivered too often exactly if the others
have. -/
def Agree (setup : Setup) (r : Kernel μ) : Prop :=
  ∀ newest ∈ (r.takenBack setup).head?, ∀ d ∈ r.takenBack setup, isPoison setup d = isPoison setup newest

def AgreeAt (setup : Setup) (c : Delivering μ) : Event μ → Prop
  | .call call => ∀ r ∈ rollbackFrom setup c.kernel call, Agree setup r
  | _ => True

def Delivering.start (s : Kernel μ) : Delivering μ where
  kernel :=
    { s.created with
      unconsumedMessages := { s.unconsumedMessages with held := s.unconsumedMessages.held.clear }
      sessionMessages := { s.sessionMessages with held := s.sessionMessages.held.clear }
      dispatched := []
      scheduled := [] }

structure Delivering.Limited (N : Int) (c : Delivering μ) : Prop extends
    Tally N c.handed c.arrived c.kernel.out c.kernel.pool where
  poisoned : ∀ d ∈ c.poisoned, N < d.message.redeliveryCounter

/-! ### What the steps do to the tally -/

omit [DecidableEq μ] in
theorem one_lane (i : Fin 10) (d : MessageDispatch μ) :
    ((List.finRange 10).reverse.flatMap fun j => if i = j then [d] else []) = [d] := by
  fin_cases i <;> rfl

omit [DecidableEq μ] in
theorem removeFirst_perm {c c' : Channels μ} {d : MessageDispatch μ} (h : c.removeFirst = some (d, c')) :
    c.messages.Perm (d :: c'.messages) := by
  cases c with
  | fifo channel =>
    cases channel with
    | nil => cases h
    | cons first rest =>
      cases h
      exact .refl _
  | priority channels =>
    obtain ⟨i, -, hi⟩ := Option.bind_eq_some_iff.mp h
    cases hlane : channels i with
    | nil =>
      rw [hlane] at hi
      cases hi
    | cons first rest =>
      rw [hlane] at hi
      cases hi
      have hlanes : channels = fun j => (if i = j then [d] else []) ++ Function.update channels i rest j := by
        funext j
        by_cases hj : i = j
        · subst hj
          simp [hlane]
        · rw [Function.update_of_ne (Ne.symm hj)]
          simp [hj]
      have hperm := (flatMap_append_perm (List.finRange 10).reverse (fun j => if i = j then [d] else [])
        (Function.update channels i rest)).symm
      rw [← hlanes, one_lane] at hperm
      exact hperm

section Limited

omit [DecidableEq μ]

variable {N : Int} {c c' : Delivering μ} {d : MessageDispatch μ}

theorem Tally.taken {s s' : Kernel μ} {handed arrived : List Nat} (h : Tally N handed arrived s.out s.pool)
    (hdelivered : s'.deliveredMessages = s.deliveredMessages) (hwaiting : s.waiting.Perm (d :: s'.waiting)) :
    Tally N handed arrived s'.out (d.tally :: s'.pool) := by
  have hout : s'.out = s.out := by rw [Kernel.out, hdelivered, Kernel.out]
  rw [hout]
  exact h.fewer (.refl _) (hwaiting.symm.map MessageDispatch.tally).subperm

theorem next_tally (h : c.Limited N) (hlimit : 0 ≤ N) {source : Source μ} (hnext : source.next c = some (d, c')) :
    Tally N c'.handed c'.arrived c'.kernel.out (d.tally :: c'.kernel.pool) ∧ c'.poisoned = c.poisoned := by
  cases source with
  | broker e =>
    rw [Source.next] at hnext
    split_ifs at hnext with hnew
    cases hnext
    rw [not_or, not_lt] at hnew
    exact ⟨h.toTally.arrive (e := d.tally) hnew.1 hnew.2 hlimit, rfl⟩
  | redispatched =>
    obtain ⟨⟨e, held⟩, hfirst, heq⟩ := Option.map_eq_some_iff.mp hnext
    cases heq
    refine ⟨h.toTally.taken rfl ?_, rfl⟩
    have hperm := (removeFirst_perm hfirst).append_right
      (c.kernel.dispatched ++ c.kernel.scheduled.flatMap fun t => t.1.messages)
    exact (hperm.append_left _).trans perm_middle
  | redelivered =>
    rw [Source.next] at hnext
    cases hdispatched : c.kernel.dispatched with
    | nil =>
      rw [hdispatched] at hnext
      cases hnext
    | cons e rest =>
      rw [hdispatched] at hnext
      cases hnext
      refine ⟨h.toTally.taken rfl ?_, rfl⟩
      rw [waiting, hdispatched]
      exact (perm_middle.append_left _).trans perm_middle

theorem dequeue_tally (h : c.Limited N) (hnext : c.dequeue = some (d, c')) :
    Tally N c'.handed c'.arrived c'.kernel.out (d.tally :: c'.kernel.pool) ∧ c'.poisoned = c.poisoned := by
  obtain ⟨⟨e, channel⟩, hfirst, heq⟩ := Option.map_eq_some_iff.mp hnext
  cases heq
  refine ⟨h.toTally.taken rfl ?_, rfl⟩
  rw [dequeueNoWait] at hfirst
  split_ifs at hfirst
  obtain ⟨⟨e, held⟩, hremove, heq⟩ := Option.map_eq_some_iff.mp hfirst
  cases heq
  exact (removeFirst_perm hremove).append_right _

theorem take_limited (h : Tally N c.handed c.arrived c.kernel.out (d.tally :: c.kernel.pool))
    (hpoisoned : ∀ d ∈ c.poisoned, N < d.message.redeliveryCounter) {run : EStateM.Result Fault (Kernel μ) Bool}
    (hplaces : Places d c.kernel run) : (c.take d run).Limited N := by
  refine ⟨?_, hpoisoned⟩
  rcases hplaces with hdelivers | ⟨henqueues, hnot⟩
  · simp only [Delivering.take]
    split_ifs
    · exact h.hand.fewer hdelivers.out hdelivers.pool
    · exact h.deliver.fewer hdelivers.out hdelivers.pool
  · simp only [Delivering.take, hnot]
    exact h.fewer henqueues.out henqueues.pool

theorem setRollbackCause_fewer (d : MessageDispatch μ) (cause : String) (s : Kernel μ) :
    Fewer s (setRollbackCause d cause s) := by
  have hout : (setRollbackCause d cause s).out = s.out := by
    rw [out, setRollbackCause, map_map, out]
    refine map_congr_left fun e _ => ?_
    simp only [Function.comp_apply]
    split_ifs <;> rfl
  exact ⟨hout ▸ .refl _, .refl _⟩

end Limited

theorem fewer_perform (setup : Setup) (hnone : rollbackFrom setup s call = none)
    (hbefore : ∀ d, call ≠ .beforeMessageIsConsumed d) : Fewer s (stateOf (perform setup call s)) := by
  cases call with
  | beforeMessageIsConsumed d => exact absurd rfl (hbefore d)
  | afterMessageIsConsumed now d messageExpired => exact fewer_afterMessageIsConsumed setup now d messageExpired s
  | ackLater d ackType => exact fewer_ackLater setup d ackType s
  | deliverAcks => exact fewer_deliverAcks setup s
  | runAckTask => exact fewer_runAckTask s
  | acknowledge => exact fewer_acknowledge setup s
  | acknowledgeDispatch d => exact fewer_acknowledgeDispatch d .individual s
  | commit => exact .of_delivered (nil_sublist _) rfl
  | rollback => cases hnone
  | listenerThrew now d cause =>
    rw [perform, listenerThrew, bind_ok (modify_run _ s)]
    rw [rollbackFrom] at hnone
    split_ifs at hnone ⊢
    exact trans_of Fewer (setRollbackCause_fewer d cause s) (fewer_afterMessageIsConsumed setup now d false _)
  | inProgressClearRequired => exact .same rfl rfl
  | clearMessagesInProgress => exact fewer_clearMessagesInProgress setup s
  | clearDeliveredList => exact fewer_clearDeliveredList setup s
  | setOptimizeAcknowledge value => exact fewer_setOptimizeAcknowledge setup value s
  | posionAck d cause => exact fewer_posionAck d cause s
  | runTask index => exact fewer_runTask index s
  | session transactionId inXATransaction failAt => exact .same rfl rfl
  | channel running closed => exact .same rfl rfl

theorem rollbackFrom_fewer (setup : Setup) {r : Kernel μ}
    (hsome : rollbackFrom setup s call = some r) : Fewer s r := by
  rcases (perform_eq_rollback setup hsome).2 with rfl | ⟨d, cause, rfl⟩
  · exact refl_of Fewer r
  · exact setRollbackCause_fewer d cause s

omit [DecidableEq μ] in
theorem isPoison_eq (setup : Setup) (hlimit : 0 ≤ setup.maximumRedeliveries) (d : MessageDispatch μ) :
    isPoison setup d = decide (setup.maximumRedeliveries < d.message.redeliveryCounter + 1) := by
  have hsome : setup.maximumRedeliveries ≠ noMaximumRedeliveries := by
    rw [noMaximumRedeliveries]
    omega
  simp [isPoison, hsome]

omit [DecidableEq μ] in
theorem Verdict.tally {setup : Setup} {p s' : Kernel μ} {handed arrived : List Nat} (hverdict : Verdict setup p s')
    (hlimit : 0 ≤ setup.maximumRedeliveries)
    (hagree : ∀ newest ∈ p.deliveredMessages.head?, ∀ d ∈ p.deliveredMessages, isPoison setup d = isPoison setup newest)
    (h : Tally setup.maximumRedeliveries handed arrived p.out p.pool) :
    Tally setup.maximumRedeliveries handed arrived s'.out s'.pool := by
  have hraise : (p.deliveredMessages.map MessageDispatch.redelivered).map MessageDispatch.tally = p.out.map raise := by
    rw [out, map_map, map_map]
    rfl
  have hnil : s'.deliveredMessages = [] → s'.out = [] := fun hdelivered => by rw [out, hdelivered, map_nil]
  cases hverdict with
  | nothing hempty hsame => exact hsame ▸ h
  | kept newest hnewest hforgets hdelivered hwaiting hcounter hwindow hsends =>
    rw [out, hdelivered, hraise]
    exact h.keep.fewer (.refl _) (hwaiting.map _).subperm
  | poisoned newest hnewest hforgets hpoison hdelivered hwaiting hcounter hwindow hsends =>
    rw [hnil hdelivered]
    exact h.fewer (nil_sublist _) (hwaiting.map _).subperm
  | moved newest hnewest hforgets hpoison hdelivered hwaiting hcounter hwindow hsends =>
    rw [hnil hdelivered]
    have hle : ∀ e ∈ p.out, e.2 + 1 ≤ setup.maximumRedeliveries := by
      intro e he
      obtain ⟨d, hd, rfl⟩ := mem_map.mp he
      have hsame := (hagree newest hnewest d hd).trans hpoison
      rw [isPoison_eq setup hlimit, decide_eq_false_iff_not, not_lt] at hsame
      exact hsame
    refine (h.requeue hle).fewer (.refl _) ?_
    have hperm := hwaiting.map MessageDispatch.tally
    rw [map_append, hraise] at hperm
    exact hperm.subperm

omit [DecidableEq μ] in
theorem Verdict.poison {setup : Setup} {p s' : Kernel μ} (hverdict : Verdict setup p s')
    (hany : (s'.sent.drop p.sent.length).any (fun ack => ack.ackType = .poison) = true) :
    ∃ newest ∈ p.deliveredMessages.head?, isPoison setup newest = true := by
  have hnot : ∀ {newest : MessageDispatch μ}, Sends newest .redelivered p s' → False := by
    intro newest hsends
    cases hsends with
    | nothing hsent =>
      rw [hsent, drop_length] at hany
      cases hany
    | one ack htype hcount hsent =>
      rw [hsent, drop_left] at hany
      simp [htype] at hany
  cases hverdict with
  | nothing hempty hsame =>
    rw [hsame, drop_length] at hany
    cases hany
  | kept newest hnewest hforgets hdelivered hwaiting hcounter hwindow hsends => exact (hnot hsends).elim
  | poisoned newest hnewest hforgets hpoison hdelivered hwaiting hcounter hwindow hsends =>
    exact ⟨newest, hnewest, hpoison⟩
  | moved newest hnewest hforgets hpoison hdelivered hwaiting hcounter hwindow hsends => exact (hnot hsends).elim

theorem takenBack_sublist (setup : Setup) (s : Kernel μ) : (s.takenBack setup).Sublist s.deliveredMessages := by
  obtain ⟨s₁, hclear, hsub, -⟩ := clearDeliveredList_run setup s
  obtain ⟨p, hprepare, kept, removed, previously, hsub', -, rfl⟩ := prepareRollback_drops s hclear
  obtain ⟨p', hprepare', -, htaken⟩ := prepareRollback_takenBack setup s
  cases hprepare.symm.trans hprepare'
  rw [← htaken]
  exact hsub'.trans hsub

theorem rollback_limited (setup : Setup) {handed arrived : List Nat}
    (hlimit : 0 ≤ setup.maximumRedeliveries) (hagree : Agree setup s)
    (h : Tally setup.maximumRedeliveries handed arrived s.out s.pool) :
    Tally setup.maximumRedeliveries handed arrived (stateOf (rollback setup s)).out (stateOf (rollback setup s)).pool ∧
      (((stateOf (rollback setup s)).sent.drop s.sent.length).any (fun ack => ack.ackType = .poison) = true →
        ∀ d ∈ s.takenBack setup, setup.maximumRedeliveries < d.redelivered.message.redeliveryCounter) := by
  obtain ⟨p, hprepare, hsame, htaken⟩ := prepareRollback_takenBack setup s
  have hverdict := (redeliver_verdict setup p).1
  have hp : Tally setup.maximumRedeliveries handed arrived p.out p.pool := by
    refine h.fewer ?_ ?_
    · rw [out, htaken]
      exact (takenBack_sublist setup s).map _
    · rw [pool, hsame.waiting]
      exact .refl _
  rw [Agree, ← htaken] at hagree
  rw [rollback, bind_ok hprepare, ← hsame.sent, ← htaken]
  refine ⟨hverdict.tally hlimit hagree hp, fun hany d hd => ?_⟩
  obtain ⟨newest, hnewest, hpoison⟩ := hverdict.poison hany
  have hown := (hagree newest hnewest d hd).trans hpoison
  rw [isPoison_eq setup hlimit, decide_eq_true_eq] at hown
  exact hown

theorem call_limited (setup : Setup) {c : Delivering μ} (hlimit : 0 ≤ setup.maximumRedeliveries)
    (hagree : ∀ r ∈ rollbackFrom setup c.kernel call, Agree setup r) (hbefore : ∀ d, call ≠ .beforeMessageIsConsumed d)
    (h : c.Limited setup.maximumRedeliveries) :
    Delivering.Limited setup.maximumRedeliveries { c with
      kernel := stateOf (perform setup call c.kernel)
      poisoned := c.poisoned ++ poisonedBy setup c.kernel call } := by
  rw [poisonedBy]
  cases hfrom : rollbackFrom setup c.kernel call with
  | none =>
    have hfewer := fewer_perform setup hfrom hbefore
    refine ⟨h.toTally.fewer hfewer.out hfewer.pool, ?_⟩
    rw [append_nil]
    exact h.poisoned
  | some r =>
    have hfewer := rollbackFrom_fewer setup hfrom
    obtain ⟨htally, hpoison⟩ := rollback_limited setup hlimit (hagree r hfrom) (h.toTally.fewer hfewer.out hfewer.pool)
    rw [(perform_eq_rollback setup hfrom).1]
    refine ⟨htally, fun d hd => ?_⟩
    rcases mem_append.mp hd with hd | hd
    · exact h.poisoned d hd
    · simp only at hd
      split_ifs at hd with hany
      · obtain ⟨e, he, rfl⟩ := mem_map.mp hd
        exact hpoison hany e he
      · cases hd

theorem deliveryStep_limited (setup : Setup) (consumerId : String) (hlimit : 0 ≤ setup.maximumRedeliveries)
    {c c' : Delivering μ} {e : Event μ} (h : c.Limited setup.maximumRedeliveries) (hagree : AgreeAt setup c e)
    (hstep : deliveryStep setup consumerId c e = some c') : c'.Limited setup.maximumRedeliveries := by
  cases e with
  | dispatch source now expired seen =>
    obtain ⟨⟨d, c₁⟩, hnext, rfl⟩ := Option.map_eq_some_iff.mp hstep
    obtain ⟨htally, hsame⟩ := next_tally h hlimit hnext
    exact take_limited htally (hsame ▸ h.poisoned) (dispatch_places setup consumerId now expired d seen c₁.kernel)
  | iterate now expired seen =>
    rw [deliveryStep] at hstep
    split_ifs at hstep
    obtain ⟨⟨d, c₁⟩, hnext, rfl⟩ := Option.map_eq_some_iff.mp hstep
    obtain ⟨htally, hsame⟩ := dequeue_tally h hnext
    exact take_limited htally (hsame ▸ h.poisoned) (dispatch_places setup consumerId now expired d seen c₁.kernel)
  | receive now expired =>
    rw [deliveryStep] at hstep
    split_ifs at hstep
    obtain ⟨⟨d, c₁⟩, hnext, rfl⟩ := Option.map_eq_some_iff.mp hstep
    obtain ⟨htally, hsame⟩ := dequeue_tally h hnext
    exact take_limited htally (hsame ▸ h.poisoned) (receive_places setup consumerId now expired d c₁.kernel)
  | call call =>
    by_cases hbefore : ∃ d, call = .beforeMessageIsConsumed d
    · obtain ⟨d, rfl⟩ := hbefore
      cases hstep
    · have hstep' : deliveryStep setup consumerId c (.call call) = some { c with
          kernel := stateOf (perform setup call c.kernel)
          poisoned := c.poisoned ++ poisonedBy setup c.kernel call } := by
        cases call with
        | beforeMessageIsConsumed d => exact absurd ⟨d, rfl⟩ hbefore
        | _ => rfl
      cases hstep.symm.trans hstep'
      exact call_limited setup hlimit hagree (fun d hd => hbefore ⟨d, hd⟩) h

omit [DecidableEq μ] in
theorem start_limited {N : Int} (hlimit : 0 ≤ N) (s : Kernel μ) : (Delivering.start s).Limited N := by
  have hpool : (Delivering.start s).kernel.pool = [] := by
    simp only [pool, waiting, Delivering.start, clear_messages]
    rfl
  refine ⟨?_, fun d hd => absurd hd not_mem_nil⟩
  rw [hpool]
  refine ⟨nodup_nil, fun e he => absurd he not_mem_nil, fun r hr => absurd hr not_mem_nil,
    fun e he => absurd he not_mem_nil, fun e he => absurd he not_mem_nil, fun r => ?_⟩
  show (0 : Int) ≤ N + 1
  omega

end Ids

/-! ### A message that is handed out too often -/

def oneRedelivery : Setup := { ackMode := .client, isQueue := true, prefetchSize := 100, maximumRedeliveries := 1 }

def runningKernel : Kernel Nat := { unconsumedMessages := { running := true } }

/-- The first message is rolled back, and comes again. -/
def rolledBackOnce : List (Event Nat) :=
  [.dispatch (.broker { ref := 1, message := { messageId := 11 } }) 0 false .never, .receive 0 false, .call .rollback,
    .call (.runTask 0), .receive 0 false]

/-- It is then rolled back with a second message, which is new. -/
def rolledBackTogether : List (Event Nat) :=
  rolledBackOnce ++
    [.dispatch (.broker { ref := 2, message := { messageId := 12 } }) 0 false .never, .receive 0 false, .call .rollback,
      .call (.runTask 0), .receive 0 false]

instance [DecidableEq μ] (setup : Setup) (r : Kernel μ) : Decidable (Agree setup r) :=
  inferInstanceAs (Decidable (∀ newest ∈ (r.takenBack setup).head?, _))

instance [DecidableEq μ] (setup : Setup) (c : Delivering μ) : (e : Event μ) → Decidable (AgreeAt setup c e)
  | .dispatch _ _ _ _ | .iterate _ _ _ | .receive _ _ => isTrue trivial
  | .call call => inferInstanceAs (Decidable (∀ r ∈ rollbackFrom setup c.kernel call, _))

end ActiveMQCpp.Core
