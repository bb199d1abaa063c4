import ActiveMQCpp.StateLive

/-! The tracker refines the flat model of what is live: whatever command is tracked, whatever response
arrives, the tracker holds afterwards exactly what the flat model says. -/

namespace ActiveMQCpp.State

open Codec Decaf Live Tracker

variable {κ : Type} [LinearOrder κ]
variable {t : Tracker κ} {α : Type} {x : LocalTransactionId κ} {info : TransactionInfo κ}
variable {formatId : Int} {gtrid bqual : ByteString} {m : Track κ α} {returns throws : Live κ → Live κ}

attribute [local grind =] OrderedMap.find_insert OrderedMap.find_erase OrderedMap.find_empty

/-! ### The invariant -/

namespace Tracker

/-- What the invariant asks of the state of one connection. -/
structure Fits (t : Tracker κ) (id : ConnectionId κ) (cs : ConnectionState κ) : Prop where
  ref : ∀ x ref, cs.transactions.find x = some ref → t.ref? id x = some ref
  session : ∀ k ss, cs.sessions.find k = some ss → k.parentId = id ∧ ss.info.sessionId = k
  producer : ∀ k ss p ps, cs.sessions.find k = some ss → ss.producers.find p = some ps →
    p.parentId = k ∧ ∀ ref, ps.transactionState = some ref → ref < t.transactionStates.length
  consumer : ∀ k ss c info, cs.sessions.find k = some ss → ss.consumers.find c = some info → c.parentId = k

variable {t : Tracker κ} {id : ConnectionId κ} {cs : ConnectionState κ}

theorem Inv.fits (hinv : t.Inv) (hcs : t.connectionStates.find id = some cs) : t.Fits id cs where
  ref x ref h := by rw [ref?_of_find hcs, h]
  session k ss h := hinv.session_id id cs k ss hcs h
  producer k ss p ps hss hps := by
    have hk := (hinv.session_id id cs k ss hcs hss).1
    have hsession : t.session? k = some ss := by rw [session?_of_find hcs hk, hss]
    have hp := hinv.producer_id k ss p ps hsession hps
    refine ⟨hp, ?_⟩
    intro ref href
    apply hinv.pointer_lt p ref
    rw [producer?, hp, hsession]
    change (ss.producers.find p).bind ProducerState.transactionState = some ref
    rw [hps]
    exact href
  consumer k ss c info hss hc := by
    have hk := (hinv.session_id id cs k ss hcs hss).1
    exact hinv.consumer_id k ss c info (by rw [session?_of_find hcs hk, hss]) hc

theorem Fits.setSession {k : SessionId κ} {ss : SessionState κ} (hfits : t.Fits id cs) (hk : k.parentId = id)
    (hid : ss.info.sessionId = k)
    (hproducer : ∀ p ps, ss.producers.find p = some ps →
      p.parentId = k ∧ ∀ ref, ps.transactionState = some ref → ref < t.transactionStates.length)
    (hconsumer : ∀ c info, ss.consumers.find c = some info → c.parentId = k) :
    t.Fits id (cs.setSession k ss) where
  ref := hfits.ref
  session := by
    have hsession := hfits.session
    grind [ConnectionState.setSession]
  producer := by
    have hold := hfits.producer
    grind [ConnectionState.setSession]
  consumer := by
    have hold := hfits.consumer
    grind [ConnectionState.setSession]

theorem Inv.setConnection (hinv : t.Inv) (hfits : t.Fits id cs) : (t.setConnection id cs).Inv where
  ref_lt := by
    have hlt := hinv.ref_lt
    have href := hfits.ref
    grind
  ref_inj := by
    have hinj := hinv.ref_inj
    have href := hfits.ref
    grind
  commands_ne := by
    intro k x tx h
    rw [transaction?_setConnection] at h
    split_ifs at h with hk
    · obtain ⟨ref, hx, htx⟩ := Option.bind_eq_some_iff.mp h
      subst hk
      apply hinv.commands_ne k x tx
      rw [transaction?_eq, hfits.ref x ref hx]
      exact htx
    · exact hinv.commands_ne k x tx h
  pointer_lt := by
    intro k ref h
    rw [producer?_setConnection] at h
    split_ifs at h with hk
    · obtain ⟨ps, hps, href⟩ := Option.bind_eq_some_iff.mp h
      obtain ⟨ss, hss, hfind⟩ := Option.bind_eq_some_iff.mp hps
      exact (hfits.producer _ ss k ps hss hfind).2 ref href
    · exact hinv.pointer_lt k ref h
  session_id := by
    have hid := hinv.session_id
    have hsession := hfits.session
    grind
  producer_id := by
    have hid := hinv.producer_id
    have hproducer := hfits.producer
    grind
  consumer_id := by
    have hid := hinv.consumer_id
    have hconsumer := hfits.consumer
    grind

theorem Inv.eraseConnection (hinv : t.Inv) (id : ConnectionId κ) : (t.eraseConnection id).Inv where
  ref_lt := by
    have hlt := hinv.ref_lt
    grind [eraseConnection]
  ref_inj := by
    have hinj := hinv.ref_inj
    grind
  commands_ne := by
    have hne := hinv.commands_ne
    grind
  pointer_lt := by
    have hlt := hinv.pointer_lt
    grind [eraseConnection]
  session_id := by
    have hid := hinv.session_id
    grind
  producer_id := by
    have hid := hinv.producer_id
    grind
  consumer_id := by
    have hid := hinv.consumer_id
    grind

theorem Inv.modifyTransaction {ref : Nat} {f : TransactionState κ → TransactionState κ} (hinv : t.Inv)
    (hne : ∀ id x, t.ref? id x = some ref → ∀ tx, tx.commands ≠ [] → (f tx).commands ≠ []) :
    (t.modifyTransaction ref f).Inv where
  ref_lt := by
    intro id x r h
    rw [Tracker.modifyTransaction, List.length_modify]
    exact hinv.ref_lt id x r h
  ref_inj := hinv.ref_inj
  commands_ne := by
    intro id x tx h
    have hlive := congrFun (congrFun (congrArg transaction (live_modifyTransaction t ref f)) id) x
    change (t.modifyTransaction ref f).transaction? id x
      = if t.ref? id x = some ref then (t.transaction? id x).map f else t.transaction? id x at hlive
    rw [hlive] at h
    split_ifs at h with href
    · obtain ⟨tx', htx', rfl⟩ := Option.map_eq_some_iff.mp h
      exact hne id x href tx' (hinv.commands_ne id x tx' htx')
    · exact hinv.commands_ne id x tx h
  pointer_lt := by
    intro k r h
    rw [Tracker.modifyTransaction, List.length_modify]
    exact hinv.pointer_lt k r h
  session_id := hinv.session_id
  producer_id := hinv.producer_id
  consumer_id := hinv.consumer_id

theorem Inv.begin {x : LocalTransactionId κ} {tx : TransactionState κ} (hinv : t.Inv)
    (hcs : t.connectionStates.find id = some cs) (hne : tx.commands ≠ []) :
    ((t.addTransaction tx).setConnection id
      { cs with transactions := cs.transactions.insert x t.transactionStates.length }).Inv where
  ref_lt := by
    have hlt := hinv.ref_lt
    have href := ref?_of_find hcs
    grind
  ref_inj := by
    have hlt := hinv.ref_lt
    have hinj := hinv.ref_inj
    have href := ref?_of_find hcs
    grind
  commands_ne := by
    intro k y tx' h
    have hlive := congrFun (congrFun (congrArg transaction (live_begin t (x := x) hinv hcs tx)) k) y
    change transaction? _ k y = if k = id ∧ y = x then some tx else t.transaction? k y at hlive
    rw [hlive] at h
    split_ifs at h
    · cases h
      exact hne
    · exact hinv.commands_ne k y tx' h
  pointer_lt := by
    intro k ref h
    have hlt := hinv.pointer_lt k ref
    grind
  session_id := by
    have hid := hinv.session_id
    grind
  producer_id := by
    have hid := hinv.producer_id
    grind
  consumer_id := by
    have hid := hinv.consumer_id
    grind

theorem inv_new : (new : Tracker κ).Inv := by
  constructor <;> intros <;> contradiction

theorem live_new : (new : Tracker κ).live = nothing := by
  apply ext_apply <;> intros
  case hsends =>
    refine ⟨?_, False.elim⟩
    rintro ⟨_, h, _⟩
    cases h
  all_goals rfl

end Tracker

/-! ### The functions of the tracker -/

/-- What a function of the tracker does to the live objects when it returns and when it throws. -/
def Simulates {α : Type} (m : Track κ α) (returns throws : Live κ → Live κ) : Prop :=
  ∀ t, t.Inv →
    match m t with
    | .ok _ t' => t'.Inv ∧ t'.live = returns t.live
    | .error _ t' => t'.Inv ∧ t'.live = throws t.live

section Lookups

variable {α β : Type} (t : Tracker κ)

theorem found_bind (o : Option β) (f : β → Track κ α) : (found o >>= f) t = match o with
        | some b => f b t
        | none => .error (.thrown .noSuchElementException "Key does not exist in map") t := by
  cases o <;> rfl

theorem getConnectionState_bind (id : ConnectionId κ) (f : ConnectionState κ → Track κ α) :
    (getConnectionState id >>= f) t = (found (t.connectionStates.find id) >>= f) t := rfl

theorem localTransactionId_bind (id : TransactionId κ) (f : LocalTransactionId κ → Track κ α) :
    (localTransactionId id >>= f) t
      = match id with
        | .local x => f x t
        | .xa .. =>
          .error (.thrown .classCastException "Failed to cast this pointer to the requested type.") t := by
  cases id <;> rfl

end Lookups

theorem simulates_processDestinationInfo (info : DestinationInfo κ) : Simulates (processDestinationInfo info)
      (fun live => if info.destination.isTemporary then live.announce info else live) id := by
  intro t hinv
  rw [processDestinationInfo, getConnectionState_bind, found_bind]
  cases hcs : t.connectionStates.find info.connectionId with
  | none => exact ⟨hinv, rfl⟩
  | some cs =>
    have hfits := hinv.fits hcs
    cases htemp : info.destination.isTemporary with
    | false => exact ⟨hinv, rfl⟩
    | true =>
      refine ⟨hinv.setConnection ⟨hfits.ref, hfits.session, hfits.producer, hfits.consumer⟩, ?_⟩
      exact live_announce t hcs

theorem simulates_processProducerInfo (info : ProducerInfo κ) :
    Simulates (processProducerInfo info) (addProducer · info) id := by
  intro t hinv
  rw [processProducerInfo, getConnectionState_bind, found_bind]
  cases hcs : t.connectionStates.find info.producerId.parentId.parentId with
  | none => exact ⟨hinv, rfl⟩
  | some cs =>
    simp only [found_bind]
    cases hss : cs.sessions.find info.producerId.parentId with
    | none => exact ⟨hinv, rfl⟩
    | some ss =>
      have hfits := hinv.fits hcs
      refine ⟨hinv.setConnection (hfits.setSession rfl (hfits.session _ ss hss).2 ?_ ?_),
        live_addProducer t hcs hss⟩
      · have hproducer := hfits.producer info.producerId.parentId ss
        grind
      · exact fun c info => hfits.consumer _ ss c info hss

theorem simulates_processConsumerInfo (info : ConsumerInfo κ) :
    Simulates (processConsumerInfo info) (addConsumer · info) id := by
  intro t hinv
  rw [processConsumerInfo, getConnectionState_bind, found_bind]
  cases hcs : t.connectionStates.find info.consumerId.parentId.parentId with
  | none => exact ⟨hinv, rfl⟩
  | some cs =>
    simp only [found_bind]
    cases hss : cs.sessions.find info.consumerId.parentId with
    | none => exact ⟨hinv, rfl⟩
    | some ss =>
      have hfits := hinv.fits hcs
      refine ⟨hinv.setConnection (hfits.setSession rfl (hfits.session _ ss hss).2 ?_ ?_),
        live_addConsumer t hcs hss⟩
      · exact fun p ps => hfits.producer _ ss p ps hss
      · have hconsumer := hfits.consumer info.consumerId.parentId ss
        grind

theorem simulates_processRemoveConsumer (k : ConsumerId κ) :
    Simulates (processRemoveConsumer k) (dropConsumer · k) id := by
  intro t hinv
  rw [processRemoveConsumer, getConnectionState_bind, found_bind]
  cases hcs : t.connectionStates.find k.parentId.parentId with
  | none => exact ⟨hinv, rfl⟩
  | some cs =>
    simp only [found_bind]
    cases hss : cs.sessions.find k.parentId with
    | none => exact ⟨hinv, rfl⟩
    | some ss =>
      have hfits := hinv.fits hcs
      have hfits' : t.Fits k.parentId.parentId
          { cs with recoveringPullConsumers := cs.recoveringPullConsumers.erase k } :=
        ⟨hfits.ref, hfits.session, hfits.producer, hfits.consumer⟩
      refine ⟨hinv.setConnection (hfits'.setSession rfl (hfits.session _ ss hss).2 ?_ ?_),
        live_dropConsumer t hcs hss _⟩
      · exact fun p ps => hfits.producer _ ss p ps hss
      · have hconsumer := hfits.consumer k.parentId ss
        grind

theorem simulates_processRemoveProducer (p : ProducerId κ) :
    Simulates (processRemoveProducer p) (dropProducer · p) id := by
  intro t hinv
  rw [processRemoveProducer, getConnectionState_bind, found_bind]
  cases hcs : t.connectionStates.find p.parentId.parentId with
  | none => exact ⟨hinv, rfl⟩
  | some cs =>
    simp only [found_bind]
    cases hss : cs.sessions.find p.parentId with
    | none => exact ⟨hinv, rfl⟩
    | some ss =>
      have hfits := hinv.fits hcs
      have hinv' : (t.setConnection p.parentId.parentId (cs.setSession p.parentId
          { ss with producers := ss.producers.erase p })).Inv := by
        refine hinv.setConnection (hfits.setSession rfl (hfits.session _ ss hss).2 ?_ ?_)
        · have hproducer := hfits.producer p.parentId ss
          grind
        · exact fun c info => hfits.consumer _ ss c info hss
      rcases hps : ss.producers.find p with _ | ⟨info, _ | ref⟩ <;> simp only [hps]
      · exact ⟨hinv', live_dropProducer_idle t hcs hss (by rw [hps]; rfl)⟩
      · exact ⟨hinv', live_dropProducer_idle t hcs hss (by rw [hps]; rfl)⟩
      · exact ⟨hinv'.modifyTransaction fun _ _ _ _ hne => hne, live_dropProducer t hcs hss hps⟩

theorem simulates_processSessionInfo (info : SessionInfo κ) :
    Simulates (processSessionInfo info) (addSession · info) id := by
  intro t hinv
  rw [processSessionInfo, getConnectionState_bind, found_bind]
  cases hcs : t.connectionStates.find info.sessionId.parentId with
  | none => exact ⟨hinv, rfl⟩
  | some cs =>
    refine ⟨hinv.setConnection ((hinv.fits hcs).setSession rfl rfl ?_ ?_), live_addSession t hcs⟩
    · intro p ps h
      cases h
    · intro c info h
      cases h

theorem simulates_processRemoveSession (k : SessionId κ) :
    Simulates (processRemoveSession k) (dropSession · k) id := by
  intro t hinv
  rw [processRemoveSession, getConnectionState_bind, found_bind]
  cases hcs : t.connectionStates.find k.parentId with
  | none => exact ⟨hinv, rfl⟩
  | some cs =>
    have hfits := hinv.fits hcs
    refine ⟨hinv.setConnection ⟨hfits.ref, ?_, ?_, ?_⟩, live_eraseSession t hcs⟩
    · have hsession := hfits.session
      grind
    · have hproducer := hfits.producer
      grind
    · have hconsumer := hfits.consumer
      grind

theorem simulates_processConnectionInfo (info : ConnectionInfo κ) :
    Simulates (processConnectionInfo info) (addConnection · info) id := by
  intro t hinv
  refine ⟨hinv.setConnection (Tracker.Fits.setSession ⟨?_, ?_, ?_, ?_⟩ rfl rfl ?_ ?_),
    live_addConnection t info⟩ <;>
    intros <;> contradiction

theorem simulates_processRemoveConnection (k : ConnectionId κ) :
    Simulates (processRemoveConnection k) (dropConnection · k) id :=
  fun t hinv => ⟨hinv.eraseConnection k, live_eraseConnection t k⟩

theorem simulates_processRemoveInfo (info : RemoveInfo κ) :
    Simulates (processRemoveInfo info) (remove · info.objectId) id := by
  intro t hinv
  rw [processRemoveInfo]
  cases info.objectId with
  | connection k => exact simulates_processRemoveConnection k t hinv
  | session k => exact simulates_processRemoveSession k t hinv
  | producer k => exact simulates_processRemoveProducer k t hinv
  | consumer k => exact simulates_processRemoveConsumer k t hinv
  | other => exact ⟨hinv, rfl⟩

/-! ### Transactions -/

theorem addCommand_ne (command : Command κ) (tx : TransactionState κ) : (tx.addCommand command).commands ≠ [] :=
  List.concat_ne_nil _ _

theorem Tracker.Inv.record (hinv : t.Inv) (ref : Nat) (command : Command κ) :
    (t.modifyTransaction ref (.addCommand command)).Inv :=
  hinv.modifyTransaction fun _ _ _ tx _ => addCommand_ne command tx

theorem getTransactionState_bind (t : Tracker κ) (cs : ConnectionState κ) (id : TransactionId κ)
    (f : Nat → Track κ α) :
    (getTransactionState cs id >>= f) t
      = match id with
        | .local x => (found (cs.transactions.find x) >>= f) t
        | .xa .. =>
          .error (.thrown .classCastException "Failed to cast this pointer to the requested type.") t := by
  cases id <;> rfl

theorem record_of_none {id : ConnectionId κ} (command : Command κ)
    (h : t.ref? id x = none) : t.live.record id x command = t.live := by
  apply ext_apply
  case htransaction =>
    intro k y
    simp only [live, record]
    grind [transaction?_eq]
  all_goals
    intros
    rfl

theorem simulates_recordTransactionInfo (hx : info.transactionId = .local x) :
    Simulates (recordTransactionInfo info) (record · info.connectionId x (.transactionInfo info)) id := by
  intro t hinv
  rw [recordTransactionInfo, getConnectionState_bind, found_bind]
  cases hcs : t.connectionStates.find info.connectionId with
  | none => exact ⟨hinv, rfl⟩
  | some cs =>
    simp only [getTransactionState_bind, hx, found_bind]
    cases href : cs.transactions.find x with
    | none => exact ⟨hinv, rfl⟩
    | some ref =>
      refine ⟨hinv.record ref _, live_record t hinv ?_ _⟩
      rw [ref?_of_find hcs, href]

theorem simulates_recordTransactionInfo_xa (hxa : info.transactionId = .xa formatId gtrid bqual) :
    Simulates (recordTransactionInfo info) id id := by
  intro t hinv
  rw [recordTransactionInfo, getConnectionState_bind, found_bind]
  cases t.connectionStates.find info.connectionId with
  | none => exact ⟨hinv, rfl⟩
  | some cs =>
    simp only [getTransactionState_bind, hxa]
    exact ⟨hinv, rfl⟩

theorem simulates_processBeginTransaction (hx : info.transactionId = .local x) :
    Simulates (processBeginTransaction info)
      (setTransaction · info.connectionId x (some ⟨[.transactionInfo info], .empty⟩)) id := by
  intro t hinv
  rw [processBeginTransaction, getConnectionState_bind, found_bind]
  cases hcs : t.connectionStates.find info.connectionId with
  | none => exact ⟨hinv, rfl⟩
  | some cs =>
    simp only [localTransactionId_bind, hx]
    exact ⟨hinv.begin hcs (List.cons_ne_nil _ _), live_begin t hinv hcs _⟩

theorem simulates_processBeginTransaction_xa (hxa : info.transactionId = .xa formatId gtrid bqual) :
    Simulates (processBeginTransaction info) id id := by
  intro t hinv
  rw [processBeginTransaction, getConnectionState_bind, found_bind]
  cases t.connectionStates.find info.connectionId with
  | none => exact ⟨hinv, rfl⟩
  | some cs =>
    simp only [localTransactionId_bind, hxa]
    exact ⟨hinv, rfl⟩

theorem Simulates.bind_pure {β : Type}
    (h : Simulates m returns throws) (b : β) : Simulates (m >>= fun _ => pure b) returns throws := by
  intro t hinv
  have hm := h t hinv
  cases hrun : m t with
  | ok a t' =>
    rw [hrun] at hm
    rw [bind_ok hrun]
    exact hm
  | error e t' =>
    rw [hrun] at hm
    rw [bind_error hrun]
    exact hm

theorem simulates_processTransactionInfo (config : Config) (info : TransactionInfo κ) :
    Simulates (processTransactionInfo config info)
      (fun live => if config.trackTransactions then live.transactionInfo info else live) id := by
  intro t hinv
  rw [processTransactionInfo]
  cases config.trackTransactions with
  | false => exact ⟨hinv, rfl⟩
  | true =>
    simp only [if_true, transactionInfo]
    cases hid : info.transactionId with
    | «local» x =>
      have hrecord := simulates_recordTransactionInfo hid
      cases info.type with
      | begin => exact simulates_processBeginTransaction hid t hinv
      | forget | recover => exact ⟨hinv, rfl⟩
      | prepare | «end» => exact hrecord.bind_pure (some Tracked.marker) t hinv
      | commitOnePhase | commitTwoPhase | rollback =>
        exact hrecord.bind_pure (some (Tracked.removeTransaction info)) t hinv
    | xa formatId gtrid bqual =>
      have hrecord := simulates_recordTransactionInfo_xa hid
      cases info.type with
      | begin => exact simulates_processBeginTransaction_xa hid t hinv
      | forget | recover => exact ⟨hinv, rfl⟩
      | prepare | «end» => exact hrecord.bind_pure (some Tracked.marker) t hinv
      | commitOnePhase | commitTwoPhase | rollback =>
        exact hrecord.bind_pure (some (Tracked.removeTransaction info)) t hinv

/-- The caches are no part of what is live. -/
theorem live_cacheMessage (config : Config) (message : Message κ) (t : Tracker κ) :
    (cacheMessage config message t).live = t.live := by
  rw [cacheMessage]
  split_ifs <;> rfl

theorem inv_cacheMessage (config : Config) (message : Message κ) (hinv : t.Inv) :
    (cacheMessage config message t).Inv := by
  rw [cacheMessage]
  split_ifs <;>
    exact ⟨hinv.ref_lt, hinv.ref_inj, hinv.commands_ne, hinv.pointer_lt, hinv.session_id, hinv.producer_id,
      hinv.consumer_id⟩

/-- A message outside of the tracked transactions touches the cache only. -/
theorem simulates_cacheMessage (config : Config) (message : Message κ) : Simulates (do
      if config.trackMessages then modify (cacheMessage config message)
      pure (none : Option (Tracked κ))) (fun live => live) (fun live => live) := by
  intro t hinv
  cases config.trackMessages with
  | false => exact ⟨hinv, rfl⟩
  | true => exact ⟨inv_cacheMessage config message hinv, live_cacheMessage config message t⟩

theorem inv_noteProducer {p : ProducerId κ} {cs : ConnectionState κ} {ss : SessionState κ}
    {ps : ProducerState κ} {ref : Nat} (hinv : t.Inv)
    (hcs : t.connectionStates.find p.parentId.parentId = some cs)
    (hss : cs.sessions.find p.parentId = some ss) (href : ref < t.transactionStates.length) :
    (t.setConnection p.parentId.parentId
      (cs.setSession p.parentId (ss.setTransactionState p ps ref))).Inv := by
  have hfits := hinv.fits hcs
  refine hinv.setConnection (hfits.setSession rfl (hfits.session _ ss hss).2 ?_ ?_)
  · have hproducer := hfits.producer p.parentId ss
    grind [SessionState.setTransactionState]
  · exact fun c info => hfits.consumer _ ss c info hss

/-- A message in a tracked transaction. The message is recorded before the producer is looked for. -/
theorem simulates_processMessage_local {config : Config} {message : Message κ}
    (htrack : config.trackTransactions = true) (hid : message.transactionId = some (.local x)) :
    Simulates (processMessage config message)
      (fun live => (live.recordMessage config message).noteProducer config message)
      (recordMessage config · message) := by
  intro t hinv
  simp only [processMessage, recordMessage, noteProducer, htrack, hid, getConnectionState_bind,
    found_bind, getTransactionState_bind, if_true, true_and]
  cases hcs : t.connectionStates.find message.producerId.parentId.parentId with
  | none =>
    refine ⟨hinv, (record_of_none _ ?_).symm⟩
    rw [ref?, ProducerId.connection, hcs]
    rfl
  | some cs =>
    have hfind := ref?_of_find hcs x
    cases href : cs.transactions.find x with
    | none =>
      rw [href] at hfind
      simp only [href]
      exact ⟨hinv, (record_of_none _ hfind).symm⟩
    | some ref =>
      rw [href] at hfind
      have hinv' := hinv.record ref (.message message)
      have hlive := live_record t hinv hfind (.message message)
      have hrun : modifyTransactionState ref (.addCommand (.message message)) t
          = .ok ⟨⟩ (t.modifyTransaction ref (.addCommand (.message message))) := rfl
      simp only [href, bind_ok hrun]
      cases config.trackTransactionProducers with
      | false => exact ⟨hinv', hlive⟩
      | true =>
        simp only [if_true, found_bind]
        cases hss : cs.sessions.find message.producerId.parentId with
        | none => exact ⟨hinv', hlive⟩
        | some ss =>
          cases hps : ss.producers.find message.producerId with
          | none =>
            simp only [hps]
            exact ⟨hinv', hlive⟩
          | some ps =>
            have hnote := live_noteProducer _ hinv' hcs hss hps hfind
            simp only [hlive] at hnote
            simp only [hps]
            exact ⟨inv_noteProducer hinv' hcs hss (hinv'.ref_lt _ _ ref hfind), hnote⟩

theorem simulates_processMessage (config : Config) (message : Message κ) : Simulates (processMessage config message)
      (fun live => (live.recordMessage config message).noteProducer config message)
      (recordMessage config · message) := by
  have hcache := simulates_cacheMessage config message
  match hid : message.transactionId, htrack : config.trackTransactions with
  | none, false => simpa only [processMessage, recordMessage, noteProducer, hid, htrack] using hcache
  | none, true => simpa only [processMessage, recordMessage, noteProducer, hid, htrack] using hcache
  | some (.local x), false =>
    simpa only [processMessage, recordMessage, noteProducer, hid, htrack, Bool.false_eq_true,
      false_and, if_false] using hcache
  | some (.local x), true => exact simulates_processMessage_local htrack hid
  | some (.xa ..), false =>
    simpa only [processMessage, recordMessage, noteProducer, hid, htrack] using hcache
  | some (.xa ..), true =>
    intro t hinv
    simp only [processMessage, recordMessage, noteProducer, hid, htrack,
      getConnectionState_bind, found_bind, getTransactionState_bind]
    cases t.connectionStates.find message.producerId.parentId.parentId <;> exact ⟨hinv, rfl⟩

theorem simulates_processMessagePull (config : Config) (pull : MessagePull κ) :
    Simulates (processMessagePull config pull) id id :=
  fun _ hinv => ⟨⟨hinv.ref_lt, hinv.ref_inj, hinv.commands_ne, hinv.pointer_lt, hinv.session_id, hinv.producer_id,
    hinv.consumer_id⟩, rfl⟩

theorem Simulates.mapError
    (h : Simulates m returns throws) (f : Failure → Failure) : Simulates (mapError f m) returns throws := by
  intro t hinv
  have hm := h t hinv
  rw [Codec.mapError]
  cases hrun : m t with
  | ok a t' => rwa [hrun] at hm
  | error e t' => rwa [hrun] at hm

theorem simulates_track (config : Config) (command : Command κ) :
    Simulates (track config command) (Live.track config · command) (Live.refuse config · command) := by
  apply Simulates.mapError
  cases command with
  | connectionInfo info => exact simulates_processConnectionInfo info
  | sessionInfo info => exact simulates_processSessionInfo info
  | producerInfo info => exact simulates_processProducerInfo info
  | consumerInfo info => exact simulates_processConsumerInfo info
  | destinationInfo info => exact simulates_processDestinationInfo info
  | removeInfo info => exact simulates_processRemoveInfo info
  | message message => exact simulates_processMessage config message
  | messagePull pull => exact simulates_processMessagePull config pull
  | transactionInfo info => exact simulates_processTransactionInfo config info
  | messageAck | connectionControl | shutdownInfo | tracked | other => exact fun t hinv => ⟨hinv, rfl⟩

theorem simulates_removeTransactionAction (hx : info.transactionId = .local x) :
    Simulates (removeTransactionAction info) (setTransaction · info.connectionId x none) id := by
  intro t hinv
  rw [removeTransactionAction, getConnectionState_bind, found_bind]
  cases hcs : t.connectionStates.find info.connectionId with
  | none => exact ⟨hinv, rfl⟩
  | some cs =>
    have hfits := hinv.fits hcs
    have hlive := live_eraseTransaction (x := x) t hcs
    have hinv' : (t.setConnection info.connectionId { cs with transactions := cs.transactions.erase x }).Inv := by
      refine hinv.setConnection ⟨?_, hfits.session, hfits.producer, hfits.consumer⟩
      have href := hfits.ref
      grind
    simp only [localTransactionId_bind, hx]
    cases href : cs.transactions.find x with
    | none => exact ⟨hinv', hlive⟩
    | some ref =>
      have hlisted : t.ref? info.connectionId x = some ref := by rw [ref?_of_find hcs, href]
      have hunlisted : ∀ k y, (t.setConnection info.connectionId
          { cs with transactions := cs.transactions.erase x }).ref? k y ≠ some ref := by
        intro k y
        have hinj := hinv.ref_inj k y info.connectionId x ref
        have hfind := ref?_of_find hcs y
        grind
      refine ⟨hinv'.modifyTransaction fun k y h => absurd h (hunlisted k y), ?_⟩
      exact (live_modifyTransaction_unlisted _ _ hunlisted).trans hlive

theorem simulates_onResponse (tracked : Tracked κ) : Simulates tracked.onResponse (complete · tracked) id := by
  cases tracked with
  | marker => exact fun t hinv => ⟨hinv, rfl⟩
  | removeTransaction info =>
    cases hid : info.transactionId with
    | «local» x => simpa only [Tracked.onResponse, complete, hid] using simulates_removeTransactionAction hid
    | xa formatId gtrid bqual =>
      intro t hinv
      simp only [Tracked.onResponse, removeTransactionAction, getConnectionState_bind, found_bind,
        localTransactionId_bind, hid]
      cases t.connectionStates.find info.connectionId <;> exact ⟨hinv, rfl⟩

/-! ### Interruptions -/

section Flags

variable {t : Tracker κ} {id : ConnectionId κ} {cs cs' : ConnectionState κ}

theorem inv_setFlags (hinv : t.Inv) (hcs : t.connectionStates.find id = some cs)
    (htransactions : cs'.transactions = cs.transactions) (hsessions : cs'.sessions = cs.sessions) :
    (t.setConnection id cs').Inv := by
  have hfits := hinv.fits hcs
  apply hinv.setConnection
  constructor
  · rw [htransactions]
    exact hfits.ref
  · rw [hsessions]
    exact hfits.session
  · rw [hsessions]
    exact hfits.producer
  · rw [hsessions]
    exact hfits.consumer

/-- What else a connection state keeps is out of sight, up to the flag for interruptions. -/
theorem live_setFlags (hcs : t.connectionStates.find id = some cs)
    (hinfo : cs'.info.reconnecting = cs.info.reconnecting) (htemp : cs'.tempDestinations = cs.tempDestinations)
    (htransactions : cs'.transactions = cs.transactions) (hsessions : cs'.sessions = cs.sessions) :
    (t.setConnection id cs').live
      = { t.live with
          interrupted k :=
            if k = id then !cs'.connectionInterruptProcessingComplete else t.live.interrupted k } := by
  have htx := transaction?_of_find hcs
  have href := ref?_of_find hcs
  apply ext_apply <;> intros <;> simp only [live] <;> grind

end Flags

theorem simulates_connectionInterruptProcessingComplete (k : ConnectionId κ) :
    Simulates (connectionInterruptProcessingComplete k) (resume · k) id := by
  intro t hinv
  rw [connectionInterruptProcessingComplete, getConnectionState_bind, found_bind]
  cases hcs : t.connectionStates.find k with
  | none => exact ⟨hinv, rfl⟩
  | some cs => exact ⟨inv_setFlags hinv hcs rfl rfl, live_setFlags hcs rfl rfl rfl rfl⟩

theorem find_transportInterrupted (t : Tracker κ) (k : ConnectionId κ) :
    (transportInterrupted t).connectionStates.find k = (t.connectionStates.find k).map fun cs =>
      { cs with connectionInterruptProcessingComplete := false } :=
  OrderedMap.find_map _ _ _

theorem session?_transportInterrupted (t : Tracker κ) (k : SessionId κ) :
    (transportInterrupted t).session? k = t.session? k := by
  rw [session?, session?, find_transportInterrupted]
  cases t.connectionStates.find k.parentId <;> rfl

theorem producer?_transportInterrupted (t : Tracker κ) (k : ProducerId κ) :
    (transportInterrupted t).producer? k = t.producer? k := by
  rw [producer?, producer?, session?_transportInterrupted]

theorem consumer?_transportInterrupted (t : Tracker κ) (k : ConsumerId κ) :
    (transportInterrupted t).consumer? k = t.consumer? k := by
  rw [consumer?, consumer?, session?_transportInterrupted]

theorem ref?_transportInterrupted (t : Tracker κ) (k : ConnectionId κ) (x : LocalTransactionId κ) :
    (transportInterrupted t).ref? k x = t.ref? k x := by
  rw [ref?, ref?, find_transportInterrupted]
  cases t.connectionStates.find k <;> rfl

theorem transaction?_transportInterrupted (t : Tracker κ) (k : ConnectionId κ) (x : LocalTransactionId κ) :
    (transportInterrupted t).transaction? k x = t.transaction? k x := by
  rw [transaction?, transaction?, ref?_transportInterrupted]
  rfl

theorem live_transportInterrupted (t : Tracker κ) : (transportInterrupted t).live = t.live.interrupt := by
  apply ext_apply
  case hconnection | hinterrupted | hannounced =>
    intro k
    simp only [live, interrupt, find_transportInterrupted]
    cases t.connectionStates.find k <;> rfl
  all_goals
    intros
    simp only [live, interrupt, session?_transportInterrupted, producer?_transportInterrupted,
      consumer?_transportInterrupted, ref?_transportInterrupted, transaction?_transportInterrupted]

theorem inv_transportInterrupted (hinv : t.Inv) : (transportInterrupted t).Inv where
  ref_lt id x ref h := hinv.ref_lt id x ref (by rwa [ref?_transportInterrupted] at h)
  ref_inj id x id' x' ref h h' := by
    rw [ref?_transportInterrupted] at h h'
    exact hinv.ref_inj id x id' x' ref h h'
  commands_ne id x tx h := hinv.commands_ne id x tx (by rwa [transaction?_transportInterrupted] at h)
  pointer_lt k ref h := hinv.pointer_lt k ref (by rwa [producer?_transportInterrupted] at h)
  session_id id cs' k ss hcs hss := by
    rw [find_transportInterrupted] at hcs
    obtain ⟨cs, hfind, rfl⟩ := Option.map_eq_some_iff.mp hcs
    exact hinv.session_id id cs k ss hfind hss
  producer_id k ss p ps h := hinv.producer_id k ss p ps (by rwa [session?_transportInterrupted] at h)
  consumer_id k ss c info h := hinv.consumer_id k ss c info (by rwa [session?_transportInterrupted] at h)

theorem live_trackBack (config : Config) (command : Command κ) (t : Tracker κ) :
    (trackBack config command t).live = t.live := by
  unfold trackBack
  split
  · split_ifs <;> rfl
  · rfl

theorem inv_trackBack (config : Config) (command : Command κ) (hinv : t.Inv) : (trackBack config command t).Inv := by
  unfold trackBack
  split
  · split_ifs
    · exact ⟨hinv.ref_lt, hinv.ref_inj, hinv.commands_ne, hinv.pointer_lt, hinv.session_id, hinv.producer_id,
        hinv.consumer_id⟩
    · exact hinv
  · exact hinv

end ActiveMQCpp.State
