import ActiveMQCpp.StateSimulation

/-! What a replay of the tracked state does: the commands it sends, the commits it answers, and the
requests whose responses it completes on the way, both when it comes to its end and when the transport
fails under it. -/

namespace ActiveMQCpp.State

open Codec Decaf OrderedMap List

variable {κ : Type} [LinearOrder κ]
variable {s s' s'' : Restoring κ} {sent sent' : List (Command κ)} {α β : Type} {m : Restore κ α}
  {post : α → Restoring κ → Prop} {t : Tracker κ} {live : Live κ}

/-! ### Effects -/

/-- From `s` to `s'` a replay sends commands, answers commits and completes requests; nothing else that
is live changes. -/
structure Replayed (s s' : Restoring κ) (sent : List (Command κ)) (answered : List (ExceptionResponse κ))
    (completed : List (Tracked κ)) : Prop where
  sent_eq : s'.sent = s.sent ++ sent
  answered_eq : s'.answered = s.answered ++ answered
  completed_eq : s'.completed = s.completed ++ completed
  live_eq : s'.tracker.live = completed.foldl Live.complete s.tracker.live
  inv : s'.tracker.Inv
  messages_eq : s'.tracker.messageCache = s.tracker.messageCache
  pulls_eq : s'.tracker.messagePullCache = s.tracker.messagePullCache
  failAt_eq : s'.failAt = s.failAt
  requests : ∀ n command, s'.requestMap.find n = some command → s.requestMap.find n = some command

theorem Replayed.refl (hinv : s.tracker.Inv) : Replayed s s [] [] [] :=
  ⟨(append_nil _).symm, (append_nil _).symm, (append_nil _).symm, rfl, hinv, rfl, rfl, rfl,
    fun _ _ h => h⟩

theorem Replayed.trans {answered answered' : List (ExceptionResponse κ)} {completed completed' : List (Tracked κ)}
    (h : Replayed s s' sent answered completed) (h' : Replayed s' s'' sent' answered' completed') :
    Replayed s s'' (sent ++ sent') (answered ++ answered') (completed ++ completed') where
  sent_eq := by rw [h'.sent_eq, h.sent_eq, append_assoc]
  answered_eq := by rw [h'.answered_eq, h.answered_eq, append_assoc]
  completed_eq := by rw [h'.completed_eq, h.completed_eq, append_assoc]
  live_eq := by rw [h'.live_eq, h.live_eq, foldl_append]
  inv := h'.inv
  messages_eq := h'.messages_eq.trans h.messages_eq
  pulls_eq := h'.pulls_eq.trans h.pulls_eq
  failAt_eq := h'.failAt_eq.trans h.failAt_eq
  requests n command hfind := h.requests n command (h'.requests n command hfind)

/-- A replay that fails has had some effect, and has either a transport that fails or a request whose
completion may throw. -/
def Fails (s s' : Restoring κ) : Prop :=
  (∃ sent answered completed, Replayed s s' sent answered completed) ∧
    (s.failAt ≠ none ∨ ∃ n tracked, s.requestMap.find n = some (.tracked tracked))

theorem Replayed.fails {answered : List (ExceptionResponse κ)} {completed : List (Tracked κ)}
    (h : Replayed s s' sent answered completed) (h' : Fails s' s'') : Fails s s'' := by
  obtain ⟨⟨sent', answered', completed', hreplayed⟩, hcause⟩ := h'
  refine ⟨⟨_, _, _, h.trans hreplayed⟩, ?_⟩
  rcases hcause with hfail | ⟨n, tracked, hfind⟩
  · rw [h.failAt_eq] at hfail
    exact .inl hfail
  · exact .inr ⟨n, tracked, h.requests n _ hfind⟩

/-- What a step of a replay does from a given state. -/
def Does {α : Type} (m : Restore κ α) (s : Restoring κ) (post : α → Restoring κ → Prop) : Prop :=
  match m s with
  | .ok a s' => post a s'
  | .error _ s' => Fails s s'

theorem Does.bind {f : α → Restore κ β} {post' : β → Restoring κ → Prop} (hm : Does m s post)
    (hf : ∀ a s', post a s' → ∃ sent answered completed, Replayed s s' sent answered completed ∧
      Does (f a) s' post') : Does (m >>= f) s post' := by
  unfold Does at hm
  cases hrun : m s with
  | ok a s' =>
    rw [hrun] at hm
    obtain ⟨sent, answered, completed, hreplayed, hdoes⟩ := hf a s' hm
    unfold Does at hdoes ⊢
    rw [bind_ok hrun]
    cases hnext : f a s' with
    | ok b s'' => rwa [hnext] at hdoes
    | error e s'' =>
      rw [hnext] at hdoes
      exact hreplayed.fails hdoes
  | error e s' =>
    rw [hrun] at hm
    unfold Does
    rw [bind_error hrun]
    exact hm

theorem Does.lookup {f : α → Restore κ β} {a : α}
    {post : β → Restoring κ → Prop} (hm : m s = .ok a s) (hf : Does (f a) s post) : Does (m >>= f) s post := by
  unfold Does at hf ⊢
  rwa [bind_ok hm]

theorem Does.imp {post' : α → Restoring κ → Prop}
    (hm : Does m s post) (h : ∀ a s', post a s' → post' a s') : Does m s post' := by
  unfold Does at hm ⊢
  cases hrun : m s with
  | ok a s' =>
    rw [hrun] at hm
    exact h a s' hm
  | error e s' =>
    rw [hrun] at hm
    exact hm

abbrev Sent (sent : List (Command κ)) (s s' : Restoring κ) : Prop := Replayed s s' sent [] []

theorem Sent.trans (h : Sent sent s s') (h' : Sent sent' s' s'') : Sent (sent ++ sent') s s'' := by
  have happ := Replayed.trans h h'
  rwa [append_nil, append_nil] at happ

theorem Does.then {m : Restore κ Unit} {f : Unit → Restore κ β}
    {post : β → Restoring κ → Prop} (hm : Does m s fun _ s' => Sent sent s s')
    (hf : ∀ s', Sent sent s s' → Does (f ()) s' post) : Does (m >>= f) s post :=
  hm.bind fun _ s' h => ⟨_, _, _, h, hf s' h⟩

theorem Does.when {b : Bool} {m : Restore κ Unit} {rest : Restore κ β}
    {post : β → Restoring κ → Prop} (hinv : s.tracker.Inv)
    (hm : Does m s fun _ s' => Sent sent s s')
    (hrest : ∀ s', Sent (if b then sent else []) s s' → Does rest s' post) :
    Does (if b then m >>= fun _ => rest else rest) s post := by
  cases b with
  | false => exact hrest s (Replayed.refl hinv)
  | true => exact hm.then hrest

/-! ### Sending -/

theorem oneway_does (hinv : s.tracker.Inv) (command : Command κ) :
    Does (oneway command) s fun _ s' => Sent [command] s s' := by
  unfold Does oneway
  by_cases hfail : s.failAt = some s.sent.length
  · rw [if_pos hfail]
    refine ⟨⟨_, _, _, Replayed.refl hinv⟩, .inl ?_⟩
    rw [hfail]
    exact Option.some_ne_none _
  · rw [if_neg hfail]
    exact ⟨rfl, (append_nil _).symm, (append_nil _).symm, rfl, hinv, rfl, rfl, rfl, fun _ _ h => h⟩

theorem onewayAll_does (hinv : s.tracker.Inv) (commands : List (Command κ)) :
    Does (onewayAll commands) s fun _ s' => Sent commands s s' := by
  induction commands generalizing s with
  | nil => exact Replayed.refl hinv
  | cons command commands ih =>
    apply (oneway_does hinv command).then
    intro s' hsent
    exact (ih hsent.inv).imp fun _ s'' hrest => hsent.trans hrest

theorem modifyConnectionState_does (hinv : s.tracker.Inv) (id : ConnectionId κ)
    {f : ConnectionState κ → ConnectionState κ}
    (hinfo : ∀ cs, (f cs).info.reconnecting = cs.info.reconnecting)
    (htemp : ∀ cs, (f cs).tempDestinations = cs.tempDestinations)
    (hcomplete : ∀ cs, (f cs).connectionInterruptProcessingComplete = cs.connectionInterruptProcessingComplete)
    (htransactions : ∀ cs, (f cs).transactions = cs.transactions)
    (hsessions : ∀ cs, (f cs).sessions = cs.sessions) :
    Does (modifyConnectionState id f) s fun _ s' => Sent [] s s' ∧
      s'.tracker.connectionStates.find id = (s.tracker.connectionStates.find id).map f := by
  refine ⟨?_, (find_modify _ _ _ _).trans (if_pos rfl)⟩
  change Sent [] s { s with tracker := { s.tracker with
    connectionStates := s.tracker.connectionStates.modify id f } }
  rw [OrderedMap.modify]
  cases hcs : s.tracker.connectionStates.find id with
  | none => exact Replayed.refl hinv
  | some cs =>
    have hlive : (s.tracker.setConnection id (f cs)).live = s.tracker.live := by
      rw [live_setFlags hcs (hinfo cs) (htemp cs) (htransactions cs) (hsessions cs), hcomplete cs]
      apply Live.ext_apply
      case hinterrupted =>
        intro k
        simp only [Tracker.live]
        split_ifs with hk
        · rw [hk, hcs]
          rfl
        · rfl
      all_goals
        intros
        rfl
    exact ⟨(append_nil _).symm, (append_nil _).symm, (append_nil _).symm, hlive,
      inv_setFlags hinv hcs (htransactions cs) (hsessions cs), rfl, rfl, rfl, fun _ _ h => h⟩

/-- A consumer as it is announced on another transport. -/
def ConsumerInfo.restored (version : Int) (interrupted : Bool) (info : ConsumerInfo κ) : ConsumerInfo κ :=
  if interrupted ∧ info.prefetchSize > 0 ∧ version > 5 then { info with prefetchSize := 0 } else info

omit [LinearOrder κ] in
theorem restored_eq (version : Int) (complete : Bool) (info : ConsumerInfo κ) : info.restored version (!complete)
      = if recovers version complete info then { info with prefetchSize := 0 } else info := by
  simp only [ConsumerInfo.restored, recovers, Bool.and_eq_true, decide_eq_true_eq, and_assoc]

theorem restoreConsumers_does (hinv : s.tracker.Inv) (version : Int) (complete : Bool)
    (id : ConnectionId κ) (infos : List (ConsumerInfo κ)) :
    Does (restoreConsumers version complete id infos) s fun _ s' =>
      Sent (infos.map fun info => .consumerInfo (info.restored version (!complete))) s s' := by
  induction infos generalizing s with
  | nil => exact Replayed.refl hinv
  | cons info infos ih =>
    have hrest : ∀ s', Sent [.consumerInfo (info.restored version (!complete))] s s' →
        Does (restoreConsumers version complete id infos) s' fun _ s'' =>
          Sent ((info :: infos).map fun info => .consumerInfo (info.restored version (!complete))) s s'' :=
      fun s' hsent => (ih hsent.inv).imp fun _ s'' h => hsent.trans h
    rw [restored_eq] at hrest
    rw [restoreConsumers]
    cases hrecovers : recovers version complete info with
    | false =>
      rw [hrecovers] at hrest
      exact (oneway_does hinv _).then hrest
    | true =>
      rw [hrecovers] at hrest
      have hflag := modifyConnectionState_does hinv id (f := fun cs =>
        { cs with recoveringPullConsumers := cs.recoveringPullConsumers.insert info.consumerId info })
        (fun _ => rfl) (fun _ => rfl) (fun _ => rfl) (fun _ => rfl) (fun _ => rfl)
      apply (hflag.imp fun _ _ h => h.1).then
      intro s' hs'
      exact (oneway_does hs'.inv _).then fun s'' hs'' => hrest s'' (hs'.trans hs'')

/-- What is sent for a session whose state is known. -/
def replaySessionState (config : Config) (version : Int) (interrupted : Bool) (ss : SessionState κ) :
    List (Command κ) :=
  .sessionInfo ss.info ::
    ((if config.restoreProducers then ss.producers.values.map fun ps => .producerInfo ps.info else []) ++
      if config.restoreConsumers then
        ss.consumers.values.map fun info => .consumerInfo (info.restored version interrupted)
      else [])

theorem getConnectionState_of_find {id : ConnectionId κ} {cs : ConnectionState κ}
    (hcs : t.connectionStates.find id = some cs) : getConnectionState id t = .ok cs t := by
  change (found (t.connectionStates.find id) : Track κ _) t = .ok cs t
  rw [hcs]
  rfl

theorem onTracker_ok {m : Track κ α} {a : α}
    (h : m s.tracker = .ok a t) : onTracker m s = .ok a { s with tracker := t } := by
  rw [onTracker, h]

theorem find_of_live {id : ConnectionId κ} (h : (t.live.connection id).isSome) :
    ∃ cs, t.connectionStates.find id = some cs ∧ t.live.interrupted id = !cs.connectionInterruptProcessingComplete := by
  simp only [Tracker.live, Option.isSome_map] at h ⊢
  obtain ⟨cs, hcs⟩ := Option.isSome_iff_exists.mp h
  refine ⟨cs, hcs, ?_⟩
  rw [hcs]
  rfl

theorem doRestoreConsumers_does {id : ConnectionId κ} (hinv : s.tracker.Inv) (version : Int)
    (ss : SessionState κ) (hid : ss.info.sessionId.parentId = id) (hlive : (s.tracker.live.connection id).isSome) :
    Does (doRestoreConsumers version ss) s fun _ s' =>
      Sent (ss.consumers.values.map fun info =>
        .consumerInfo (info.restored version (s.tracker.live.interrupted id))) s s' := by
  obtain ⟨cs, hcs, hinterrupted⟩ := find_of_live hlive
  rw [doRestoreConsumers, hid, hinterrupted]
  exact .lookup (onTracker_ok (getConnectionState_of_find hcs)) (restoreConsumers_does hinv version _ _ _)

theorem doRestoreSessions_does {id : ConnectionId κ} (hinv : s.tracker.Inv) (config : Config)
    (version : Int) (states : List (SessionState κ)) (hid : ∀ ss ∈ states, ss.info.sessionId.parentId = id)
    (hlive : (s.tracker.live.connection id).isSome) :
    Does (doRestoreSessions config version states) s fun _ s' =>
      Sent (states.flatMap (replaySessionState config version (s.tracker.live.interrupted id))) s s' := by
  induction states generalizing s with
  | nil => exact Replayed.refl hinv
  | cons ss states ih =>
    rw [doRestoreSessions]
    apply (oneway_does hinv _).then
    intro s₁ h₁
    apply Does.when h₁.inv (onewayAll_does h₁.inv _)
    intro s₂ h₂
    have hlive₂ : s₂.tracker.live = s.tracker.live := (h₁.trans h₂).live_eq
    have hconsumers := doRestoreConsumers_does h₂.inv version ss (hid ss mem_cons_self)
      (by rw [hlive₂]; exact hlive)
    rw [hlive₂] at hconsumers
    apply Does.when h₂.inv hconsumers
    intro s₃ h₃
    have hsession : Sent (replaySessionState config version (s.tracker.live.interrupted id) ss) s s₃ :=
      h₁.trans (h₂.trans h₃)
    have hlive₃ : s₃.tracker.live = s.tracker.live := hsession.live_eq
    have hstates := ih h₃.inv (fun ss' h => hid ss' (mem_cons_of_mem _ h)) (by rw [hlive₃]; exact hlive)
    rw [hlive₃] at hstates
    exact hstates.imp fun _ s' h => hsession.trans h

/-! ### Transactions -/

/-- What is sent for an open transaction; one whose commit is in doubt is not replayed. -/
def replayOpenTransaction (tx : TransactionState κ) : List (Command κ) :=
  match inDoubt tx with
  | some _ => []
  | none => replayTransaction tx

theorem restoreTransactions_does (hinv : s.tracker.Inv) (states : List (TransactionState κ))
    (hne : ∀ tx ∈ states, tx.commands ≠ []) :
    Does (restoreTransactions states) s fun toRollback s' =>
      Sent (states.flatMap replayOpenTransaction) s s' ∧ toRollback = states.filterMap inDoubt := by
  induction states generalizing s with
  | nil => exact ⟨Replayed.refl hinv, rfl⟩
  | cons tx states ih =>
    have htail : ∀ tx' ∈ states, tx'.commands ≠ [] := fun tx' h => hne tx' (mem_cons_of_mem _ h)
    have hempty : tx.commands.isEmpty = false :=
      Bool.eq_false_iff.mpr fun h => hne tx mem_cons_self (isEmpty_iff.mp h)
    rw [restoreTransactions, hempty, flatMap_cons, replayOpenTransaction]
    cases hdoubt : inDoubt tx with
    | some info =>
      rw [filterMap_cons_some hdoubt]
      refine (ih hinv htail).bind ?_
      rintro toRollback s' ⟨hsent, rfl⟩
      exact ⟨_, _, _, hsent, hsent, rfl⟩
    | none =>
      rw [filterMap_cons_none hdoubt]
      apply (onewayAll_does hinv _).then
      intro s' hsent
      exact (ih hsent.inv htail).imp fun _ s'' h => ⟨hsent.trans h.1, h.2⟩

theorem caches_onResponse (tracked : Tracked κ) (t : Tracker κ) : match tracked.onResponse t with
    | .ok _ t' | .error _ t' => t'.messageCache = t.messageCache ∧ t'.messagePullCache = t.messagePullCache := by
  cases tracked with
  | marker => exact ⟨rfl, rfl⟩
  | removeTransaction info =>
    rw [Tracked.onResponse, removeTransactionAction, getConnectionState_bind, found_bind]
    cases t.connectionStates.find info.connectionId with
    | none => exact ⟨rfl, rfl⟩
    | some cs =>
      simp only [localTransactionId_bind]
      cases info.transactionId with
      | xa => exact ⟨rfl, rfl⟩
      | «local» x =>
        cases href : cs.transactions.find x with
        | none =>
          simp only [href]
          exact ⟨rfl, rfl⟩
        | some ref =>
          simp only [href]
          exact ⟨rfl, rfl⟩

omit [LinearOrder κ] in
theorem find_tracked {requests : OrderedMap Int (Command κ)} {n : Int} {tracked : Tracked κ}
    (h : (requests.find n).bind Command.tracked? = some tracked) : requests.find n = some (.tracked tracked) := by
  obtain ⟨command, hfind, hcast⟩ := Option.bind_eq_some_iff.mp h
  cases command <;> cases hcast
  exact hfind

theorem onResponse_does (hinv : s.tracker.Inv) (correlationId : Int) :
    Does (onResponse correlationId) s fun _ s' => ∃ completed, Replayed s s' [] [] completed ∧
      ∀ tracked ∈ completed, s.requestMap.find correlationId = some (.tracked tracked) := by
  have herase : ∀ n command, (s.requestMap.erase correlationId).find n = some command →
      s.requestMap.find n = some command := by
    intro n command h
    rw [find_erase] at h
    split_ifs at h
    exact h
  have hnothing : Replayed s { s with requestMap := s.requestMap.erase correlationId } [] [] [] :=
    ⟨(append_nil _).symm, (append_nil _).symm, (append_nil _).symm, rfl, hinv, rfl, rfl, rfl, herase⟩
  unfold Does
  simp only [onResponse, bind_ok (get_run s), bind_ok (set_run s _)]
  cases hfind : (s.requestMap.find correlationId).bind Command.tracked? with
  | none => exact ⟨[], hnothing, fun _ h => (not_mem_nil h).elim⟩
  | some tracked =>
    have htracked := find_tracked hfind
    have hsim := simulates_onResponse tracked s.tracker hinv
    have hcaches := caches_onResponse tracked s.tracker
    cases hrun : tracked.onResponse s.tracker with
    | ok u t' =>
      rw [hrun] at hsim hcaches
      have hon : onTracker tracked.onResponse { s with requestMap := s.requestMap.erase correlationId }
          = .ok u { s with tracker := t', requestMap := s.requestMap.erase correlationId } := by
        rw [onTracker, hrun]
      simp only [bind_ok hon, modify_run]
      refine ⟨[tracked], ⟨(append_nil _).symm, (append_nil _).symm, rfl, hsim.2, hsim.1, hcaches.1,
        hcaches.2, rfl, herase⟩, ?_⟩
      intro tracked' hmem
      rw [mem_singleton.mp hmem, htracked]
    | error e t' =>
      rw [hrun] at hsim hcaches
      have hon : onTracker tracked.onResponse { s with requestMap := s.requestMap.erase correlationId }
          = .error e { s with tracker := t', requestMap := s.requestMap.erase correlationId } := by
        rw [onTracker, hrun]
      simp only [bind_error hon]
      refine ⟨⟨[], [], [], ?_⟩, .inr ⟨correlationId, tracked, htracked⟩⟩
      exact ⟨(append_nil _).symm, (append_nil _).symm, (append_nil _).symm, hsim.2, hsim.1,
        hcaches.1, hcaches.2, rfl, herase⟩

/-- Commits are answered, and the requests that wait for their responses are completed. -/
def Answers (infos : List (TransactionInfo κ)) (sent : List (Command κ)) (s s' : Restoring κ) : Prop :=
  ∃ completed, Replayed s s' sent (infos.map fun info => ⟨info.commandId, info.transactionId⟩) completed ∧
    ∀ tracked ∈ completed, ∃ info ∈ infos, s.requestMap.find info.commandId = some (.tracked tracked)

theorem Sent.answers {infos : List (TransactionInfo κ)}
    (h : Sent sent s s') (h' : Answers infos sent' s' s'') : Answers infos (sent ++ sent') s s'' := by
  obtain ⟨completed, hreplayed, hfind⟩ := h'
  refine ⟨completed, Replayed.trans h hreplayed, ?_⟩
  intro tracked hmem
  obtain ⟨info, hinfo, htracked⟩ := hfind tracked hmem
  exact ⟨info, hinfo, h.requests _ _ htracked⟩

theorem answerAll_does (hinv : s.tracker.Inv) (infos : List (TransactionInfo κ)) :
    Does (answerAll infos) s fun _ s' => Answers infos [] s s' := by
  induction infos generalizing s with
  | nil => exact ⟨[], Replayed.refl hinv, fun _ h => (not_mem_nil h).elim⟩
  | cons info infos ih =>
    refine (onResponse_does hinv info.commandId).bind ?_
    rintro _ s₁ ⟨completed, h₁, hfind⟩
    refine ⟨_, _, _, h₁, ?_⟩
    have hanswer : Does (modify fun s => { s with answered := s.answered ++ [⟨info.commandId, info.transactionId⟩] })
        s₁ fun _ s' => Replayed s₁ s' [] [⟨info.commandId, info.transactionId⟩] [] :=
      ⟨(append_nil _).symm, rfl, (append_nil _).symm, rfl, h₁.inv, rfl, rfl, rfl, fun _ _ h => h⟩
    refine hanswer.bind fun _ s₂ h₂ => ⟨_, _, _, h₂, (ih h₂.inv).imp ?_⟩
    rintro _ s' ⟨completed', h', hfind'⟩
    refine ⟨completed ++ completed', h₁.trans (h₂.trans h'), ?_⟩
    intro tracked hmem
    rcases mem_append.mp hmem with hmem | hmem
    · exact ⟨info, mem_cons_self, hfind tracked hmem⟩
    · obtain ⟨info', hinfo', htracked⟩ := hfind' tracked hmem
      exact ⟨info', mem_cons_of_mem _ hinfo', h₁.requests _ _ (h₂.requests _ _ htracked)⟩

/-! ### Connections -/

/-- The live objects below each connection and each session, in the order of their ids. -/
structure Enumeration (live : Live κ) where
  sessions : ConnectionId κ → List (SessionId κ × SessionInfo κ)
  producers : SessionId κ → List (ProducerId κ × ProducerInfo κ)
  consumers : SessionId κ → List (ConsumerId κ × ConsumerInfo κ)
  transactions : ConnectionId κ → List (LocalTransactionId κ × TransactionState κ)
  sessions_enumerate : ∀ id, Enumerates (sessions id) fun k => if k.parentId = id then live.session k else none
  producers_enumerate : ∀ id, Enumerates (producers id) fun k => if k.parentId = id then live.producer k else none
  consumers_enumerate : ∀ id, Enumerates (consumers id) fun k => if k.parentId = id then live.consumer k else none
  transactions_enumerate : ∀ id, Enumerates (transactions id) (live.transaction id)

namespace Enumeration

variable {live : Live κ} (e : Enumeration live) (config : Config) (version : Int)

/-- A session before its producers and its consumers. -/
def replaySession (session : SessionId κ × SessionInfo κ) : List (Command κ) :=
  .sessionInfo session.2 ::
    ((if config.restoreProducers then (e.producers session.1).map fun p => .producerInfo p.2 else []) ++
      if config.restoreConsumers then
        (e.consumers session.1).map fun c =>
          .consumerInfo (c.2.restored version (live.interrupted session.1.parentId))
      else [])

/-- A connection before its temporary destinations, its sessions and its open transactions. -/
def replayConnection (temps : List (DestinationInfo κ)) (connection : ConnectionId κ × ConnectionInfo κ) :
    List (Command κ) :=
  .connectionInfo connection.2 ::
    (temps.map .destinationInfo ++
      (if config.restoreSessions then (e.sessions connection.1).flatMap (e.replaySession config version) else []) ++
      if config.restoreTransaction then
        (e.transactions connection.1).flatMap fun tx => replayOpenTransaction tx.2
      else [])

/-- The one-phase commits of a connection that have not been answered. -/
def commitsInDoubt (id : ConnectionId κ) : List (TransactionInfo κ) :=
  if config.restoreTransaction then (e.transactions id).filterMap fun tx => inDoubt tx.2 else []

end Enumeration

/-- The enumeration that the maps of a tracker keep. -/
def Tracker.enumeration (t : Tracker κ) (hinv : t.Inv) : Enumeration t.live where
  sessions k :=
    match t.connectionStates.find k with
    | some cs => cs.sessions.entries.map (Prod.map id SessionState.info)
    | none => []
  producers k :=
    match t.session? k with
    | some ss => ss.producers.entries.map (Prod.map id ProducerState.info)
    | none => []
  consumers k :=
    match t.session? k with
    | some ss => ss.consumers.entries
    | none => []
  transactions k :=
    match t.connectionStates.find k with
    | some cs => cs.transactions.entries.filterMap fun e => (t.transactionStates[e.2]?).map (e.1, ·)
    | none => []
  sessions_enumerate k := by
    cases hcs : t.connectionStates.find k with
    | none =>
      apply enumerates_nil
      intro j
      simp only [Tracker.live, Tracker.session?]
      grind
    | some cs =>
      refine ((enumerates_entries cs.sessions).map SessionState.info).congr ?_
      intro j
      have hid := hinv.session_id k cs j
      simp only [Tracker.live]
      cases hfind : cs.sessions.find j <;> grind
  producers_enumerate k := by
    cases hss : t.session? k with
    | none =>
      apply enumerates_nil
      intro j
      simp only [Tracker.live, Tracker.producer?]
      grind
    | some ss =>
      refine ((enumerates_entries ss.producers).map ProducerState.info).congr ?_
      intro j
      have hid := hinv.producer_id k ss j
      simp only [Tracker.live, Tracker.producer?]
      cases hfind : ss.producers.find j <;> grind
  consumers_enumerate k := by
    cases hss : t.session? k with
    | none =>
      apply enumerates_nil
      intro j
      simp only [Tracker.live, Tracker.consumer?]
      grind
    | some ss =>
      refine (enumerates_entries ss.consumers).congr ?_
      intro j
      have hid := hinv.consumer_id k ss j
      simp only [Tracker.live, Tracker.consumer?]
      cases hfind : ss.consumers.find j <;> grind
  transactions_enumerate k := by
    cases hcs : t.connectionStates.find k with
    | none =>
      apply enumerates_nil
      intro x
      simp only [Tracker.live, Tracker.transaction?, Tracker.ref?, hcs]
      rfl
    | some cs =>
      refine ((enumerates_entries cs.transactions).filterMap fun ref => t.transactionStates[ref]?).congr ?_
      intro x
      exact (Tracker.transaction?_of_find hcs x).symm

section Agreement

variable {t : Tracker κ} {id : ConnectionId κ} {cs : ConnectionState κ} {live : Live κ}

theorem replaySessions_eq (e : Enumeration live) (hlive : t.live = live) (hinv : t.Inv)
    (hcs : t.connectionStates.find id = some cs) (config : Config) (version : Int) :
    (e.sessions id).flatMap (e.replaySession config version)
      = cs.sessions.values.flatMap (replaySessionState config version (live.interrupted id)) := by
  subst hlive
  rw [(e.sessions_enumerate id).unique ((t.enumeration hinv).sessions_enumerate id)]
  simp only [Tracker.enumeration, hcs, values, flatMap_map]
  apply flatMap_congr
  rintro ⟨k, ss⟩ hmem
  have hss := find_eq_some.mpr hmem
  have hk := (hinv.session_id id cs k ss hcs hss).1
  have hsession : t.session? k = some ss := by rw [Tracker.session?_of_find hcs hk, hss]
  rw [Enumeration.replaySession, (e.producers_enumerate _).unique ((t.enumeration hinv).producers_enumerate _),
    (e.consumers_enumerate _).unique ((t.enumeration hinv).consumers_enumerate _)]
  simp only [replaySessionState, Tracker.enumeration, Prod.map, hsession, hk, values, map_map, id_eq]
  rfl

theorem transactions_eq (e : Enumeration live) (hlive : t.live = live) (hinv : t.Inv)
    (hcs : t.connectionStates.find id = some cs) :
    (e.transactions id).map Prod.snd = transactionStatesOf cs t := by
  subst hlive
  rw [(e.transactions_enumerate id).unique ((t.enumeration hinv).transactions_enumerate id)]
  simp only [Tracker.enumeration, hcs, transactionStatesOf, values, map_filterMap,
    filterMap_map]
  apply filterMap_congr
  rintro ⟨x, ref⟩ _
  simp only [Option.map_map, Function.comp_apply]
  cases t.transactionStates[ref]? <;> rfl

end Agreement

theorem doRestoreTransactions_does {id : ConnectionId κ} (e : Enumeration live)
    (hlive : s.tracker.live = live) (hinv : s.tracker.Inv) (hsome : (live.connection id).isSome) :
    Does (doRestoreTransactions id) s fun _ s' =>
      Answers ((e.transactions id).filterMap fun tx => inDoubt tx.2)
        ((e.transactions id).flatMap fun tx => replayOpenTransaction tx.2) s s' := by
  obtain ⟨cs, hcs, -⟩ := find_of_live (by rw [hlive]; exact hsome)
  have htxs := transactions_eq e hlive hinv hcs
  have hne : ∀ tx ∈ transactionStatesOf cs s.tracker, tx.commands ≠ [] := by
    intro tx hmem
    rw [← htxs] at hmem
    obtain ⟨⟨x, tx⟩, hentry, rfl⟩ := mem_map.mp hmem
    have hfind := ((e.transactions_enumerate id).2 x tx).mp hentry
    rw [← hlive] at hfind
    exact hinv.commands_ne id x tx hfind
  rw [doRestoreTransactions]
  apply Does.lookup (onTracker_ok (getConnectionState_of_find hcs))
  apply Does.lookup (get_run s)
  refine (restoreTransactions_does hinv _ hne).bind ?_
  rintro _ s' ⟨hsent, rfl⟩
  refine ⟨_, _, _, hsent, (answerAll_does hsent.inv _).imp ?_⟩
  intro _ s'' hanswers
  have h := hsent.answers hanswers
  rwa [← htxs, filterMap_map, flatMap_map, append_nil] at h

/-- The connection is announced first, then what is below it, parents before their children. -/
theorem restoreConnection_does {id : ConnectionId κ} {info : ConnectionInfo κ}
    (e : Enumeration live) (hlive : s.tracker.live = live) (hinv : s.tracker.Inv)
    (hinfo : live.connection id = some info) (config : Config) (version : Int) :
    Does (restoreConnection config version id) s fun _ s' =>
      Answers (e.commitsInDoubt config id) (e.replayConnection config version (live.announced id) (id, info)) s s' := by
  rw [restoreConnection]
  have hflag := modifyConnectionState_does hinv id (f := ConnectionState.setFailoverReconnect) (fun _ => rfl)
    (fun _ => rfl) (fun _ => rfl) (fun _ => rfl) (fun _ => rfl)
  refine hflag.bind ?_
  rintro _ s₁ ⟨h₁, hfind⟩
  refine ⟨_, _, _, h₁, ?_⟩
  obtain ⟨cs, hcs, hreconnecting⟩ : ∃ cs, s.tracker.connectionStates.find id = some cs ∧ cs.info.reconnecting = info := by
    rw [← hlive] at hinfo
    exact Option.map_eq_some_iff.mp hinfo
  rw [hcs, Option.map_some] at hfind
  have hlive₁ : s₁.tracker.live = live := h₁.live_eq.trans hlive
  have htemps : live.announced id = cs.tempDestinations := by
    rw [← hlive]
    simp only [Tracker.live, hcs]
    rfl
  apply Does.lookup (onTracker_ok (getConnectionState_of_find hfind))
  apply (oneway_does h₁.inv _).then
  intro s₂ h₂
  apply (onewayAll_does h₂.inv _).then
  intro s₃ h₃
  have hlive₃ : s₃.tracker.live = live := (h₂.trans h₃).live_eq.trans hlive₁
  have hsome : (live.connection id).isSome := by
    rw [hinfo]
    rfl
  have hparent : ∀ ss ∈ cs.sessions.values, ss.info.sessionId.parentId = id := by
    intro ss hmem
    obtain ⟨k, hk⟩ := mem_values.mp hmem
    obtain ⟨hk', hid⟩ := hinv.session_id id cs k ss hcs hk
    rw [hid, hk']
  apply Does.when h₃.inv (doRestoreSessions_does h₃.inv config version _ hparent (by rw [hlive₃]; exact hsome))
  intro s₄ h₄
  have hsent : Sent (.connectionInfo info :: ((live.announced id).map .destinationInfo ++
      if config.restoreSessions then (e.sessions id).flatMap (e.replaySession config version) else [])) s s₄ := by
    rw [replaySessions_eq e hlive hinv hcs, htemps, ← hreconnecting, ← hlive₃]
    exact h₁.trans (h₂.trans (h₃.trans h₄))
  rw [Enumeration.commitsInDoubt, Enumeration.replayConnection]
  cases config.restoreTransaction with
  | false =>
    refine ⟨[], ?_, fun _ h => (not_mem_nil h).elim⟩
    simpa only [Bool.false_eq_true, if_false, append_nil, map_nil] using hsent
  | true =>
    refine (doRestoreTransactions_does e (hsent.live_eq.trans hlive) hsent.inv hsome).imp ?_
    intro _ s' hanswers
    exact hsent.answers hanswers

/-! ### The whole replay -/

/-- What is sent for the connections of a list. A request that a replay completes, because its commit is in
doubt, ends its transaction for the connections that are still to come. -/
inductive Replay (config : Config) (version : Int) (temps : ConnectionId κ → List (DestinationInfo κ)) :
    Live κ → List (ConnectionId κ × ConnectionInfo κ) → List (Command κ) → List (TransactionInfo κ) →
      List (Tracked κ) → Prop where
  | done (live : Live κ) : Replay config version temps live [] [] [] []
  | connection {live : Live κ} {id : ConnectionId κ} {info : ConnectionInfo κ}
      {connections : List (ConnectionId κ × ConnectionInfo κ)} {sent : List (Command κ)}
      {inDoubt : List (TransactionInfo κ)} {completed completed' : List (Tracked κ)} (e : Enumeration live)
      (hcompleted : completed ≠ [] → e.commitsInDoubt config id ≠ [])
      (hrest : Replay config version temps (completed.foldl Live.complete live) connections sent inDoubt completed') :
      Replay config version temps live ((id, info) :: connections)
        (e.replayConnection config version (temps id) (id, info) ++ sent) (e.commitsInDoubt config id ++ inDoubt)
        (completed ++ completed')

/-- Two models that differ in their transactions at most. -/
structure Live.SameObjects (live live' : Live κ) : Prop where
  connection : live'.connection = live.connection
  interrupted : live'.interrupted = live.interrupted
  announced : live'.announced = live.announced
  session : live'.session = live.session
  producer : live'.producer = live.producer
  consumer : live'.consumer = live.consumer

theorem Live.SameObjects.refl (live : Live κ) : live.SameObjects live := ⟨rfl, rfl, rfl, rfl, rfl, rfl⟩

theorem Live.SameObjects.trans {live' live'' : Live κ} (h : live.SameObjects live')
    (h' : live'.SameObjects live'') : live.SameObjects live'' where
  connection := h'.connection.trans h.connection
  interrupted := h'.interrupted.trans h.interrupted
  announced := h'.announced.trans h.announced
  session := h'.session.trans h.session
  producer := h'.producer.trans h.producer
  consumer := h'.consumer.trans h.consumer

theorem Live.sameObjects_complete (live : Live κ) (tracked : Tracked κ) : live.SameObjects (live.complete tracked) := by
  cases tracked with
  | marker => exact .refl live
  | removeTransaction info =>
    rw [Live.complete]
    cases info.transactionId <;> exact ⟨rfl, rfl, rfl, rfl, rfl, rfl⟩

theorem Live.sameObjects_foldl_complete (live : Live κ) (completed : List (Tracked κ)) :
    live.SameObjects (completed.foldl Live.complete live) := by
  induction completed generalizing live with
  | nil => exact .refl live
  | cons tracked completed ih => exact (live.sameObjects_complete tracked).trans (ih (live.complete tracked))

theorem restoreConnections_does (hinv : s.tracker.Inv) (config : Config) (version : Int)
    (connections : List (ConnectionId κ × ConnectionInfo κ))
    (hlive : ∀ id info, (id, info) ∈ connections → s.tracker.live.connection id = some info) :
    Does (restoreConnections config version (connections.map Prod.fst)) s fun _ s' => ∃ sent inDoubt completed,
      Replay config version s.tracker.live.announced s.tracker.live connections sent inDoubt completed ∧
      Replayed s s' sent (inDoubt.map fun info => ⟨info.commandId, info.transactionId⟩) completed := by
  induction connections generalizing s with
  | nil => exact ⟨[], [], [], .done _, Replayed.refl hinv⟩
  | cons connection connections ih =>
    obtain ⟨id, info⟩ := connection
    have e := s.tracker.enumeration hinv
    refine (restoreConnection_does e rfl hinv (hlive id info mem_cons_self) config version).bind ?_
    rintro _ s₁ ⟨completed, h₁, hfind⟩
    refine ⟨_, _, _, h₁, ?_⟩
    have hsame := Live.sameObjects_foldl_complete s.tracker.live completed
    rw [← h₁.live_eq] at hsame
    refine (ih h₁.inv fun id' info' hmem => ?_).imp ?_
    · rw [hsame.connection]
      exact hlive id' info' (mem_cons_of_mem _ hmem)
    · rintro _ s' ⟨sent, inDoubt, completed', hreplay, h'⟩
      rw [hsame.announced, h₁.live_eq] at hreplay
      refine ⟨_, _, _, .connection e ?_ hreplay, ?_⟩
      · intro hne
        obtain ⟨tracked, hmem⟩ := exists_mem_of_ne_nil _ hne
        obtain ⟨info', hinfo', -⟩ := hfind tracked hmem
        exact ne_nil_of_mem hinfo'
      · rw [map_append]
        exact h₁.trans h'

theorem Does.mapError (hm : Does m s post) (f : Failure → Failure) : Does (mapError f m) s post := by
  unfold Does at hm ⊢
  rw [Codec.mapError]
  cases hrun : m s with
  | ok a s' => rwa [hrun] at hm
  | error e s' => rwa [hrun] at hm

/-- The connections with what is below them, then the cached messages, then the cached pulls. -/
theorem restore_does (hinv : s.tracker.Inv) (config : Config) (version : Int) :
    Does (restore config version) s fun _ s' => ∃ connections sent inDoubt completed,
      Enumerates connections s.tracker.live.connection ∧
      Replay config version s.tracker.live.announced s.tracker.live connections sent inDoubt completed ∧
      Replayed s s' (sent ++ s.tracker.messageCache.map (fun e => .message e.2) ++
          s.tracker.messagePullCache.map fun e => .messagePull e.2)
        (inDoubt.map fun info => ⟨info.commandId, info.transactionId⟩) completed := by
  apply Does.mapError
  apply Does.lookup (get_run s)
  have henum : Enumerates (s.tracker.connectionStates.entries.map (Prod.map id fun cs => cs.info.reconnecting))
      s.tracker.live.connection := (enumerates_entries _).map _
  have hkeys : s.tracker.connectionStates.entries.map Prod.fst
      = (s.tracker.connectionStates.entries.map (Prod.map id fun cs => cs.info.reconnecting)).map Prod.fst := by
    rw [map_map]
    rfl
  rw [hkeys]
  refine (restoreConnections_does hinv config version _ fun id info hmem => (henum.2 id info).mp hmem).bind ?_
  rintro _ s₁ ⟨sent, inDoubt, completed, hreplay, h₁⟩
  refine ⟨_, _, _, h₁, ?_⟩
  apply Does.lookup (get_run s₁)
  rw [h₁.messages_eq, h₁.pulls_eq]
  apply (onewayAll_does h₁.inv _).then
  intro s₂ h₂
  refine (onewayAll_does h₂.inv _).imp ?_
  intro _ s' h'
  refine ⟨_, sent, inDoubt, completed, henum, hreplay, ?_⟩
  have h := Replayed.trans h₁ (h₂.trans h')
  rwa [append_nil, append_nil, ← append_assoc] at h

end ActiveMQCpp.State
