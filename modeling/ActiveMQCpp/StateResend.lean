import ActiveMQCpp.StateScope

/-! A replay makes good every stored command: it is sent, or its transaction is answered. -/

namespace ActiveMQCpp.State

open Codec Decaf OrderedMap List Option

variable {κ : Type} [LinearOrder κ]

/-- How a replay makes good a command that was stored when it began. -/
def Resent (live : Live κ) (sent : List (Command κ)) (answered : List (ExceptionResponse κ)) : Command κ → Prop
  | .connectionInfo info => .connectionInfo info.reconnecting ∈ sent
  | .sessionInfo info => .sessionInfo info ∈ sent
  | .producerInfo info => .producerInfo info ∈ sent
  | .consumerInfo info => .consumerInfo info ∈ sent ∨ .consumerInfo { info with prefetchSize := 0 } ∈ sent
  | .destinationInfo info => .destinationInfo info ∈ sent
  | .removeInfo info => live.Gone info.objectId
  | .message msg => .message msg ∈ sent ∨ ∃ r ∈ answered, msg.transactionId = some r.transactionId
  | .transactionInfo info => .transactionInfo info ∈ sent ∨ ∃ r ∈ answered, info.transactionId = r.transactionId
  | _ => False

section Replays

variable {config : Config} {version : Int} {temps : ConnectionId κ → List (DestinationInfo κ)} {live : Live κ}
  {connections : List (ConnectionId κ × ConnectionInfo κ)} {sent : List (Command κ)}
  {doubts : List (TransactionInfo κ)} {completed : List (Tracked κ)}
variable {x : LocalTransactionId κ}

/-- Each connection is replayed from what is live when its turn comes. -/
theorem Replay.covers (h : Replay config version temps live connections sent doubts completed)
    {connection : ConnectionId κ × ConnectionInfo κ} (hmem : connection ∈ connections) :
    ∃ (before after : List (Tracked κ)) (live' : Live κ) (e : Enumeration live'), completed = before ++ after ∧
      live' = before.foldl Live.complete live ∧
      e.replayConnection config version (temps connection.1) connection ⊆ sent ∧
      e.commitsInDoubt config connection.1 ⊆ doubts := by
  induction h with
  | done => cases hmem
  | @connection live id info connections sent inDoubt completed completed' e hcompleted hrest ih =>
    rcases mem_cons.mp hmem with rfl | hlater
    · exact ⟨[], _, live, e, rfl, rfl, subset_append_left _ _, subset_append_left _ _⟩
    · obtain ⟨before, after, live', e', heq, hlive', hsent, hdoubts⟩ := ih hlater
      refine ⟨completed ++ before, after, live', e', by rw [heq, append_assoc], ?_,
        subset_append_of_subset_right _ hsent, subset_append_of_subset_right _ hdoubts⟩
      rw [hlive', foldl_append]

section Connection

variable {live' : Live κ} (e : Enumeration live') (config : Config) (version : Int)
  (temps : List (DestinationInfo κ)) (connection : ConnectionId κ × ConnectionInfo κ)
variable {command : Command κ} {session : SessionId κ × SessionInfo κ}

theorem connectionInfo_mem : .connectionInfo connection.2 ∈ e.replayConnection config version temps connection :=
  mem_cons_self

theorem destinationInfo_mem {info : DestinationInfo κ} (h : info ∈ temps) :
    .destinationInfo info ∈ e.replayConnection config version temps connection := by
  apply mem_cons_of_mem
  exact mem_append_left _ (mem_append_left _ (mem_map_of_mem h))

theorem session_mem {k : SessionId κ} {info : SessionInfo κ}
    (hrestore : config.restoreSessions = true) (hk : k.parentId = connection.1) (hinfo : live'.session k = some info)
    (hcommand : command ∈ e.replaySession config version (k, info)) :
    command ∈ e.replayConnection config version temps connection := by
  apply mem_cons_of_mem
  apply mem_append_left
  apply mem_append_right
  rw [if_pos hrestore]
  refine mem_flatMap.mpr ⟨(k, info), ?_, hcommand⟩
  exact ((e.sessions_enumerate connection.1).2 k info).mpr ((if_pos hk).trans hinfo)

theorem sessionInfo_mem (session : SessionId κ × SessionInfo κ) :
    .sessionInfo session.2 ∈ e.replaySession config version session :=
  mem_cons_self

theorem producerInfo_mem {p : ProducerId κ} {info : ProducerInfo κ}
    (hrestore : config.restoreProducers = true) (hp : p.parentId = session.1) (hinfo : live'.producer p = some info) :
    .producerInfo info ∈ e.replaySession config version session := by
  apply mem_cons_of_mem
  apply mem_append_left
  rw [if_pos hrestore]
  refine mem_map.mpr ⟨(p, info), ?_, rfl⟩
  exact ((e.producers_enumerate session.1).2 p info).mpr ((if_pos hp).trans hinfo)

theorem consumerInfo_mem {c : ConsumerId κ} {info : ConsumerInfo κ}
    (hrestore : config.restoreConsumers = true) (hc : c.parentId = session.1) (hinfo : live'.consumer c = some info) :
    .consumerInfo (info.restored version (live'.interrupted session.1.parentId))
      ∈ e.replaySession config version session := by
  apply mem_cons_of_mem
  apply mem_append_right
  rw [if_pos hrestore]
  refine mem_map.mpr ⟨(c, info), ?_, rfl⟩
  exact ((e.consumers_enumerate session.1).2 c info).mpr ((if_pos hc).trans hinfo)

theorem recorded_mem {x : LocalTransactionId κ} {tx : TransactionState κ}
    (hrestore : config.restoreTransaction = true) (htx : live'.transaction connection.1 x = some tx)
    (hcommand : command ∈ tx.commands) :
    command ∈ e.replayConnection config version temps connection ∨
      ∃ info, .transactionInfo info ∈ tx.commands ∧ info ∈ e.commitsInDoubt config connection.1 := by
  have hentry : (x, tx) ∈ e.transactions connection.1 := by
    rw [(e.transactions_enumerate connection.1).2 x tx, htx]
  cases hdoubt : inDoubt tx with
  | some info =>
    right
    refine ⟨info, ?_, ?_⟩
    · unfold inDoubt at hdoubt
      split at hdoubt
      · rename_i hlast
        split_ifs at hdoubt
        cases hdoubt
        exact mem_of_getLast? hlast
      · cases hdoubt
    · rw [Enumeration.commitsInDoubt, if_pos hrestore]
      exact mem_filterMap.mpr ⟨(x, tx), hentry, hdoubt⟩
  | none =>
    left
    apply mem_cons_of_mem
    apply mem_append_right
    rw [if_pos hrestore]
    refine mem_flatMap.mpr ⟨(x, tx), hentry, ?_⟩
    rw [replayOpenTransaction, hdoubt]
    exact mem_append_left _ (mem_append_right _ hcommand)

end Connection

/-! ### Parents -/

section Parents

variable {t : Tracker κ}

theorem connection_of_session {k : SessionId κ} {info : SessionInfo κ} (h : t.live.session k = some info) :
    ∃ info', t.live.connection k.parentId = some info' := by
  obtain ⟨ss, hss, -⟩ := map_eq_some_iff.mp h
  obtain ⟨cs, hcs, -⟩ := bind_eq_some_iff.mp hss
  exact ⟨cs.info.reconnecting, by simp only [Tracker.live, hcs, map_some]⟩

theorem session_of_producer {p : ProducerId κ} {info : ProducerInfo κ} (h : t.live.producer p = some info) :
    ∃ info', t.live.session p.parentId = some info' := by
  obtain ⟨ps, hps, -⟩ := map_eq_some_iff.mp h
  obtain ⟨ss, hss, -⟩ := bind_eq_some_iff.mp hps
  exact ⟨ss.info, by simp only [Tracker.live, hss, map_some]⟩

theorem session_of_consumer {c : ConsumerId κ} {info : ConsumerInfo κ} (h : t.live.consumer c = some info) :
    ∃ info', t.live.session c.parentId = some info' := by
  obtain ⟨ss, hss, -⟩ := bind_eq_some_iff.mp h
  exact ⟨ss.info, by simp only [Tracker.live, hss, map_some]⟩

theorem connection_of_transaction {id : ConnectionId κ} {x : LocalTransactionId κ} {tx : TransactionState κ}
    (h : t.live.transaction id x = some tx) : ∃ info, t.live.connection id = some info := by
  obtain ⟨ref, href, -⟩ := bind_eq_some_iff.mp h
  obtain ⟨cs, hcs, -⟩ := bind_eq_some_iff.mp href
  exact ⟨cs.info.reconnecting, by simp only [Tracker.live, hcs, map_some]⟩

end Parents

/-! ### Making good -/

theorem continues_foldl_complete {id : ConnectionId κ} {tx : TransactionState κ}
    (htx : live.transaction id x = some tx)
    (hkeeps : ∀ tracked ∈ completed, (Event.completed tracked).Keeps (.transaction id x)) :
    Continues tx ((completed.foldl Live.complete live).transaction id x) := by
  induction completed generalizing live tx with
  | nil => exact .of_eq htx
  | cons tracked completed ih =>
    obtain ⟨tx₁, htx₁, hsub₁⟩ := continues_complete htx (hkeeps tracked mem_cons_self)
    obtain ⟨tx₂, htx₂, hsub₂⟩ := ih htx₁ fun tracked' h => hkeeps tracked' (mem_cons_of_mem _ h)
    exact ⟨tx₂, htx₂, List.Subset.trans hsub₁ hsub₂⟩

theorem labelled_foldl_complete (completed : List (Tracked κ)) (h : live.Labelled) : (completed.foldl Live.complete live).Labelled := by
  induction completed generalizing live with
  | nil => exact h
  | cons tracked completed ih => exact ih (h.complete tracked)

variable {t : Tracker κ} (henum : Enumerates connections t.live.connection)
  (hreplay : Replay config version t.live.announced t.live connections sent doubts completed)

include henum hreplay

theorem covers_of_live {id : ConnectionId κ} {info : ConnectionInfo κ} (hinfo : t.live.connection id = some info) :
    ∃ (before after : List (Tracked κ)) (live' : Live κ) (e : Enumeration live'), completed = before ++ after ∧
      live' = before.foldl Live.complete t.live ∧ t.live.SameObjects live' ∧
      e.replayConnection config version (t.live.announced id) (id, info) ⊆ sent ∧
      e.commitsInDoubt config id ⊆ doubts := by
  obtain ⟨before, after, live', e, hcompleted, hlive', hsent, hdoubts⟩ :=
    hreplay.covers ((henum.2 id info).mpr hinfo)
  refine ⟨before, after, live', e, hcompleted, hlive', ?_, hsent, hdoubts⟩
  rw [hlive']
  exact Live.sameObjects_foldl_complete _ _

theorem session_sent {k : SessionId κ} {info : SessionInfo κ} (hrestore : config.restoreSessions = true)
    (hinfo : t.live.session k = some info) :
    ∃ (live' : Live κ) (e : Enumeration live'), t.live.SameObjects live' ∧
      e.replaySession config version (k, info) ⊆ sent := by
  obtain ⟨connection, hconnection⟩ := connection_of_session hinfo
  obtain ⟨_, _, live', e, _, _, hsame, hsent, _⟩ := covers_of_live henum hreplay hconnection
  refine ⟨live', e, hsame, fun command hcommand => hsent ?_⟩
  exact session_mem e config version _ _ hrestore rfl (by rw [hsame.session, hinfo]) hcommand

theorem recorded_sent {id : ConnectionId κ} {command : Command κ}
    (hrestore : config.restoreTransaction = true) (hlabel : t.live.Labelled)
    (hrecords : t.live.Records command id (some (.local x)))
    (hkeeps : ∀ tracked ∈ completed, (Event.completed tracked).Keeps (.transaction id x)) :
    command ∈ sent ∨ ∃ info ∈ doubts, info.transactionId = .local x := by
  obtain ⟨tx, htx, hcommand⟩ := hrecords
  obtain ⟨connection, hconnection⟩ := connection_of_transaction htx
  obtain ⟨before, after, live', e, hcompleted, hlive', _, hsent, hdoubts⟩ := covers_of_live henum hreplay hconnection
  obtain ⟨tx', htx', hsub⟩ := continues_foldl_complete htx fun tracked h =>
    hkeeps tracked (by rw [hcompleted]; exact mem_append_left _ h)
  rw [← hlive'] at htx'
  rcases recorded_mem e config version _ (id, connection) hrestore htx' (hsub hcommand) with hmem | ⟨info, hinfo, hdoubt⟩
  · exact .inl (hsent hmem)
  · refine .inr ⟨info, hdoubts hdoubt, ?_⟩
    have hlabel' := labelled_foldl_complete before hlabel
    rw [← hlive'] at hlabel'
    exact hlabel' id x tx' info htx' hinfo

/-- A replay that restores everything makes good every stored command that its own completions do not
end. -/
theorem resent_of_stored (hsessions : config.restoreSessions = true) (hproducers : config.restoreProducers = true)
    (hconsumers : config.restoreConsumers = true) (htransactions : config.restoreTransaction = true)
    (hlabel : t.live.Labelled) {command : Command κ} (hstored : t.live.Stored command)
    (hkeeps : ∀ tracked ∈ completed, (Event.completed tracked).KeepsCommand command) :
    Resent t.live sent (doubts.map fun info => ⟨info.commandId, info.transactionId⟩) command := by
  have hanswered : ∀ x, (∃ info ∈ doubts, info.transactionId = .local x) →
      ∃ r ∈ doubts.map (fun info => (⟨info.commandId, info.transactionId⟩ : ExceptionResponse κ)),
        TransactionId.local x = r.transactionId := by
    rintro x ⟨info, hinfo, hx⟩
    exact ⟨_, mem_map_of_mem hinfo, hx.symm⟩
  cases command with
  | connectionInfo info =>
    obtain ⟨_, _, _, e, _, _, _, hsent, _⟩ := covers_of_live henum hreplay hstored
    exact hsent (connectionInfo_mem e config version _ _)
  | sessionInfo info =>
    obtain ⟨_, e, _, hsent⟩ := session_sent henum hreplay hsessions hstored
    exact hsent (sessionInfo_mem e config version _)
  | producerInfo info =>
    obtain ⟨session, hsession⟩ := session_of_producer hstored
    obtain ⟨_, e, hsame, hsent⟩ := session_sent henum hreplay hsessions hsession
    exact hsent (producerInfo_mem e config version hproducers rfl (by rw [hsame.producer]; exact hstored))
  | consumerInfo info =>
    obtain ⟨session, hsession⟩ := session_of_consumer hstored
    obtain ⟨_, e, hsame, hsent⟩ := session_sent henum hreplay hsessions hsession
    have hmem := hsent (consumerInfo_mem e config version hconsumers rfl (by rw [hsame.consumer]; exact hstored))
    rw [ConsumerInfo.restored] at hmem
    split_ifs at hmem
    · exact .inr hmem
    · exact .inl hmem
  | destinationInfo info =>
    obtain ⟨connection, hconnection⟩ := isSome_iff_exists.mp hstored.2
    obtain ⟨_, _, _, e, _, _, _, hsent, _⟩ := covers_of_live henum hreplay hconnection
    exact hsent (destinationInfo_mem e config version _ _ hstored.1)
  | removeInfo info => exact hstored
  | message msg =>
    change t.live.Records _ _ msg.transactionId at hstored
    rcases hid : msg.transactionId with _ | x | _ <;> rw [hid] at hstored
    · exact hstored.elim
    · have hscope : (Command.message msg).scope = some (.transaction msg.producerId.connection x) := by
        rw [Command.scope, hid]
        rfl
      rcases recorded_sent henum hreplay htransactions hlabel hstored fun tracked h => hkeeps tracked h _ hscope
        with hmem | hdoubt
      · exact .inl hmem
      · obtain ⟨r, hr, hx⟩ := hanswered x hdoubt
        exact .inr ⟨r, hr, by rw [hid, hx]⟩
    · exact hstored.elim
  | transactionInfo info =>
    change t.live.Records _ _ (some info.transactionId) at hstored
    cases hid : info.transactionId with
    | xa =>
      rw [hid] at hstored
      exact hstored.elim
    | «local» x =>
      rw [hid] at hstored
      have hscope : (Command.transactionInfo info).scope = some (.transaction info.connectionId x) := by
        rw [Command.scope, hid]
        rfl
      rcases recorded_sent henum hreplay htransactions hlabel hstored fun tracked h => hkeeps tracked h _ hscope
        with hmem | hdoubt
      · exact .inl hmem
      · obtain ⟨r, hr, hx⟩ := hanswered x hdoubt
        exact .inr ⟨r, hr, by rw [hid, hx]⟩
  | _ => exact hstored.elim

end Replays

end ActiveMQCpp.State
