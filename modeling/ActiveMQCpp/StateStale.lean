import ActiveMQCpp.StateSimulation
import ActiveMQCpp.StateMessageCache

/-! Stale commands: those that name a connection, a session or a transaction that the tracker does not hold.
The methods of the tracker test what they have looked up for `NULL`, but a lookup that finds nothing
throws. -/

namespace ActiveMQCpp.State

open Codec MachineInt Decaf OrderedMap LinkedHashMap

variable {κ : Type} [LinearOrder κ]
variable {m : Message κ} {config : Config} {t : Tracker κ}

inductive ProcessCall (κ : Type) where
  | visit (command : Command κ)
  | removeDestination (info : DestinationInfo κ)

def process (config : Config) : ProcessCall κ → Track κ (Option (Tracked κ))
  | .visit command => track config command
  | .removeDestination info => processRemoveDestination info

/-- The transaction is not held for the connection, or is an XA transaction. -/
def Tracker.UnknownTransaction (t : Tracker κ) (id : ConnectionId κ) : TransactionId κ → Prop
  | .local x => t.ref? id x = none
  | .xa .. => True

/-- The call is about a connection, a session or a transaction that the tracker does not hold. What a call
adds is not held before it, so only the parents of that count; an acknowledgement may name anything. -/
def ProcessCall.Stale (t : Tracker κ) : ProcessCall κ → Prop
  | .visit (.sessionInfo info) => t.connectionStates.find info.sessionId.parentId = none
  | .visit (.producerInfo info) => t.session? info.producerId.parentId = none
  | .visit (.consumerInfo info) => t.session? info.consumerId.parentId = none
  | .visit (.destinationInfo info) => t.connectionStates.find info.connectionId = none
  | .removeDestination info => t.connectionStates.find info.connectionId = none
  | .visit (.removeInfo info) =>
    match info.objectId with
    | .connection id => t.connectionStates.find id = none
    | .session id => t.session? id = none
    | .producer id => t.session? id.parentId = none
    | .consumer id => t.session? id.parentId = none
    | .other => False
  | .visit (.message m) =>
    t.session? m.producerId.parentId = none ∨
      ∃ id, m.transactionId = some id ∧ t.UnknownTransaction m.producerId.parentId.parentId id
  | .visit (.messageAck _) => True
  | .visit (.transactionInfo info) =>
    t.connectionStates.find info.connectionId = none ∨
      (∃ formatId global branch, info.transactionId = .xa formatId global branch) ∨
      info.type ≠ .begin ∧ t.UnknownTransaction info.connectionId info.transactionId
  | _ => False

/-- The message cache is as it would be with the message put in it: the message is there already, or it is
evicted at once and counts for nothing. -/
def Tracker.Absorbs (config : Config) (t : Tracker κ) (m : Message κ) : Prop :=
  if t.currentCacheSize > config.maxMessageCacheSize then
    t.messageCache = [] ∧ toInt32 (t.currentCacheSize - m.size) = t.currentCacheSize
  else
    LinkedHashMap.containsKey m.messageId t.messageCache = true ∧
      ∀ e ∈ t.messageCache, e.1 = m.messageId → e.2 = m

/-- The calls that look nothing up, or look it up in a way that does not throw. -/
def ProcessCall.Harmless (config : Config) (t : Tracker κ) : ProcessCall κ → Prop
  | .visit (.messageAck _) => True
  | .visit (.removeInfo info) =>
    match info.objectId with
    | .connection _ => True
    | .session id => (t.connectionStates.find id.parentId).isSome
    | _ => False
  | .visit (.transactionInfo info) =>
    config.trackTransactions = false ∨ info.type = .forget ∨ info.type = .recover
  | .visit (.message m) =>
    (config.trackTransactions = false ∨ m.transactionId = none) ∧
      (config.trackMessages = true → t.Absorbs config m)
  | _ => False

/-- The program returns and leaves the tracker as it was. -/
def Unchanged {α : Type} (x : Track κ α) (t : Tracker κ) : Prop := ∃ a, x t = .ok a t

section Lookups

variable {t : Tracker κ} {α β : Type}

theorem not_unchanged_of_error {x : Track κ α} {e : Failure} {t' : Tracker κ} (h : x t = .error e t') :
    ¬Unchanged x t := by
  rintro ⟨a, ha⟩
  rw [h] at ha
  cases ha

theorem not_unchanged_of_no_connection {id : ConnectionId κ} {f : ConnectionState κ → Track κ α}
    (h : t.connectionStates.find id = none) : ¬Unchanged (getConnectionState id >>= f) t := by
  apply not_unchanged_of_error
  rw [getConnectionState_bind, found_bind, h]

theorem not_unchanged_of_no_session {id : SessionId κ} {f : ConnectionState κ → SessionState κ → Track κ α}
    (h : t.session? id = none) :
    ¬Unchanged (getConnectionState id.parentId >>= fun cs => found (cs.sessions.find id) >>= f cs) t := by
  cases hfind : t.connectionStates.find id.parentId with
  | none => exact not_unchanged_of_no_connection hfind
  | some cs =>
    have hsession : cs.sessions.find id = none := by simpa [Tracker.session?, hfind] using h
    apply not_unchanged_of_error
    rw [getConnectionState_bind, found_bind, hfind]
    show (found (cs.sessions.find id) >>= f cs) t = _
    rw [found_bind, hsession]

theorem not_unchanged_of_no_transaction {id : ConnectionId κ} {x : TransactionId κ}
    {f : ConnectionState κ → Nat → Track κ α} (h : t.UnknownTransaction id x) :
    ¬Unchanged (getConnectionState id >>= fun cs => getTransactionState cs x >>= f cs) t := by
  cases hfind : t.connectionStates.find id with
  | none => exact not_unchanged_of_no_connection hfind
  | some cs =>
    cases x with
    | xa formatId globalTransactionId branchQualifier =>
      apply not_unchanged_of_error
      rw [getConnectionState_bind, found_bind, hfind]
      rfl
    | «local» x =>
      apply not_unchanged_of_error
      rw [getConnectionState_bind, found_bind, hfind]
      have hmissing : cs.transactions.find x = none := by
        simpa [Tracker.UnknownTransaction, Tracker.ref?, hfind] using h
      show (found (cs.transactions.find x) >>= f cs) t = _
      rw [found_bind, hmissing]

end Lookups

/-! ### Messages -/

omit [LinearOrder κ] in
theorem putImpl_eq_self {cache : List (Nat × Message κ)} : putImpl m.messageId m cache = cache ↔
      containsKey m.messageId cache = true ∧ ∀ e ∈ cache, e.1 = m.messageId → e.2 = m := by
  constructor
  · intro h
    have hkey : containsKey m.messageId cache = true := by
      by_contra hnew
      rw [putImpl, if_neg hnew] at h
      have := congrArg List.length h
      simp at this
    rw [putImpl, if_pos hkey, replace] at h
    refine ⟨hkey, ?_⟩
    rintro ⟨k, v⟩ he rfl
    rw [← h] at he
    obtain ⟨⟨k', v'⟩, -, heq⟩ := List.mem_map.mp he
    split_ifs at heq with hk
    · cases heq
      rfl
    · cases heq
      exact absurd rfl hk
  · rintro ⟨hkey, hsame⟩
    exact putImpl_again hkey hsame

theorem cacheMessage_eq_self : cacheMessage config m t = t ↔ t.Absorbs config m := by
  obtain ⟨connectionStates, transactionStates, messageCache, currentCacheSize, messagePullCache⟩ := t
  by_cases hover : currentCacheSize > config.maxMessageCacheSize
  · simp only [cacheMessage, Tracker.Absorbs, if_pos hover, Tracker.mk.injEq, true_and, and_true]
    constructor
    · rintro ⟨htail, hsize⟩
      have hlength := congrArg List.length htail
      by_cases hkey : containsKey m.messageId messageCache = true
      · simp only [putImpl, hkey, if_true, replace, List.length_tail, List.length_map]
          at hlength
        cases messageCache with
        | nil => cases hkey
        | cons e rest => simp at hlength
      · rw [putImpl, if_neg hkey] at htail hsize
        cases messageCache with
        | nil => exact ⟨rfl, hsize⟩
        | cons e rest =>
          -- the message would be the youngest entry of a cache that does not have its key
          rw [List.cons_append, List.tail_cons] at htail
          have hmem : (m.messageId, m) ∈ e :: rest := by
            rw [← htail]
            exact List.mem_append_right _ List.mem_cons_self
          exact absurd (List.any_eq_true.mpr ⟨_, hmem, decide_eq_true rfl⟩) hkey
    · rintro ⟨rfl, hsize⟩
      exact ⟨rfl, hsize⟩
  · simp only [cacheMessage, Tracker.Absorbs, if_neg hover, Tracker.mk.injEq, true_and, and_true, putImpl_eq_self]

theorem modify_addCommand_ne {states : List (TransactionState κ)} {ref : Nat} (h : ref < states.length)
    (command : Command κ) : states.modify ref (TransactionState.addCommand command) ≠ states := by
  intro hsame
  have hget : (states.modify ref (TransactionState.addCommand command))[ref]? = states[ref]? := by rw [hsame]
  rw [List.getElem?_modify_eq, List.getElem?_eq_getElem h, Option.map_eq_map, Option.map_some,
    Option.some.injEq] at hget
  have hlength := congrArg (fun tx => tx.commands.length) hget
  simp [TransactionState.addCommand] at hlength

theorem not_unchanged_transacted {x : TransactionId κ}
    (hrefs : ∀ id x ref, t.ref? id x = some ref → ref < t.transactionStates.length)
    (htrack : config.trackTransactions = true) (hx : m.transactionId = some x) :
    ¬Unchanged (processMessage config m) t := by
  by_cases hunknown : t.UnknownTransaction m.producerId.parentId.parentId x
  · simp only [processMessage, htrack, hx]
    exact not_unchanged_of_no_transaction hunknown
  · cases x with
    | xa formatId globalTransactionId branchQualifier => exact absurd trivial hunknown
    | «local» y =>
      obtain ⟨ref, href⟩ := Option.ne_none_iff_exists'.mp hunknown
      obtain ⟨cs, hcs, htransaction⟩ := Option.bind_eq_some_iff.mp href
      have hchanged : ∀ t' : Tracker κ,
          t'.transactionStates = t.transactionStates.modify ref (TransactionState.addCommand (.message m)) → t' ≠ t := by
        rintro t' hstates rfl
        exact modify_addCommand_ne (hrefs _ _ _ href) _ hstates.symm
      have hrun : modifyTransactionState ref (.addCommand (.message m)) t
          = .ok ⟨⟩ (t.modifyTransaction ref (.addCommand (.message m))) := rfl
      rintro ⟨a, ha⟩
      simp only [processMessage, htrack, hx, getConnectionState_bind, found_bind, getTransactionState_bind, hcs,
        htransaction, bind_ok hrun] at ha
      cases hproducers : config.trackTransactionProducers with
      | false =>
        simp only [hproducers, Bool.false_eq_true, if_false] at ha
        exact hchanged _ rfl (EStateM.Result.ok.inj ha).2
      | true =>
        simp only [hproducers, if_true, found_bind] at ha
        cases hss : cs.sessions.find m.producerId.parentId with
        | none =>
          rw [hss] at ha
          cases ha
        | some ss =>
          simp only [hss] at ha
          cases hps : ss.producers.find m.producerId with
          | none =>
            rw [hps] at ha
            cases ha
          | some ps =>
            simp only [hps] at ha
            exact hchanged _ rfl (EStateM.Result.ok.inj ha).2

theorem unchanged_untransacted (h : config.trackTransactions = false ∨ m.transactionId = none) :
    Unchanged (processMessage config m) t ↔ (config.trackMessages = true → t.Absorbs config m) := by
  have hprocess : processMessage config m = (do
      if config.trackMessages then modify (cacheMessage config m)
      pure none) := by
    simp only [processMessage]
    split
    · rename_i htrack hx
      rw [htrack, hx] at h
      rcases h with h | h <;> cases h
    · rfl
  rw [hprocess, Unchanged]
  cases config.trackMessages with
  | false => exact ⟨fun _ h => (by cases h), fun _ => ⟨none, rfl⟩⟩
  | true =>
    rw [← cacheMessage_eq_self]
    constructor
    · rintro ⟨a, ha⟩ -
      exact (EStateM.Result.ok.inj ha).2
    · intro hsame
      refine ⟨none, ?_⟩
      show EStateM.Result.ok none (cacheMessage config m t) = _
      rw [hsame rfl]

/-! ### The other commands -/

theorem unchanged_removeSession {id : SessionId κ} (h : t.session? id = none) :
    Unchanged (processRemoveSession id) t ↔ (t.connectionStates.find id.parentId).isSome := by
  cases hfind : t.connectionStates.find id.parentId with
  | none => exact ⟨fun hu => absurd hu (not_unchanged_of_no_connection hfind), nofun⟩
  | some cs =>
    refine ⟨fun _ => rfl, fun _ => ⟨some .marker, ?_⟩⟩
    have hsession : cs.sessions.find id = none := by simpa [Tracker.session?, hfind] using h
    rw [processRemoveSession, getConnectionState_bind, found_bind, hfind]
    simp only [erase_of_find_none hsession]
    show EStateM.Result.ok _ { t with connectionStates := t.connectionStates.insert id.parentId cs } = _
    rw [insert_find_self hfind]

theorem not_unchanged_transactionInfo {info : TransactionInfo κ}
    (hstale : (ProcessCall.visit (.transactionInfo info)).Stale t) (htrack : config.trackTransactions = true)
    (hforget : info.type ≠ .forget) (hrecover : info.type ≠ .recover) :
    ¬Unchanged (processTransactionInfo config info) t := by
  have hrecord : info.type ≠ .begin → ∀ r : Option (Tracked κ),
      ¬Unchanged (recordTransactionInfo info >>= fun _ => pure r) t := by
    intro htype r
    have hunknown : t.UnknownTransaction info.connectionId info.transactionId := by
      rcases hstale with hconnection | ⟨formatId, global, branch, hxa⟩ | ⟨-, htransaction⟩
      · cases info.transactionId with
        | «local» x => simp [Tracker.UnknownTransaction, Tracker.ref?, hconnection]
        | xa => trivial
      · rw [hxa]
        trivial
      · exact htransaction
    simp only [recordTransactionInfo, bind_assoc]
    exact not_unchanged_of_no_transaction hunknown
  rw [processTransactionInfo, if_pos htrack]
  cases htype : info.type with
  | begin =>
    rcases hstale with hconnection | ⟨formatId, global, branch, hxa⟩ | ⟨hbegin, -⟩
    · exact not_unchanged_of_no_connection hconnection
    · cases hfind : t.connectionStates.find info.connectionId with
      | none => exact not_unchanged_of_no_connection hfind
      | some cs =>
        apply not_unchanged_of_error
        simp only [processBeginTransaction, getConnectionState_bind, found_bind, hfind, localTransactionId_bind, hxa]
        rfl
    · exact absurd htype hbegin
  | commitOnePhase => exact hrecord (by rw [htype]; decide) _
  | commitTwoPhase => exact hrecord (by rw [htype]; decide) _
  | «end» => exact hrecord (by rw [htype]; decide) _
  | prepare => exact hrecord (by rw [htype]; decide) _
  | rollback => exact hrecord (by rw [htype]; decide) _
  | forget => exact absurd htype hforget
  | recover => exact absurd htype hrecover

/-- A stale command does no harm exactly when nothing is looked up for it that may be missing. -/
theorem stale_unchanged_iff (config : Config) (t : Tracker κ) (call : ProcessCall κ)
    (hrefs : ∀ id x ref, t.ref? id x = some ref → ref < t.transactionStates.length) (hstale : call.Stale t) :
    Unchanged (process config call) t ↔ call.Harmless config t := by
  cases call with
  | removeDestination info => exact ⟨fun h => absurd h (not_unchanged_of_no_connection hstale), False.elim⟩
  | visit command =>
    have hmap : Unchanged (track config command) t ↔ _ := exists_congr fun _ => mapError_eq_ok
    rw [process, hmap]
    cases command with
    | sessionInfo info => exact ⟨fun h => not_unchanged_of_no_connection hstale h, False.elim⟩
    | producerInfo info => exact ⟨fun h => not_unchanged_of_no_session hstale h, False.elim⟩
    | consumerInfo info => exact ⟨fun h => not_unchanged_of_no_session hstale h, False.elim⟩
    | destinationInfo info => exact ⟨fun h => not_unchanged_of_no_connection hstale h, False.elim⟩
    | messageAck ack => exact ⟨fun _ => trivial, fun _ => ⟨none, rfl⟩⟩
    | message m =>
      show Unchanged (processMessage config m) t ↔ _
      by_cases huntracked : config.trackTransactions = false ∨ m.transactionId = none
      · rw [unchanged_untransacted huntracked]
        exact ⟨fun h => ⟨huntracked, h⟩, fun h => h.2⟩
      · obtain ⟨htrack, hsome⟩ := not_or.mp huntracked
        obtain ⟨x, hx⟩ := Option.ne_none_iff_exists'.mp hsome
        have hchanged := not_unchanged_transacted hrefs (Bool.eq_true_of_not_eq_false htrack) hx
        exact ⟨fun h => absurd h hchanged, fun h => absurd h.1 huntracked⟩
    | removeInfo info =>
      show Unchanged (processRemoveInfo info) t ↔ _
      obtain ⟨base, objectId⟩ := info
      cases objectId with
      | connection id =>
        refine ⟨fun _ => trivial, fun _ => ⟨some .marker, ?_⟩⟩
        show EStateM.Result.ok _ { t with connectionStates := t.connectionStates.erase id } = _
        rw [erase_of_find_none hstale]
      | session id => exact unchanged_removeSession hstale
      | producer id => exact ⟨fun h => not_unchanged_of_no_session hstale h, False.elim⟩
      | consumer id => exact ⟨fun h => not_unchanged_of_no_session hstale h, False.elim⟩
      | other => exact hstale.elim
    | transactionInfo info =>
      show Unchanged (processTransactionInfo config info) t ↔ _
      constructor
      · intro h
        by_contra hharmful
        simp only [ProcessCall.Harmless, not_or] at hharmful
        exact not_unchanged_transactionInfo hstale (Bool.eq_true_of_not_eq_false hharmful.1) hharmful.2.1
          hharmful.2.2 h
      · intro h
        refine ⟨none, ?_⟩
        rw [processTransactionInfo]
        rcases h with huntracked | hforget | hrecover
        · rw [if_neg (by rw [huntracked]; exact Bool.false_ne_true)]
          rfl
        · rw [hforget]
          split_ifs <;> rfl
        · rw [hrecover]
          split_ifs <;> rfl
    | connectionInfo | messagePull | connectionControl | shutdownInfo | tracked | other => exact hstale.elim

/-- A tracker that holds one connection and nothing else. -/
def oneConnection : Tracker Nat :=
  { Tracker.new with connectionStates := OrderedMap.empty.insert ⟨0⟩ (ConnectionState.new { connectionId := ⟨0⟩ }) }

def removeOf (id : ObjectId Nat) : ProcessCall Nat := .visit (.removeInfo { objectId := id })

def beginXA : ProcessCall Nat :=
  .visit (.transactionInfo { connectionId := ⟨0⟩, transactionId := .xa 1 [] [], type := .begin })

/-- A session that is removed a second time. -/
theorem removed_session_unchanged :
    (removeOf (.session ⟨0, 7⟩)).Stale oneConnection ∧
      Unchanged (process {} (removeOf (.session ⟨0, 7⟩))) oneConnection := by
  have hstale : (removeOf (.session ⟨0, 7⟩)).Stale oneConnection := rfl
  refine ⟨hstale, (stale_unchanged_iff {} oneConnection _ ?_ hstale).mpr rfl⟩
  intro id x ref href
  obtain ⟨cs, hcs, htransaction⟩ := Option.bind_eq_some_iff.mp href
  simp only [oneConnection, find_insert, find_empty] at hcs
  split_ifs at hcs
  cases hcs
  cases htransaction

/-- A consumer whose connection is gone cannot be removed, and an XA transaction cannot begin. -/
theorem stale_commands_fail :
    ((removeOf (.consumer ⟨0, 1, 2⟩)).Stale Tracker.new ∧
      ¬Unchanged (process {} (removeOf (.consumer ⟨0, 1, 2⟩))) Tracker.new) ∧
    beginXA.Stale oneConnection ∧ ¬Unchanged (process { trackTransactions := true } beginXA) oneConnection := by
  refine ⟨⟨rfl, ?_⟩, ?_, ?_⟩
  · rintro ⟨a, ha⟩
    cases ha
  · exact .inr (.inl ⟨1, [], [], rfl⟩)
  · rintro ⟨a, ha⟩
    cases ha

end ActiveMQCpp.State
