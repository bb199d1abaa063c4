import ActiveMQCpp.StateHistory

/-! How long a command stays stored for a replay: from the moment the tracker has taken it to the moment
something it lies below is added anew, removed, or ended. -/

namespace ActiveMQCpp.State

open Codec Decaf OrderedMap Live Tracker

variable {κ : Type} [LinearOrder κ]

/-- A node of the tree of objects that a tracker keeps. -/
inductive Scope (κ : Type) where
  | connection (id : ConnectionId κ)
  | session (id : SessionId κ)
  | producer (id : ProducerId κ)
  | consumer (id : ConsumerId κ)
  | transaction (id : ConnectionId κ) (x : LocalTransactionId κ)

/-- The first node is the second one or lies below it. -/
def Scope.Within : Scope κ → Scope κ → Prop
  | .connection k, .connection id => k = id
  | .session k, .connection id => k.parentId = id
  | .session k, .session id => k = id
  | .producer k, .connection id => k.connection = id
  | .producer k, .session id => k.parentId = id
  | .producer k, .producer id => k = id
  | .consumer k, .connection id => k.connection = id
  | .consumer k, .session id => k.parentId = id
  | .consumer k, .consumer id => k = id
  | .transaction k _, .connection id => k = id
  | .transaction k y, .transaction id x => k = id ∧ y = x
  | _, _ => False

def ObjectId.scope : ObjectId κ → Option (Scope κ)
  | .connection id => some (.connection id)
  | .session id => some (.session id)
  | .producer id => some (.producer id)
  | .consumer id => some (.consumer id)
  | .other => none

def transactionScope (id : ConnectionId κ) : TransactionId κ → Option (Scope κ)
  | .local x => some (.transaction id x)
  | .xa .. => none

/-- The node that a command is stored at. -/
def Command.scope : Command κ → Option (Scope κ)
  | .connectionInfo info => some (.connection info.connectionId)
  | .sessionInfo info => some (.session info.sessionId)
  | .producerInfo info => some (.producer info.producerId)
  | .consumerInfo info => some (.consumer info.consumerId)
  | .destinationInfo info => some (.connection info.connectionId)
  | .removeInfo info => info.objectId.scope
  | .message msg => msg.transactionId.bind (transactionScope msg.producerId.connection)
  | .transactionInfo info => transactionScope info.connectionId info.transactionId
  | _ => none

/-- The node whose state a command replaces or removes when it is tracked. -/
def Command.resets : Command κ → Option (Scope κ)
  | .connectionInfo info => some (.connection info.connectionId)
  | .sessionInfo info => some (.session info.sessionId)
  | .producerInfo info => some (.producer info.producerId)
  | .consumerInfo info => some (.consumer info.consumerId)
  | .removeInfo info => info.objectId.scope
  | .transactionInfo info =>
    if info.type = .begin then transactionScope info.connectionId info.transactionId else none
  | _ => none

def Tracked.resets : Tracked κ → Option (Scope κ)
  | .marker => none
  | .removeTransaction info => transactionScope info.connectionId info.transactionId

def Event.resets : Event κ → Option (Scope κ)
  | .tracked command => command.resets
  | .completed request => request.resets
  | _ => none

/-- The event replaces nothing at or above the node. -/
def Event.Keeps (event : Event κ) (node : Scope κ) : Prop := ∀ r, event.resets = some r → ¬node.Within r

/-! ### What an event leaves as it is -/

/-- What is known of a node that is no transaction. -/
inductive View (κ : Type) where
  | connection (info : Option (ConnectionInfo κ))
  | session (info : Option (SessionInfo κ))
  | producer (info : Option (ProducerInfo κ))
  | consumer (info : Option (ConsumerInfo κ))
  | transaction

def Live.view (live : Live κ) : Scope κ → View κ
  | .connection id => .connection (live.connection id)
  | .session id => .session (live.session id)
  | .producer id => .producer (live.producer id)
  | .consumer id => .consumer (live.consumer id)
  | .transaction _ _ => .transaction

section Frame

variable {config : Config} {live : Live κ} {node : Scope κ}
variable {event : Event κ}

theorem view_remove {id : ObjectId κ} (h : ∀ r, id.scope = some r → ¬node.Within r) :
    (live.remove id).view node = live.view node := by
  cases id with
  | connection k =>
    have hne := h _ rfl
    cases node <;> simp only [view, remove, dropConnection, Scope.Within] at hne ⊢ <;> grind
  | session k =>
    have hne := h _ rfl
    cases node <;> simp only [view, remove, dropSession, Scope.Within] at hne ⊢ <;> grind
  | producer k =>
    have hne := h _ rfl
    cases node <;> simp only [view, remove, dropProducer, Scope.Within] at hne ⊢
    grind
  | consumer k =>
    have hne := h _ rfl
    cases node <;> simp only [view, remove, dropConsumer, Scope.Within] at hne ⊢
    grind
  | other => rfl

theorem sameObjects_recordMessage (message : Message κ) : live.SameObjects (live.recordMessage config message) := by
  unfold recordMessage
  split
  · split_ifs <;> exact ⟨rfl, rfl, rfl, rfl, rfl, rfl⟩
  · exact .refl live

theorem sameObjects_noteProducer (message : Message κ) : live.SameObjects (live.noteProducer config message) := by
  unfold noteProducer
  split
  · split_ifs <;> exact ⟨rfl, rfl, rfl, rfl, rfl, rfl⟩
  · exact .refl live

theorem sameObjects_transactionInfo (info : TransactionInfo κ) : live.SameObjects (live.transactionInfo info) := by
  rw [transactionInfo]
  cases info.transactionId with
  | xa => exact .refl live
  | «local» x => cases info.type <;> exact ⟨rfl, rfl, rfl, rfl, rfl, rfl⟩

theorem Live.SameObjects.view {live' : Live κ} (h : live.SameObjects live') : live'.view node = live.view node := by
  cases node <;> simp only [view, h.connection, h.session, h.producer, h.consumer]

theorem sameObjects_message (message : Message κ) : live.SameObjects (live.track config (.message message)) :=
  (sameObjects_recordMessage message).trans (sameObjects_noteProducer message)

theorem sameObjects_track_transactionInfo (info : TransactionInfo κ) :
    live.SameObjects (live.track config (.transactionInfo info)) := by
  rw [Live.track]
  split_ifs
  · exact sameObjects_transactionInfo info
  · exact .refl live

theorem view_track {command : Command κ} (h : ∀ r, command.resets = some r → ¬node.Within r) :
    (live.track config command).view node = live.view node := by
  cases command with
  | connectionInfo info =>
    have hne := h _ rfl
    have hparent : (defaultSession info.connectionId).sessionId.parentId = info.connectionId := rfl
    cases node <;>
      simp only [Live.view, Live.track, Live.addConnection, Live.addSession, Live.dropSession,
        Live.dropConnection, Scope.Within] at hne ⊢ <;>
      grind
  | sessionInfo info =>
    have hne := h _ rfl
    cases node <;>
      simp only [Live.view, Live.track, Live.addSession, Live.dropSession, Scope.Within] at hne ⊢ <;> grind
  | producerInfo info =>
    have hne := h _ rfl
    cases node <;> simp only [Live.view, Live.track, Live.addProducer, Scope.Within] at hne ⊢
    grind
  | consumerInfo info =>
    have hne := h _ rfl
    cases node <;> simp only [Live.view, Live.track, Live.addConsumer, Scope.Within] at hne ⊢
    grind
  | destinationInfo info =>
    rw [Live.track]
    split_ifs <;> cases node <;> rfl
  | removeInfo info => exact view_remove h
  | transactionInfo info => exact (sameObjects_track_transactionInfo info).view
  | message message => exact (sameObjects_message message).view
  | _ => rfl

theorem view_step (config : Config) (live : Live κ) (h : event.Keeps node) : (live.step config event).view node = live.view node := by
  cases event with
  | tracked command => exact view_track h
  | refused command =>
    cases command with
    | message message => exact (sameObjects_recordMessage message).view
    | _ => rfl
  | completed tracked => exact (live.sameObjects_complete tracked).view
  | interrupted => cases node <;> rfl
  | resumed id => cases node <;> rfl

theorem announced_step {id : ConnectionId κ} {info : DestinationInfo κ}
    (h : event.Keeps (.connection id)) (hinfo : info ∈ live.announced id) :
    info ∈ (live.step config event).announced id := by
  cases event with
  | tracked command =>
    cases command with
    | connectionInfo info' =>
      have hne : ¬id = info'.connectionId := h _ rfl
      simp only [Live.step, Live.track, Live.addConnection, Live.addSession, Live.dropSession,
        Live.dropConnection, if_neg hne]
      exact hinfo
    | destinationInfo info' =>
      simp only [Live.step, Live.track]
      split_ifs
      · simp only [Live.announce]
        split_ifs
        · exact List.mem_append_left _ hinfo
        · exact hinfo
      · exact hinfo
    | removeInfo info' =>
      simp only [Live.step, Live.track]
      cases hid : info'.objectId with
      | connection k =>
        have hne : ¬id = k := h (.connection k) (by simp only [Event.resets, Command.resets, hid, ObjectId.scope])
        simp only [Live.remove, Live.dropConnection, if_neg hne]
        exact hinfo
      | _ => exact hinfo
    | transactionInfo info' =>
      rw [Live.step, (sameObjects_track_transactionInfo info').announced]
      exact hinfo
    | message message =>
      rw [Live.step, (sameObjects_message message).announced]
      exact hinfo
    | _ => exact hinfo
  | refused command =>
    cases command with
    | message message =>
      rw [Live.step, Live.refuse, (sameObjects_recordMessage message).announced]
      exact hinfo
    | _ => exact hinfo
  | completed tracked =>
    rw [Live.step, (live.sameObjects_complete tracked).announced]
    exact hinfo
  | interrupted => exact hinfo
  | resumed k => exact hinfo

/-! ### Transactions -/

variable {k : ConnectionId κ} {x : LocalTransactionId κ} {tx : TransactionState κ}

/-- A transaction that goes on with at least the commands of another one. -/
def Continues (tx : TransactionState κ) (o : Option (TransactionState κ)) : Prop :=
  ∃ tx', o = some tx' ∧ tx.commands ⊆ tx'.commands

theorem Continues.of_eq {o : Option (TransactionState κ)} (h : o = some tx) : Continues tx o :=
  ⟨tx, h, List.Subset.refl _⟩

theorem continues_record (htx : live.transaction k x = some tx) (id : ConnectionId κ) (y : LocalTransactionId κ)
    (command : Command κ) : Continues tx ((live.record id y command).transaction k x) := by
  simp only [record, htx]
  split_ifs
  · exact ⟨_, rfl, List.subset_append_left _ _⟩
  · exact .of_eq rfl

theorem continues_recordMessage (htx : live.transaction k x = some tx) (message : Message κ) :
    Continues tx ((live.recordMessage config message).transaction k x) := by
  unfold recordMessage
  split
  · split_ifs
    · exact continues_record htx _ _ _
    · exact .of_eq htx
  · exact .of_eq htx

theorem transaction_noteProducer (message : Message κ) :
    (live.noteProducer config message).transaction = live.transaction := by
  unfold noteProducer
  split
  · split_ifs <;> rfl
  · rfl

theorem continues_transactionInfo {info : TransactionInfo κ} (htx : live.transaction k x = some tx)
    (h : ∀ r, (Command.transactionInfo info).resets = some r → ¬(Scope.transaction k x).Within r) :
    Continues tx ((live.transactionInfo info).transaction k x) := by
  rw [transactionInfo]
  cases hid : info.transactionId with
  | xa => exact .of_eq htx
  | «local» y =>
    cases htype : info.type with
    | begin =>
      have hne := h (.transaction info.connectionId y)
        (by rw [Command.resets, htype, hid]; rfl)
      exact .of_eq ((if_neg hne).trans htx)
    | forget | recover => exact .of_eq htx
    | prepare | commitOnePhase | commitTwoPhase | rollback | «end» => exact continues_record htx _ _ _

theorem continues_remove {id : ObjectId κ} (htx : live.transaction k x = some tx)
    (h : ∀ r, id.scope = some r → ¬(Scope.transaction k x).Within r) :
    Continues tx ((live.remove id).transaction k x) := by
  cases id with
  | connection id => exact .of_eq ((if_neg (h _ rfl)).trans htx)
  | producer id =>
    simp only [remove, dropProducer, htx]
    cases live.producer id with
    | none => exact .of_eq rfl
    | some info =>
      simp only
      split_ifs
      · exact ⟨_, rfl, List.Subset.refl _⟩
      · exact .of_eq rfl
  | _ => exact .of_eq htx

theorem continues_complete {tracked : Tracked κ} (htx : live.transaction k x = some tx)
    (h : ∀ r, tracked.resets = some r → ¬(Scope.transaction k x).Within r) :
    Continues tx ((live.complete tracked).transaction k x) := by
  cases tracked with
  | marker => exact .of_eq htx
  | removeTransaction info =>
    rw [complete]
    cases hid : info.transactionId with
    | xa => exact .of_eq htx
    | «local» y =>
      have hne := h (.transaction info.connectionId y) (by rw [Tracked.resets, hid]; rfl)
      exact .of_eq ((if_neg hne).trans htx)

theorem transaction_step (h : event.Keeps (.transaction k x))
    (htx : live.transaction k x = some tx) : Continues tx ((live.step config event).transaction k x) := by
  cases event with
  | tracked command =>
    cases command with
    | connectionInfo info => exact .of_eq ((if_neg (h _ rfl)).trans htx)
    | destinationInfo info =>
      rw [Live.step, Live.track]
      split_ifs <;> exact .of_eq htx
    | removeInfo info => exact continues_remove htx h
    | transactionInfo info =>
      rw [Live.step, Live.track]
      split_ifs
      · exact continues_transactionInfo htx h
      · exact .of_eq htx
    | message message =>
      rw [Live.step, Live.track, transaction_noteProducer]
      exact continues_recordMessage htx message
    | _ => exact .of_eq htx
  | refused command =>
    cases command with
    | message message => exact continues_recordMessage htx message
    | _ => exact .of_eq htx
  | completed tracked => exact continues_complete htx h
  | interrupted => exact .of_eq htx
  | resumed id => exact .of_eq htx

end Frame

/-- The commands about a transaction are recorded in that transaction. -/
def Live.Labelled (live : Live κ) : Prop :=
  ∀ k x tx info, live.transaction k x = some tx → .transactionInfo info ∈ tx.commands → info.transactionId = .local x

section Labelled

variable {config : Config} {live : Live κ}
variable {live' : Live κ} {y : LocalTransactionId κ}

theorem Live.Labelled.of_subset (h : live.Labelled) (hsub : ∀ k x tx', live'.transaction k x = some tx' →
      ∃ tx, live.transaction k x = some tx ∧ tx'.commands = tx.commands) : live'.Labelled := by
  intro k x tx' info htx' hinfo
  obtain ⟨tx, htx, hcommands⟩ := hsub k x tx' htx'
  rw [hcommands] at hinfo
  exact h k x tx info htx hinfo

theorem Live.Labelled.of_eq (h : live.Labelled) (heq : live'.transaction = live.transaction) : live'.Labelled :=
  h.of_subset fun k x tx' htx' => ⟨tx', by rw [← heq, htx'], rfl⟩

theorem Live.Labelled.dropConnection (h : live.Labelled) (id : ConnectionId κ) : (live.dropConnection id).Labelled := by
  apply h.of_subset
  intro k x tx' htx'
  simp only [Live.dropConnection] at htx'
  split_ifs at htx'
  exact ⟨tx', htx', rfl⟩

theorem Live.Labelled.dropProducer (h : live.Labelled) (id : ProducerId κ) : (live.dropProducer id).Labelled := by
  apply h.of_subset
  intro k x tx' htx'
  simp only [Live.dropProducer] at htx'
  cases hinfo : live.producer id with
  | none =>
    simp only [hinfo] at htx'
    exact ⟨tx', htx', rfl⟩
  | some info =>
    simp only [hinfo] at htx'
    split_ifs at htx'
    · obtain ⟨tx, htx, rfl⟩ := Option.map_eq_some_iff.mp htx'
      exact ⟨tx, htx, rfl⟩
    · exact ⟨tx', htx', rfl⟩

theorem Live.Labelled.record {command : Command κ} (h : live.Labelled)
    (id : ConnectionId κ) (hlabel : ∀ info, command = .transactionInfo info → info.transactionId = .local y) :
    (live.record id y command).Labelled := by
  intro k x tx' info htx' hinfo
  simp only [Live.record] at htx'
  split_ifs at htx' with heq
  · obtain ⟨tx, htx, rfl⟩ := Option.map_eq_some_iff.mp htx'
    rcases List.mem_append.mp hinfo with hold | hnew
    · exact h k x tx info htx hold
    · rw [heq.2]
      exact hlabel info (List.mem_singleton.mp hnew).symm
  · exact h k x tx' info htx' hinfo

theorem Live.Labelled.recordMessage (h : live.Labelled) (message : Message κ) :
    (live.recordMessage config message).Labelled := by
  unfold Live.recordMessage
  split
  · split_ifs
    · exact h.record _ fun info heq => by cases heq
    · exact h
  · exact h

theorem Live.Labelled.setTransaction {tx : Option (TransactionState κ)} (h : live.Labelled) (id : ConnectionId κ)
    (hlabel : ∀ tx', tx = some tx' → ∀ info, .transactionInfo info ∈ tx'.commands → info.transactionId = .local y) :
    (live.setTransaction id y tx).Labelled := by
  intro k x tx' info htx' hinfo
  simp only [Live.setTransaction] at htx'
  split_ifs at htx' with heq
  · rw [heq.2]
    exact hlabel tx' htx' info hinfo
  · exact h k x tx' info htx' hinfo

theorem Live.Labelled.transactionInfo (h : live.Labelled) (info : TransactionInfo κ) :
    (live.transactionInfo info).Labelled := by
  rw [Live.transactionInfo]
  cases hid : info.transactionId with
  | xa => exact h
  | «local» y =>
    have hlabel : ∀ info', Command.transactionInfo info = .transactionInfo info' →
        info'.transactionId = .local y := by
      intro info' heq
      cases heq
      exact hid
    cases info.type with
    | begin =>
      apply h.setTransaction
      intro tx' htx' info' hinfo'
      cases htx'
      exact hlabel info' (List.mem_singleton.mp hinfo').symm
    | forget | recover => exact h
    | prepare | commitOnePhase | commitTwoPhase | rollback | «end» => exact h.record _ hlabel

theorem Live.Labelled.track (h : live.Labelled) (command : Command κ) : (live.track config command).Labelled := by
  cases command with
  | connectionInfo info => exact (h.dropConnection info.connectionId).of_eq rfl
  | destinationInfo info =>
    rw [Live.track]
    split_ifs <;> exact h.of_eq rfl
  | removeInfo info =>
    rw [Live.track]
    cases info.objectId with
    | connection id => exact h.dropConnection id
    | producer id => exact h.dropProducer id
    | _ => exact h.of_eq rfl
  | transactionInfo info =>
    rw [Live.track]
    split_ifs
    · exact h.transactionInfo info
    · exact h
  | message message => exact (h.recordMessage message).of_eq (transaction_noteProducer message)
  | _ => exact h.of_eq rfl

theorem Live.Labelled.complete (h : live.Labelled) (tracked : Tracked κ) : (live.complete tracked).Labelled := by
  cases tracked with
  | marker => exact h
  | removeTransaction info =>
    rw [Live.complete]
    cases info.transactionId with
    | xa => exact h
    | «local» y => exact h.setTransaction _ fun tx' heq => by cases heq

theorem Live.Labelled.step (h : live.Labelled) (event : Event κ) : (live.step config event).Labelled := by
  cases event with
  | tracked command => exact h.track command
  | refused command =>
    cases command with
    | message message => exact h.recordMessage message
    | _ => exact h
  | completed tracked => exact h.complete tracked
  | interrupted => exact h.of_eq rfl
  | resumed id => exact h.of_eq rfl

theorem labelled_after (config : Config) (events : List (Event κ)) : (after config events).Labelled := by
  have hstep : ∀ live : Live κ, live.Labelled → (events.foldl (step config) live).Labelled := by
    induction events with
    | nil => exact fun _ h => h
    | cons event events ih => exact fun live h => ih (live.step config event) (h.step event)
  exact hstep _ fun k x tx info h => by cases h

end Labelled

/-! ### Stored commands -/

/-- The object is not there. -/
def Live.Gone (live : Live κ) : ObjectId κ → Prop
  | .connection id => live.connection id = none
  | .session id => live.session id = none
  | .producer id => live.producer id = none
  | .consumer id => live.consumer id = none
  | .other => True

/-- The command is among those recorded in a transaction. -/
def Live.Records (live : Live κ) (command : Command κ) (id : ConnectionId κ) : Option (TransactionId κ) → Prop
  | some (.local x) => ∃ tx, live.transaction id x = some tx ∧ command ∈ tx.commands
  | _ => False

/-- A command that the next replay makes good: what it adds is live or recorded, what it removes is gone. -/
def Live.Stored (live : Live κ) : Command κ → Prop
  | .connectionInfo info => live.connection info.connectionId = some info.reconnecting
  | .sessionInfo info => live.session info.sessionId = some info
  | .producerInfo info => live.producer info.producerId = some info
  | .consumerInfo info => live.consumer info.consumerId = some info
  | .destinationInfo info => info ∈ live.announced info.connectionId ∧ (live.connection info.connectionId).isSome
  | .removeInfo info => live.Gone info.objectId
  | .message msg => live.Records (.message msg) msg.producerId.connection msg.transactionId
  | .transactionInfo info => live.Records (.transactionInfo info) info.connectionId (some info.transactionId)
  | _ => False

/-- The event ends nothing that the command is stored at. -/
def Event.KeepsCommand (event : Event κ) (command : Command κ) : Prop :=
  ∀ node, command.scope = some node → event.Keeps node

section Stored

variable {config : Config} {live : Live κ} {event : Event κ} {command : Command κ}
variable {t t' : Tracker κ} {r : Tracked κ}
variable {info : TransactionInfo κ} {message : Message κ} {x : LocalTransactionId κ}

theorem Live.Records.step {id : ConnectionId κ} {transactionId : Option (TransactionId κ)}
    (h : live.Records command id transactionId)
    (hkeeps : ∀ node, transactionId.bind (transactionScope id) = some node → event.Keeps node) :
    (live.step config event).Records command id transactionId := by
  rcases transactionId with _ | x | _
  · exact h
  · obtain ⟨tx, htx, hmem⟩ := h
    obtain ⟨tx', htx', hsub⟩ := transaction_step (hkeeps _ rfl) htx
    exact ⟨tx', htx', hsub hmem⟩
  · exact h

theorem Live.Gone.step {id : ObjectId κ} (h : live.Gone id) (hkeeps : ∀ node, id.scope = some node → event.Keeps node) :
    (live.step config event).Gone id := by
  cases id with
  | connection id =>
    have hview := view_step config live (hkeeps _ rfl)
    exact (View.connection.inj hview).trans h
  | session id =>
    have hview := view_step config live (hkeeps _ rfl)
    exact (View.session.inj hview).trans h
  | producer id =>
    have hview := view_step config live (hkeeps _ rfl)
    exact (View.producer.inj hview).trans h
  | consumer id =>
    have hview := view_step config live (hkeeps _ rfl)
    exact (View.consumer.inj hview).trans h
  | other => exact trivial

theorem Live.Stored.step (h : live.Stored command) (config : Config) (hkeeps : event.KeepsCommand command) :
    (live.step config event).Stored command := by
  cases command with
  | connectionInfo info =>
    have hview := view_step config live (hkeeps _ rfl)
    exact (View.connection.inj hview).trans h
  | sessionInfo info =>
    have hview := view_step config live (hkeeps _ rfl)
    exact (View.session.inj hview).trans h
  | producerInfo info =>
    have hview := view_step config live (hkeeps _ rfl)
    exact (View.producer.inj hview).trans h
  | consumerInfo info =>
    have hview := view_step config live (hkeeps _ rfl)
    exact (View.consumer.inj hview).trans h
  | destinationInfo info =>
    have hview := view_step config live (hkeeps _ rfl)
    refine ⟨announced_step (hkeeps _ rfl) h.1, ?_⟩
    rw [View.connection.inj hview]
    exact h.2
  | removeInfo info => exact Live.Gone.step h hkeeps
  | message msg => exact Live.Records.step h hkeeps
  | transactionInfo info => exact Live.Records.step h hkeeps
  | _ => exact h

/-- The tracker records a command about a transaction only when it knows the transaction. -/
theorem recordTransactionInfo_ok (h : recordTransactionInfo info t = .ok () t') :
    ∃ x ref, info.transactionId = .local x ∧ t.ref? info.connectionId x = some ref := by
  rw [recordTransactionInfo, getConnectionState_bind, found_bind] at h
  cases hcs : t.connectionStates.find info.connectionId with
  | none =>
    rw [hcs] at h
    cases h
  | some cs =>
    simp only [hcs, getTransactionState_bind] at h
    cases hid : info.transactionId with
    | xa =>
      rw [hid] at h
      cases h
    | «local» x =>
      simp only [hid, found_bind] at h
      cases href : cs.transactions.find x with
      | none =>
        rw [href] at h
        cases h
      | some ref => exact ⟨x, ref, rfl, by rw [ref?_of_find hcs, href]⟩

theorem processMessage_some (h : processMessage config message t = .ok (some r) t') :
    config.trackTransactions = true ∧
      ∃ x ref, message.transactionId = some (.local x) ∧ t.ref? message.producerId.connection x = some ref := by
  match htrack : config.trackTransactions, hid : message.transactionId with
  | false, _ =>
    simp only [processMessage, htrack] at h
    split_ifs at h <;> cases h
  | true, none =>
    simp only [processMessage, htrack, hid] at h
    split_ifs at h <;> cases h
  | true, some transactionId =>
    refine ⟨rfl, ?_⟩
    simp only [processMessage, htrack, hid, getConnectionState_bind, found_bind, getTransactionState_bind] at h
    cases hcs : t.connectionStates.find message.producerId.parentId.parentId with
    | none =>
      rw [hcs] at h
      cases h
    | some cs =>
      simp only [hcs] at h
      cases transactionId with
      | xa => cases h
      | «local» x =>
        cases href : cs.transactions.find x with
        | none =>
          simp only [href] at h
          cases h
        | some ref => exact ⟨x, ref, rfl, by rw [ProducerId.connection, ref?_of_find hcs, href]⟩

theorem transaction_of_ref {id : ConnectionId κ} {ref : Nat} (hinv : t.Inv)
    (h : t.ref? id x = some ref) : ∃ tx, t.live.transaction id x = some tx := by
  refine ⟨t.transactionStates.get ⟨ref, hinv.ref_lt id x ref h⟩, ?_⟩
  change t.transaction? id x = _
  rw [transaction?_eq, h]
  exact List.getElem?_eq_getElem (hinv.ref_lt id x ref h)

theorem records_record {id : ConnectionId κ} {tx : TransactionState κ}
    (h : live.transaction id x = some tx) (command : Command κ) :
    (live.record id x command).Records command id (some (.local x)) := by
  refine ⟨tx.addCommand command, ?_, List.mem_append_right _ List.mem_cons_self⟩
  simp only [record, h, and_self, if_true]
  rfl

theorem gone_remove (id : ObjectId κ) : (live.remove id).Gone id := by
  cases id with
  | other => exact trivial
  | _ => exact if_pos rfl

theorem stored_message (hinv : t.Inv)
    (h : processMessage config message t = .ok (some r) t') : t'.live.Stored (.message message) := by
  obtain ⟨htrack, x, ref, hid, href⟩ := processMessage_some h
  obtain ⟨tx, htx⟩ := transaction_of_ref hinv href
  have hsim := simulates_processMessage config message t hinv
  rw [h] at hsim
  rw [hsim.2]
  have hrecord : (t.live.recordMessage config message)
      = t.live.record message.producerId.connection x (.message message) := by
    simp only [recordMessage, hid, htrack, if_true]
  change Live.Records ((t.live.recordMessage config message).noteProducer config message) _ _ message.transactionId
  rw [hrecord, hid]
  obtain ⟨tx', htx', hmem⟩ := records_record htx (.message message)
  exact ⟨tx', by rw [transaction_noteProducer]; exact htx', hmem⟩

theorem stored_transactionInfo (hinv : t.Inv)
    (h : processTransactionInfo config info t = .ok (some r) t') : t'.live.Stored (.transactionInfo info) := by
  have hsim := simulates_processTransactionInfo config info t hinv
  rw [h] at hsim
  rw [hsim.2]
  rw [processTransactionInfo] at h
  cases htrack : config.trackTransactions with
  | false =>
    rw [htrack] at h
    cases h
  | true =>
    rw [htrack] at h
    change Live.Records _ _ _ (some info.transactionId)
    simp only [if_true, transactionInfo] at h ⊢
    have hrecord : ∀ {a : Option (Tracked κ)}, (recordTransactionInfo info >>= fun _ => pure a) t = .ok (some r) t' →
        ∃ x, info.transactionId = .local x ∧
          (t.live.record info.connectionId x (.transactionInfo info)).Records (.transactionInfo info)
            info.connectionId (some (.local x)) := by
      intro a hrun
      obtain ⟨⟨⟩, t₁, hok, -⟩ := bind_eq_ok.mp hrun
      obtain ⟨x, ref, hid, href⟩ := recordTransactionInfo_ok hok
      obtain ⟨tx, htx⟩ := transaction_of_ref hinv href
      exact ⟨x, hid, records_record htx _⟩
    cases htype : info.type with
    | begin =>
      cases hid : info.transactionId with
      | xa =>
        simp only [htype, processBeginTransaction, getConnectionState_bind, found_bind, localTransactionId_bind,
          hid] at h
        cases hcs : t.connectionStates.find info.connectionId <;>
          · rw [hcs] at h
            cases h
      | «local» x =>
        simp only
        refine ⟨⟨[.transactionInfo info], .empty⟩, ?_, List.mem_cons_self⟩
        simp only [setTransaction, and_self, if_true]
    | forget | recover =>
      rw [htype] at h
      cases h
    | prepare | commitOnePhase | commitTwoPhase | rollback | «end» =>
      rw [htype] at h
      obtain ⟨x, hid, hrecords⟩ := hrecord h
      simp only [hid]
      exact hrecords

theorem stored_destinationInfo {info : DestinationInfo κ} (hinv : t.Inv)
    (h : processDestinationInfo info t = .ok (some r) t') (htemp : info.destination.isTemporary = true) :
    t'.live.Stored (.destinationInfo info) := by
  have hsim := simulates_processDestinationInfo info t hinv
  rw [h] at hsim
  rw [processDestinationInfo, getConnectionState_bind, found_bind] at h
  cases hcs : t.connectionStates.find info.connectionId with
  | none =>
    rw [hcs] at h
    cases h
  | some cs =>
    rw [hsim.2]
    simp only [htemp, if_true, Live.Stored, announce]
    refine ⟨List.mem_append_right _ List.mem_cons_self, ?_⟩
    simp only [live, hcs]
    rfl

/-- What the tracker reports as tracked it has stored, unless it is about a destination that is not
temporary. -/
theorem stored_of_track (hinv : t.Inv) (h : track config command t = .ok (some r) t')
    (hdestination : ∀ info, command = .destinationInfo info → info.destination.isTemporary = true) :
    t'.live.Stored command := by
  have hsim := simulates_track config command t hinv
  rw [h] at hsim
  have hlive := hsim.2
  have hrun := mapError_eq_ok.mp h
  cases command with
  | connectionInfo info | sessionInfo info | producerInfo info | consumerInfo info =>
    rw [hlive]
    exact if_pos rfl
  | destinationInfo info => exact stored_destinationInfo hinv hrun (hdestination info rfl)
  | removeInfo info =>
    rw [hlive]
    exact gone_remove info.objectId
  | message message => exact stored_message hinv hrun
  | transactionInfo info => exact stored_transactionInfo hinv hrun
  | messagePull | messageAck | connectionControl | shutdownInfo | tracked | other => cases hrun

theorem gone_of_refuse {info : RemoveInfo κ} {failure : Failure} (hinv : t.Inv)
    (h : track config (.removeInfo info) t = .error failure t') : t'.live.Gone info.objectId := by
  have hsim := simulates_track config (.removeInfo info) t hinv
  rw [h] at hsim
  rw [hsim.2]
  change t.live.Gone info.objectId
  have hrun : ∀ r t'', processRemoveInfo info t ≠ .ok r t'' := by
    intro r t'' hok
    have hok' : track config (.removeInfo info) t = .ok r t'' := mapError_eq_ok.mpr hok
    rw [h] at hok'
    cases hok'
  cases hid : info.objectId with
  | other => exact trivial
  | connection id =>
    simp only [processRemoveInfo, hid] at hrun
    exact absurd rfl (hrun _ _)
  | session id =>
    simp only [processRemoveInfo, hid, processRemoveSession, getConnectionState_bind, found_bind] at hrun
    simp only [Live.Gone, live, session?]
    cases hcs : t.connectionStates.find id.parentId with
    | none => rfl
    | some cs =>
      simp only [hcs] at hrun
      exact absurd rfl (hrun _ _)
  | producer id =>
    simp only [processRemoveInfo, hid, processRemoveProducer, getConnectionState_bind, found_bind] at hrun
    simp only [Live.Gone, live, producer?, session?]
    cases hcs : t.connectionStates.find id.parentId.parentId with
    | none => rfl
    | some cs =>
      simp only [hcs] at hrun
      cases hss : cs.sessions.find id.parentId with
      | none =>
        simp only [Option.bind_eq_bind, Option.bind_some, hss]
        rfl
      | some ss =>
        simp only [hss] at hrun
        rcases hps : ss.producers.find id with _ | ⟨_, _ | _⟩ <;>
          · simp only [hps] at hrun
            exact absurd rfl (hrun _ _)
  | consumer id =>
    simp only [processRemoveInfo, hid, processRemoveConsumer, getConnectionState_bind, found_bind] at hrun
    simp only [Live.Gone, live, consumer?, session?]
    cases hcs : t.connectionStates.find id.parentId.parentId with
    | none => rfl
    | some cs =>
      simp only [hcs] at hrun
      cases hss : cs.sessions.find id.parentId with
      | none =>
        simp only [Option.bind_eq_bind, Option.bind_some, hss]
        rfl
      | some ss =>
        simp only [hss] at hrun
        exact absurd rfl (hrun _ _)

end Stored

end ActiveMQCpp.State
