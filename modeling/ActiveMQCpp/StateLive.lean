import ActiveMQCpp.StateRestore

/-! What is live after a history of commands, without the nesting of the tracker: one partial function for each kind
of object, in which the removal of an object also removes whatever its id is an ancestor of. The tracker refines this
model. -/

namespace ActiveMQCpp.State

open Codec Decaf ConnectionState Tracker

variable {κ : Type} [LinearOrder κ]

@[grind]
def ProducerId.connection (id : ProducerId κ) : ConnectionId κ := id.parentId.parentId

@[grind]
def ConsumerId.connection (id : ConsumerId κ) : ConnectionId κ := id.parentId.parentId

/-- A connection as it is announced on another transport. -/
def ConnectionInfo.reconnecting (info : ConnectionInfo κ) : ConnectionInfo κ :=
  { info with failoverReconnect := true }

@[ext]
structure Live (κ : Type) [LinearOrder κ] where
  connection : ConnectionId κ → Option (ConnectionInfo κ)
  interrupted : ConnectionId κ → Bool
  /-- The infos about temporary destinations that have been tracked. -/
  announced : ConnectionId κ → List (DestinationInfo κ)
  session : SessionId κ → Option (SessionInfo κ)
  producer : ProducerId κ → Option (ProducerInfo κ)
  consumer : ConsumerId κ → Option (ConsumerInfo κ)
  transaction : ConnectionId κ → LocalTransactionId κ → Option (TransactionState κ)
  /-- The open transaction that a producer sent its last transacted message in. -/
  sends : ProducerId κ → ConnectionId κ → LocalTransactionId κ → Prop

namespace Live

theorem ext_apply {a b : Live κ} (hconnection : ∀ k, a.connection k = b.connection k)
    (hinterrupted : ∀ k, a.interrupted k = b.interrupted k)
    (hannounced : ∀ k, a.announced k = b.announced k) (hsession : ∀ k, a.session k = b.session k)
    (hproducer : ∀ k, a.producer k = b.producer k) (hconsumer : ∀ k, a.consumer k = b.consumer k)
    (htransaction : ∀ k x, a.transaction k x = b.transaction k x)
    (hsends : ∀ p k x, a.sends p k x ↔ b.sends p k x) : a = b :=
  Live.ext (funext hconnection) (funext hinterrupted) (funext hannounced) (funext hsession) (funext hproducer)
    (funext hconsumer) (funext fun k => funext (htransaction k))
    (funext fun p => funext fun k => funext fun x => propext (hsends p k x))

def nothing : Live κ where
  connection _ := none
  interrupted _ := false
  announced _ := []
  session _ := none
  producer _ := none
  consumer _ := none
  transaction _ _ := none
  sends _ _ _ := False

def dropConnection (live : Live κ) (id : ConnectionId κ) : Live κ where
  connection k := if k = id then none else live.connection k
  interrupted k := if k = id then false else live.interrupted k
  announced k := if k = id then [] else live.announced k
  session k := if k.parentId = id then none else live.session k
  producer k := if k.connection = id then none else live.producer k
  consumer k := if k.connection = id then none else live.consumer k
  transaction k x := if k = id then none else live.transaction k x
  sends k i x := k.connection ≠ id ∧ i ≠ id ∧ live.sends k i x

def dropSession (live : Live κ) (id : SessionId κ) : Live κ :=
  { live with
    session k := if k = id then none else live.session k
    producer k := if k.parentId = id then none else live.producer k
    consumer k := if k.parentId = id then none else live.consumer k
    sends k i x := k.parentId ≠ id ∧ live.sends k i x }

def addSession (live : Live κ) (info : SessionInfo κ) : Live κ :=
  { live.dropSession info.sessionId with
    session k := if k = info.sessionId then some info else live.session k }

def addConnection (live : Live κ) (info : ConnectionInfo κ) : Live κ :=
  addSession
    { live.dropConnection info.connectionId with
      connection k := if k = info.connectionId then some info.reconnecting else live.connection k }
    (defaultSession info.connectionId)

def addProducer (live : Live κ) (info : ProducerInfo κ) : Live κ :=
  { live with
    producer k := if k = info.producerId then some info else live.producer k
    sends k i x := k ≠ info.producerId ∧ live.sends k i x }

def addConsumer (live : Live κ) (info : ConsumerInfo κ) : Live κ :=
  { live with
    consumer k := if k = info.consumerId then some info else live.consumer k }

def announce (live : Live κ) (info : DestinationInfo κ) : Live κ :=
  { live with
    announced k := if k = info.connectionId then live.announced k ++ [info] else live.announced k }

open Classical in
/-- A producer that is closed stays with the open transaction it sent a message in. -/
noncomputable def dropProducer (live : Live κ) (id : ProducerId κ) : Live κ :=
  { live with
    producer k := if k = id then none else live.producer k
    transaction i x :=
      match live.producer id with
      | some info =>
        if live.sends id i x then (live.transaction i x).map (.addProducerState info)
        else live.transaction i x
      | none => live.transaction i x
    sends k i x := k ≠ id ∧ live.sends k i x }

def dropConsumer (live : Live κ) (id : ConsumerId κ) : Live κ :=
  { live with
    consumer k := if k = id then none else live.consumer k }

def setTransaction (live : Live κ) (id : ConnectionId κ) (x : LocalTransactionId κ)
    (tx : Option (TransactionState κ)) : Live κ :=
  { live with
    transaction k y := if k = id ∧ y = x then tx else live.transaction k y
    sends p k y := ¬(k = id ∧ y = x) ∧ live.sends p k y }

def record (live : Live κ) (id : ConnectionId κ) (x : LocalTransactionId κ) (command : Command κ) : Live κ :=
  { live with
    transaction k y :=
      if k = id ∧ y = x then (live.transaction k y).map (.addCommand command) else live.transaction k y }

noncomputable def remove (live : Live κ) : ObjectId κ → Live κ
  | .connection id => live.dropConnection id
  | .session id => live.dropSession id
  | .producer id => live.dropProducer id
  | .consumer id => live.dropConsumer id
  | .other => live

def transactionInfo (live : Live κ) (info : TransactionInfo κ) : Live κ :=
  match info.transactionId with
  | .xa .. => live
  | .local x =>
    match info.type with
    | .begin => live.setTransaction info.connectionId x (some ⟨[.transactionInfo info], .empty⟩)
    | .forget | .recover => live
    | _ => live.record info.connectionId x (.transactionInfo info)

/-- The recording of a message that is sent in a transaction. -/
def recordMessage (config : Config) (live : Live κ) (message : Message κ) : Live κ :=
  match message.transactionId with
  | some (.local x) =>
    if config.trackTransactions then live.record message.producerId.connection x (.message message) else live
  | _ => live

/-- The producer of a message that is sent in a transaction is noted when the tracker keeps track of
producers. -/
def noteProducer (config : Config) (live : Live κ) (message : Message κ) : Live κ :=
  match message.transactionId with
  | some (.local x) =>
    if config.trackTransactions ∧ config.trackTransactionProducers then
      { live with
        sends k i y :=
          if k = message.producerId then i = k.connection ∧ y = x else live.sends k i y }
    else live
  | _ => live

noncomputable def track (config : Config) (live : Live κ) : Command κ → Live κ
  | .connectionInfo info => live.addConnection info
  | .sessionInfo info => live.addSession info
  | .producerInfo info => live.addProducer info
  | .consumerInfo info => live.addConsumer info
  | .destinationInfo info => if info.destination.isTemporary then live.announce info else live
  | .removeInfo info => live.remove info.objectId
  | .message message => (live.recordMessage config message).noteProducer config message
  | .transactionInfo info => if config.trackTransactions then live.transactionInfo info else live
  | _ => live

/-- A command that the tracker refuses. A message may have been recorded by then. -/
def refuse (config : Config) (live : Live κ) : Command κ → Live κ
  | .message message => live.recordMessage config message
  | _ => live

/-- The transport has failed under every connection. -/
def interrupt (live : Live κ) : Live κ :=
  { live with
    interrupted k := (live.connection k).isSome }

/-- A connection has dealt with an interruption. -/
def resume (live : Live κ) (id : ConnectionId κ) : Live κ :=
  { live with
    interrupted k := if k = id then false else live.interrupted k }

def complete (live : Live κ) : Tracked κ → Live κ
  | .marker => live
  | .removeTransaction info =>
    match info.transactionId with
    | .local x => live.setTransaction info.connectionId x none
    | .xa .. => live

end Live

/-! ### What a tracker holds -/

namespace Tracker

variable (t : Tracker κ)

def session? (id : SessionId κ) : Option (SessionState κ) := do
  let cs ← t.connectionStates.find id.parentId
  cs.sessions.find id

def producer? (id : ProducerId κ) : Option (ProducerState κ) := do
  let ss ← t.session? id.parentId
  ss.producers.find id

def consumer? (id : ConsumerId κ) : Option (ConsumerInfo κ) := do
  let ss ← t.session? id.parentId
  ss.consumers.find id

/-- Where the state of a transaction is kept. -/
def ref? (id : ConnectionId κ) (x : LocalTransactionId κ) : Option Nat := do
  let cs ← t.connectionStates.find id
  cs.transactions.find x

def transaction? (id : ConnectionId κ) (x : LocalTransactionId κ) : Option (TransactionState κ) := do
  let ref ← t.ref? id x
  t.transactionStates[ref]?

def live : Live κ where
  connection id := (t.connectionStates.find id).map fun cs => cs.info.reconnecting
  interrupted id :=
    ((t.connectionStates.find id).map fun cs => !cs.connectionInterruptProcessingComplete).getD false
  announced id := ((t.connectionStates.find id).map ConnectionState.tempDestinations).getD []
  session id := (t.session? id).map SessionState.info
  producer id := (t.producer? id).map ProducerState.info
  consumer id := t.consumer? id
  transaction id x := t.transaction? id x
  sends k id x :=
    ∃ ref, (t.producer? k).bind ProducerState.transactionState = some ref ∧ t.ref? id x = some ref

/-- The listed transaction states exist, are not shared, and are never empty; every object is kept under
its own id below its parent. -/
structure Inv : Prop where
  ref_lt : ∀ id x ref, t.ref? id x = some ref → ref < t.transactionStates.length
  ref_inj : ∀ id x id' x' ref, t.ref? id x = some ref → t.ref? id' x' = some ref → id = id' ∧ x = x'
  commands_ne : ∀ id x tx, t.transaction? id x = some tx → tx.commands ≠ []
  pointer_lt : ∀ k ref, (t.producer? k).bind ProducerState.transactionState = some ref →
    ref < t.transactionStates.length
  session_id : ∀ id cs k ss, t.connectionStates.find id = some cs → cs.sessions.find k = some ss →
    k.parentId = id ∧ ss.info.sessionId = k
  producer_id : ∀ k ss p ps, t.session? k = some ss → ss.producers.find p = some ps → p.parentId = k
  consumer_id : ∀ k ss c info, t.session? k = some ss → ss.consumers.find c = some info → c.parentId = k

def setConnection (id : ConnectionId κ) (cs : ConnectionState κ) : Tracker κ :=
  { t with connectionStates := t.connectionStates.insert id cs }

def eraseConnection (id : ConnectionId κ) : Tracker κ :=
  { t with connectionStates := t.connectionStates.erase id }

def addTransaction (tx : TransactionState κ) : Tracker κ :=
  { t with transactionStates := t.transactionStates ++ [tx] }

def modifyTransaction (ref : Nat) (f : TransactionState κ → TransactionState κ) : Tracker κ :=
  { t with transactionStates := t.transactionStates.modify ref f }

end Tracker

attribute [local grind =] OrderedMap.find_insert OrderedMap.find_erase OrderedMap.find_empty

namespace Tracker

section Lookup

variable (t : Tracker κ) (id : ConnectionId κ) (cs : ConnectionState κ)

@[grind =] theorem find_setConnection (k : ConnectionId κ) :
    (t.setConnection id cs).connectionStates.find k = if k = id then some cs else t.connectionStates.find k :=
  OrderedMap.find_insert _ _ _ _

@[grind =] theorem session?_setConnection (k : SessionId κ) :
    (t.setConnection id cs).session? k = if k.parentId = id then cs.sessions.find k else t.session? k := by
  rw [session?, find_setConnection]
  split_ifs <;> rfl

@[grind =] theorem producer?_setConnection (k : ProducerId κ) :
    (t.setConnection id cs).producer? k = if k.connection = id then
      (cs.sessions.find k.parentId).bind fun ss => ss.producers.find k else t.producer? k := by
  rw [producer?, session?_setConnection, ProducerId.connection]
  split_ifs <;> rfl

@[grind =] theorem consumer?_setConnection (k : ConsumerId κ) :
    (t.setConnection id cs).consumer? k = if k.connection = id then
      (cs.sessions.find k.parentId).bind fun ss => ss.consumers.find k else t.consumer? k := by
  rw [consumer?, session?_setConnection, ConsumerId.connection]
  split_ifs <;> rfl

@[grind =] theorem ref?_setConnection (k : ConnectionId κ) (x : LocalTransactionId κ) :
    (t.setConnection id cs).ref? k x = if k = id then cs.transactions.find x else t.ref? k x := by
  rw [ref?, find_setConnection]
  split_ifs <;> rfl

@[grind =] theorem transaction?_setConnection (k : ConnectionId κ) (x : LocalTransactionId κ) :
    (t.setConnection id cs).transaction? k x = if k = id then
      (cs.transactions.find x).bind fun ref => t.transactionStates[ref]? else t.transaction? k x := by
  rw [transaction?, ref?_setConnection]
  split_ifs <;> rfl

@[grind =] theorem find_eraseConnection (k : ConnectionId κ) :
    (t.eraseConnection id).connectionStates.find k = if k = id then none else t.connectionStates.find k :=
  OrderedMap.find_erase _ _ _

@[grind =] theorem session?_eraseConnection (k : SessionId κ) :
    (t.eraseConnection id).session? k = if k.parentId = id then none else t.session? k := by
  rw [session?, find_eraseConnection]
  split_ifs <;> rfl

@[grind =] theorem producer?_eraseConnection (k : ProducerId κ) :
    (t.eraseConnection id).producer? k = if k.connection = id then none else t.producer? k := by
  rw [producer?, session?_eraseConnection, ProducerId.connection]
  split_ifs <;> rfl

@[grind =] theorem consumer?_eraseConnection (k : ConsumerId κ) :
    (t.eraseConnection id).consumer? k = if k.connection = id then none else t.consumer? k := by
  rw [consumer?, session?_eraseConnection, ConsumerId.connection]
  split_ifs <;> rfl

@[grind =] theorem ref?_eraseConnection (k : ConnectionId κ) (x : LocalTransactionId κ) :
    (t.eraseConnection id).ref? k x = if k = id then none else t.ref? k x := by
  rw [ref?, find_eraseConnection]
  split_ifs <;> rfl

@[grind =] theorem transaction?_eraseConnection (k : ConnectionId κ) (x : LocalTransactionId κ) :
    (t.eraseConnection id).transaction? k x = if k = id then none else t.transaction? k x := by
  rw [transaction?, ref?_eraseConnection]
  split_ifs <;> rfl

@[grind =] theorem find_addTransaction (tx : TransactionState κ) (k : ConnectionId κ) :
    (t.addTransaction tx).connectionStates.find k = t.connectionStates.find k := rfl

@[grind =] theorem session?_addTransaction (tx : TransactionState κ) (k : SessionId κ) :
    (t.addTransaction tx).session? k = t.session? k := rfl

@[grind =] theorem producer?_addTransaction (tx : TransactionState κ) (k : ProducerId κ) :
    (t.addTransaction tx).producer? k = t.producer? k := rfl

@[grind =] theorem consumer?_addTransaction (tx : TransactionState κ) (k : ConsumerId κ) :
    (t.addTransaction tx).consumer? k = t.consumer? k := rfl

@[grind =] theorem ref?_addTransaction (tx : TransactionState κ) (k : ConnectionId κ)
    (x : LocalTransactionId κ) : (t.addTransaction tx).ref? k x = t.ref? k x := rfl

@[grind =] theorem transactionStates_addTransaction (tx : TransactionState κ) :
    (t.addTransaction tx).transactionStates = t.transactionStates ++ [tx] := rfl

@[grind =] theorem transactionStates_setConnection :
    (t.setConnection id cs).transactionStates = t.transactionStates := rfl

theorem transaction?_eq (k : ConnectionId κ) (x : LocalTransactionId κ) :
    t.transaction? k x = (t.ref? k x).bind fun ref => t.transactionStates[ref]? := rfl

end Lookup

section Find

variable {t : Tracker κ} {id : ConnectionId κ} {cs : ConnectionState κ}
  (hcs : t.connectionStates.find id = some cs)

include hcs

@[grind →] theorem session?_of_find {k : SessionId κ} (hk : k.parentId = id) : t.session? k = cs.sessions.find k := by
  rw [session?, hk, hcs]
  rfl

@[grind →] theorem producer?_of_find {k : ProducerId κ} (hk : k.connection = id) :
    t.producer? k = (cs.sessions.find k.parentId).bind fun ss => ss.producers.find k := by
  rw [producer?, session?_of_find hcs hk]
  rfl

@[grind →] theorem consumer?_of_find {k : ConsumerId κ} (hk : k.connection = id) :
    t.consumer? k = (cs.sessions.find k.parentId).bind fun ss => ss.consumers.find k := by
  rw [consumer?, session?_of_find hcs hk]
  rfl

theorem ref?_of_find (x : LocalTransactionId κ) : t.ref? id x = cs.transactions.find x := by
  rw [ref?, hcs]
  rfl

theorem transaction?_of_find (x : LocalTransactionId κ) :
    t.transaction? id x = (cs.transactions.find x).bind fun ref => t.transactionStates[ref]? := by
  rw [transaction?, ref?_of_find hcs]
  rfl

theorem producer?_of_session {p : ProducerId κ} {ss : SessionState κ} (hp : p.connection = id)
    (hss : cs.sessions.find p.parentId = some ss) : t.producer? p = ss.producers.find p := by
  rw [producer?_of_find hcs hp, hss]
  rfl

end Find

end Tracker

/-! ### Each step refines its counterpart -/

section Connections

variable (t : Tracker κ)
variable {cs : ConnectionState κ}

theorem live_addSession {info : SessionInfo κ} (hcs : t.connectionStates.find info.sessionId.parentId = some cs) :
    (t.setConnection info.sessionId.parentId (cs.addSession info)).live = t.live.addSession info := by
  have htx := transaction?_of_find hcs
  have href := ref?_of_find hcs
  apply Live.ext_apply <;> intros <;> simp only [live, Live.addSession, Live.dropSession] <;>
    grind [addSession, SessionState.new]

theorem live_eraseSession {id : SessionId κ} (hcs : t.connectionStates.find id.parentId = some cs) :
    (t.setConnection id.parentId { cs with sessions := cs.sessions.erase id }).live
      = t.live.dropSession id := by
  have htx := transaction?_of_find hcs
  have href := ref?_of_find hcs
  apply Live.ext_apply <;> intros <;> simp only [live, Live.dropSession] <;> grind

theorem live_eraseConnection (id : ConnectionId κ) : (t.eraseConnection id).live = t.live.dropConnection id := by
  apply Live.ext_apply <;> intros <;> simp only [live, Live.dropConnection] <;> grind

theorem live_addConnection (info : ConnectionInfo κ) :
    (t.setConnection info.connectionId (new info)).live = t.live.addConnection info := by
  have hparent : (defaultSession info.connectionId).sessionId.parentId = info.connectionId := rfl
  apply Live.ext_apply <;> intros <;>
    simp only [live, Live.addConnection, Live.addSession, Live.dropSession, Live.dropConnection] <;>
    grind [ConnectionState.new, ConnectionState.addSession, SessionState.new]

theorem live_announce {info : DestinationInfo κ} (hcs : t.connectionStates.find info.connectionId = some cs) :
    (t.setConnection info.connectionId { cs with tempDestinations := cs.tempDestinations ++ [info] }).live
      = t.live.announce info := by
  have htx := transaction?_of_find hcs
  have href := ref?_of_find hcs
  apply Live.ext_apply <;> intros <;> simp only [live, Live.announce] <;> grind

end Connections

section Sessions

variable (t : Tracker κ) {cs : ConnectionState κ} {ss : SessionState κ}

def ConnectionState.setSession (cs : ConnectionState κ) (id : SessionId κ) (ss : SessionState κ) :
    ConnectionState κ :=
  { cs with sessions := cs.sessions.insert id ss }

theorem live_addProducer {info : ProducerInfo κ}
    (hcs : t.connectionStates.find info.producerId.parentId.parentId = some cs)
    (hss : cs.sessions.find info.producerId.parentId = some ss) :
    (t.setConnection info.producerId.parentId.parentId (cs.setSession info.producerId.parentId
      { ss with producers := ss.producers.insert info.producerId { info := info } })).live
      = t.live.addProducer info := by
  have htx := transaction?_of_find hcs
  have href := ref?_of_find hcs
  apply Live.ext_apply <;> intros <;> simp only [live, Live.addProducer] <;>
    grind [setSession]

theorem live_addConsumer {info : ConsumerInfo κ}
    (hcs : t.connectionStates.find info.consumerId.parentId.parentId = some cs)
    (hss : cs.sessions.find info.consumerId.parentId = some ss) :
    (t.setConnection info.consumerId.parentId.parentId (cs.setSession info.consumerId.parentId
      { ss with consumers := ss.consumers.insert info.consumerId info })).live
      = t.live.addConsumer info := by
  have htx := transaction?_of_find hcs
  have href := ref?_of_find hcs
  apply Live.ext_apply <;> intros <;> simp only [live, Live.addConsumer] <;>
    grind [setSession]

end Sessions

section Transactions

variable (t : Tracker κ) {id : ConnectionId κ} {x : LocalTransactionId κ} {cs : ConnectionState κ} {ref : Nat}
variable {p : ProducerId κ} {ss : SessionState κ}

theorem live_modifyTransaction (ref : Nat) (f : TransactionState κ → TransactionState κ) :
    (t.modifyTransaction ref f).live
      = { t.live with
          transaction k y :=
            if t.ref? k y = some ref then (t.live.transaction k y).map f else t.live.transaction k y } := by
  apply Live.ext_apply
  case htransaction =>
    intro k y
    change ((t.ref? k y).bind fun r => (t.transactionStates.modify ref f)[r]?)
      = if t.ref? k y = some ref then ((t.ref? k y).bind fun r => t.transactionStates[r]?).map f
        else (t.ref? k y).bind fun r => t.transactionStates[r]?
    cases t.ref? k y with
    | none => rfl
    | some r =>
      simp only [Option.bind_some, List.getElem?_modify, Option.some.injEq]
      grind
  all_goals
    intros
    rfl

theorem live_record (hinv : t.Inv) (href : t.ref? id x = some ref) (command : Command κ) :
    (t.modifyTransaction ref (.addCommand command)).live = t.live.record id x command := by
  rw [live_modifyTransaction]
  apply Live.ext_apply
  case htransaction =>
    intro k y
    have hinj := hinv.ref_inj k y id x ref
    simp only [Live.record]
    grind
  all_goals
    intros
    rfl

theorem live_noteProducer {ps : ProducerState κ} (hinv : t.Inv)
    (hcs : t.connectionStates.find p.parentId.parentId = some cs)
    (hss : cs.sessions.find p.parentId = some ss) (hps : ss.producers.find p = some ps)
    (href : t.ref? p.connection x = some ref) :
    (t.setConnection p.parentId.parentId (cs.setSession p.parentId (ss.setTransactionState p ps ref))).live
      = { t.live with sends k i y := if k = p then i = k.connection ∧ y = x else t.live.sends k i y } := by
  have htx := transaction?_of_find hcs
  have href' := ref?_of_find hcs
  have hinj := hinv.ref_inj
  apply Live.ext_apply <;> intros <;> simp only [live] <;>
    grind [setSession, SessionState.setTransactionState]

theorem live_dropConsumer {k : ConsumerId κ}
    (hcs : t.connectionStates.find k.parentId.parentId = some cs) (hss : cs.sessions.find k.parentId = some ss)
    (recovering : OrderedMap (ConsumerId κ) (ConsumerInfo κ)) :
    (t.setConnection k.parentId.parentId
      (setSession { cs with recoveringPullConsumers := recovering } k.parentId
        { ss with consumers := ss.consumers.erase k })).live = t.live.dropConsumer k := by
  have htx := transaction?_of_find hcs
  have href := ref?_of_find hcs
  apply Live.ext_apply <;> intros <;> simp only [live, Live.dropConsumer] <;>
    grind [setSession]

theorem live_dropProducer_idle
    (hcs : t.connectionStates.find p.parentId.parentId = some cs) (hss : cs.sessions.find p.parentId = some ss)
    (hidle : (ss.producers.find p).bind ProducerState.transactionState = none) :
    (t.setConnection p.parentId.parentId (cs.setSession p.parentId
      { ss with producers := ss.producers.erase p })).live = t.live.dropProducer p := by
  have htx := transaction?_of_find hcs
  have href := ref?_of_find hcs
  have hp := producer?_of_session hcs rfl hss
  apply Live.ext_apply <;> intros <;> simp only [live, Live.dropProducer] <;>
    grind [setSession]

theorem live_dropProducer {info : ProducerInfo κ}
    (hcs : t.connectionStates.find p.parentId.parentId = some cs) (hss : cs.sessions.find p.parentId = some ss)
    (hps : ss.producers.find p = some ⟨info, some ref⟩) :
    ((t.setConnection p.parentId.parentId (cs.setSession p.parentId
      { ss with producers := ss.producers.erase p })).modifyTransaction ref (.addProducerState info)).live
      = t.live.dropProducer p := by
  have htx := transaction?_of_find hcs
  have href := ref?_of_find hcs
  have hp := producer?_of_session hcs rfl hss
  rw [hps] at hp
  rw [live_modifyTransaction]
  apply Live.ext_apply <;> intros <;>
    simp only [live, Live.dropProducer, hp, Option.map_some, Option.bind_some, Option.some.injEq,
      exists_eq_left'] <;>
    grind [setSession]

theorem transaction?_addTransaction (hinv : t.Inv) (tx : TransactionState κ) (k : ConnectionId κ)
    (y : LocalTransactionId κ) : (t.addTransaction tx).transaction? k y = t.transaction? k y := by
  rw [transaction?_eq, transaction?_eq, ref?_addTransaction]
  cases href : t.ref? k y with
  | none => rfl
  | some ref => exact List.getElem?_append_left (hinv.ref_lt k y ref href)

theorem live_begin (hinv : t.Inv) (hcs : t.connectionStates.find id = some cs) (tx : TransactionState κ) :
    ((t.addTransaction tx).setConnection id
      { cs with transactions := cs.transactions.insert x t.transactionStates.length }).live
      = t.live.setTransaction id x (some tx) := by
  have hlt := hinv.ref_lt
  have hpointer := hinv.pointer_lt
  have hadd := transaction?_addTransaction t hinv tx
  have htx := transaction?_of_find (show (t.addTransaction tx).connectionStates.find id = _ from hcs)
  have href := ref?_of_find hcs
  apply Live.ext_apply <;> intros <;> simp only [live, Live.setTransaction] <;> grind

theorem live_eraseTransaction (hcs : t.connectionStates.find id = some cs) :
    (t.setConnection id { cs with transactions := cs.transactions.erase x }).live
      = t.live.setTransaction id x none := by
  have htx := transaction?_of_find hcs
  have href := ref?_of_find hcs
  apply Live.ext_apply <;> intros <;> simp only [live, Live.setTransaction] <;> grind

theorem live_modifyTransaction_unlisted (f : TransactionState κ → TransactionState κ)
    (h : ∀ k y, t.ref? k y ≠ some ref) : (t.modifyTransaction ref f).live = t.live := by
  rw [live_modifyTransaction]
  apply Live.ext_apply
  case htransaction =>
    intro k y
    exact if_neg (h k y)
  all_goals
    intros
    rfl

end Transactions

end ActiveMQCpp.State
