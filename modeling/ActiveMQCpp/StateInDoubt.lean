import ActiveMQCpp.StateHistory

/-! What a replay does with the open transactions. The commands and the producers that the tracker keeps for a
transaction are read off the history: the commands since its BEGIN, and the producers that were closed while
it was the transaction they last sent a message in. -/

namespace ActiveMQCpp.State

open Codec Decaf OrderedMap List Live

variable {κ : Type} [LinearOrder κ]

/-- The event starts a transaction, ends it, or takes or resets the connection it belongs to. -/
def Event.Resets (config : Config) (id : ConnectionId κ) (x : LocalTransactionId κ) : Event κ → Prop
  | .tracked (.connectionInfo info) => info.connectionId = id
  | .tracked (.removeInfo info) =>
    match info.objectId with
    | .connection k => k = id
    | _ => False
  | .tracked (.transactionInfo info) =>
    config.trackTransactions = true ∧ info.type = .begin ∧ info.connectionId = id ∧
      (match info.transactionId with
        | .local y => y = x
        | .xa .. => False)
  | .completed (.removeTransaction info) =>
    info.connectionId = id ∧
      (match info.transactionId with
        | .local y => y = x
        | .xa .. => False)
  | _ => False

/-- A message that is recorded in the transaction. -/
def Message.recorded (config : Config) (id : ConnectionId κ) (x : LocalTransactionId κ) (m : Message κ) :
    Option (Command κ) :=
  match m.transactionId with
  | some (.local y) =>
    if config.trackTransactions ∧ m.producerId.connection = id ∧ y = x then some (.message m) else none
  | _ => none

/-- The command that an event records in the transaction, its BEGIN apart. -/
def Event.recorded (config : Config) (id : ConnectionId κ) (x : LocalTransactionId κ) : Event κ → Option (Command κ)
  | .tracked (.message m) => m.recorded config id x
  | .refused (.message m) => m.recorded config id x
  | .tracked (.transactionInfo info) =>
    match info.type, info.transactionId with
    | .begin, _ => none
    | .forget, _ => none
    | .recover, _ => none
    | _, .local y =>
      if config.trackTransactions ∧ info.connectionId = id ∧ y = x then some (.transactionInfo info) else none
    | _, _ => none
  | _ => none

/-- The event closes a producer that sent its last transacted message in the transaction. -/
def Event.Closes (live : Live κ) (id : ConnectionId κ) (x : LocalTransactionId κ) (p : ProducerId κ) : Event κ → Prop
  | .tracked (.removeInfo info) =>
    match info.objectId with
    | .producer k => k = p ∧ live.sends p id x ∧ (live.producer p).isSome
    | _ => False
  | _ => False

/-- What one event does to an open transaction. -/
inductive Kept (config : Config) (live : Live κ) (id : ConnectionId κ) (x : LocalTransactionId κ) (e : Event κ)
    (tx : TransactionState κ) : Prop where
  | begun (info : TransactionInfo κ) (he : e = .tracked (.transactionInfo info)) (hreset : e.Resets config id x)
      (htx : tx = ⟨[.transactionInfo info], .empty⟩)
  | kept (old : TransactionState κ) (hold : live.transaction id x = some old) (hreset : ¬e.Resets config id x)
      (hcommands : tx.commands = old.commands ++ (e.recorded config id x).toList)
      (hproducers : ∀ p info, tx.producers.find p = some info →
        old.producers.find p = some info ∨ e.Closes live id x p ∧ live.producer p = some info)
      (hclosed : ∀ p, (tx.producers.find p).isSome ↔ (old.producers.find p).isSome ∨ e.Closes live id x p)

section Messages

variable (config : Config) (live : Live κ) (m : Message κ)

theorem recordMessage_producer : (live.recordMessage config m).producer = live.producer := by
  rw [recordMessage]
  split
  · split_ifs <;> rfl
  · rfl

theorem recordMessage_sends : (live.recordMessage config m).sends = live.sends := by
  rw [recordMessage]
  split
  · split_ifs <;> rfl
  · rfl

theorem noteProducer_producer : (live.noteProducer config m).producer = live.producer := by
  rw [noteProducer]
  split
  · split_ifs <;> rfl
  · rfl

theorem noteProducer_transaction : (live.noteProducer config m).transaction = live.transaction := by
  rw [noteProducer]
  split
  · split_ifs <;> rfl
  · rfl

end Messages

section Step

variable {config : Config} {live : Live κ} {id : ConnectionId κ} {x : LocalTransactionId κ} {tx : TransactionState κ}
variable {e : Event κ}
variable {p : ProducerId κ}

theorem Kept.same (h : live.transaction id x = some tx) (hreset : ¬e.Resets config id x)
    (hrecorded : e.recorded config id x = none) (hcloses : ∀ p, ¬e.Closes live id x p) :
    Kept config live id x e tx := by
  refine .kept tx h hreset ?_ (fun p info hp => .inl hp) ?_
  · rw [hrecorded, Option.toList_none, append_nil]
  · intro p
    simp only [hcloses p, or_false]

theorem Kept.record {k : ConnectionId κ} {y : LocalTransactionId κ} {command : Command κ}
    (h : (live.record k y command).transaction id x = some tx) (hreset : ¬e.Resets config id x)
    (hrecorded : e.recorded config id x = if k = id ∧ y = x then some command else none)
    (hcloses : ∀ p, ¬e.Closes live id x p) : Kept config live id x e tx := by
  have hflip : (id = k ∧ x = y) ↔ (k = id ∧ y = x) := ⟨fun h => ⟨h.1.symm, h.2.symm⟩, fun h => ⟨h.1.symm, h.2.symm⟩⟩
  simp only [Live.record, hflip] at h
  split_ifs at h with hkey
  · obtain ⟨old, hold, htx⟩ := Option.map_eq_some_iff.mp h
    subst htx
    refine .kept old hold hreset ?_ (fun p info hp => .inl hp) ?_
    · rw [hrecorded, if_pos hkey]
      rfl
    · intro p
      simp only [hcloses p, or_false]
      rfl
  · exact .same h hreset (by rw [hrecorded, if_neg hkey]) hcloses

theorem kept_message (m : Message κ) (h : (live.recordMessage config m).transaction id x = some tx)
    (hreset : ¬e.Resets config id x) (hrecorded : e.recorded config id x = m.recorded config id x)
    (hcloses : ∀ p, ¬e.Closes live id x p) : Kept config live id x e tx := by
  rw [Message.recorded] at hrecorded
  rw [recordMessage] at h
  cases htransaction : m.transactionId with
  | none =>
    rw [htransaction] at h hrecorded
    exact .same h hreset hrecorded hcloses
  | some transactionId =>
    rw [htransaction] at h hrecorded
    cases transactionId with
    | xa formatId globalTransactionId branchQualifier => exact .same h hreset hrecorded hcloses
    | «local» y =>
      simp only at h hrecorded
      by_cases htrack : config.trackTransactions = true
      · rw [if_pos htrack] at h
        simp only [htrack, true_and] at hrecorded
        exact .record h hreset hrecorded hcloses
      · rw [if_neg htrack] at h
        refine .same h hreset ?_ hcloses
        rw [hrecorded, if_neg fun hall => htrack hall.1]

theorem kept_transactionInfo (info : TransactionInfo κ)
    (h : (live.step config (.tracked (.transactionInfo info))).transaction id x = some tx) :
    Kept config live id x (.tracked (.transactionInfo info)) tx := by
  have hcloses : ∀ p, ¬(Event.tracked (.transactionInfo info)).Closes live id x p := fun p hp => hp
  by_cases htrack : config.trackTransactions = true
  · simp only [Live.step, Live.track, if_pos htrack, Live.transactionInfo] at h
    cases htransaction : info.transactionId with
    | xa formatId globalTransactionId branchQualifier =>
      rw [htransaction] at h
      refine .same h ?_ ?_ hcloses
      · rintro ⟨-, -, -, hlocal⟩
        rw [htransaction] at hlocal
        exact hlocal
      · simp only [Event.recorded, htransaction]
        cases info.type <;> rfl
    | «local» y =>
      rw [htransaction] at h
      by_cases hbegin : info.type = .begin
      · simp only [hbegin, Live.setTransaction] at h
        split_ifs at h with hkey
        · obtain ⟨rfl, rfl⟩ := hkey
          cases h
          refine .begun info rfl ⟨htrack, hbegin, rfl, ?_⟩ rfl
          rw [htransaction]
        · refine .same h ?_ ?_ hcloses
          · rintro ⟨-, -, hconnection, hlocal⟩
            rw [htransaction] at hlocal
            exact hkey ⟨hconnection.symm, hlocal.symm⟩
          · simp only [Event.recorded, hbegin]
      · have hreset : ¬(Event.tracked (.transactionInfo info)).Resets config id x := fun hr => hbegin hr.2.1
        by_cases hskip : info.type = .forget ∨ info.type = .recover
        · have hrecorded : (Event.tracked (.transactionInfo info)).recorded config id x = none := by
            rcases hskip with ht | ht <;> simp only [Event.recorded, ht]
          rcases hskip with ht | ht <;> simp only [ht] at h <;> exact .same h hreset hrecorded hcloses
        · have hrun : (live.record info.connectionId y (.transactionInfo info)).transaction id x = some tx := by
            cases ht : info.type <;> simp_all
          refine .record hrun hreset ?_ hcloses
          simp only [Event.recorded, htransaction, htrack, true_and]
          cases ht : info.type <;> simp_all
  · simp only [Live.step, Live.track, if_neg htrack] at h
    refine .same h (fun hr => htrack hr.1) ?_ hcloses
    simp only [Event.recorded, htrack]
    cases info.type <;> cases info.transactionId <;> rfl

theorem kept_dropProducer (hids : ∀ p info, live.producer p = some info → info.producerId = p) (info : RemoveInfo κ)
    {k : ProducerId κ} (hobject : info.objectId = .producer k)
    (h : (live.dropProducer k).transaction id x = some tx) :
    Kept config live id x (.tracked (.removeInfo info)) tx := by
  have hreset : ¬(Event.tracked (.removeInfo info)).Resets config id x := by
    simp only [Event.Resets, hobject, not_false_iff]
  have hcloses : ∀ p, (Event.tracked (.removeInfo info)).Closes live id x p ↔
      k = p ∧ live.sends p id x ∧ (live.producer p).isSome := by
    intro p
    simp only [Event.Closes, hobject]
  simp only [dropProducer] at h
  cases hproducer : live.producer k with
  | none =>
    rw [hproducer] at h
    refine .same h hreset rfl ?_
    rintro p hp
    obtain ⟨rfl, -, hsome⟩ := (hcloses p).mp hp
    rw [hproducer] at hsome
    cases hsome
  | some producer =>
    rw [hproducer] at h
    simp only at h
    split_ifs at h with hsends
    · obtain ⟨old, hold, rfl⟩ := Option.map_eq_some_iff.mp h
      have hid := hids k producer hproducer
      refine .kept old hold hreset (append_nil _).symm ?_ ?_
      · intro p found hfound
        simp only [TransactionState.addProducerState, find_insert, hid] at hfound
        split_ifs at hfound with hp
        · subst hp
          cases hfound
          exact .inr ⟨(hcloses _).mpr ⟨rfl, hsends, by rw [hproducer]; rfl⟩, hproducer⟩
        · exact .inl hfound
      · intro p
        rw [hcloses]
        simp only [TransactionState.addProducerState, find_insert, hid]
        split_ifs with hp
        · subst hp
          simp only [Option.isSome_some, hsends, hproducer, true_and, or_true]
        · have hne : k ≠ p := fun heq => hp heq.symm
          simp only [hne, false_and, or_false]
    · refine .same h hreset rfl ?_
      rintro p hp
      obtain ⟨rfl, hsend, -⟩ := (hcloses p).mp hp
      exact hsends hsend

/-- One event leaves an open transaction as it is, records a command in it, notes a producer for it, or begins
it. -/
theorem kept_step (hids : ∀ p info, live.producer p = some info → info.producerId = p) (e : Event κ)
    (h : (live.step config e).transaction id x = some tx) : Kept config live id x e tx := by
  cases e with
  | interrupted => exact .same h (fun hr => hr) rfl fun p hp => hp
  | resumed k => exact .same h (fun hr => hr) rfl fun p hp => hp
  | completed tracked =>
    cases tracked with
    | marker => exact .same h (fun hr => hr) rfl fun p hp => hp
    | removeTransaction info =>
      simp only [Live.step, Live.complete] at h
      cases htransaction : info.transactionId with
      | xa formatId globalTransactionId branchQualifier =>
        rw [htransaction] at h
        refine .same h ?_ rfl fun p hp => hp
        rintro ⟨-, hlocal⟩
        rw [htransaction] at hlocal
        exact hlocal
      | «local» y =>
        rw [htransaction] at h
        simp only [Live.setTransaction] at h
        split_ifs at h with hkey
        refine .same h ?_ rfl fun p hp => hp
        rintro ⟨hconnection, hlocal⟩
        rw [htransaction] at hlocal
        exact hkey ⟨hconnection.symm, hlocal.symm⟩
  | refused command =>
    cases command with
    | message m => exact kept_message m h (fun hr => hr) rfl fun p hp => hp
    | _ => exact .same h (fun hr => hr) rfl fun p hp => hp
  | tracked command =>
    cases command with
    | connectionInfo info =>
      simp only [Live.step, Live.track, Live.addConnection, Live.addSession, Live.dropSession,
        Live.dropConnection] at h
      split_ifs at h with hid
      exact .same h (fun hr => hid hr.symm) rfl fun p hp => hp
    | transactionInfo info => exact kept_transactionInfo info h
    | message m =>
      refine kept_message m ?_ (fun hr => hr) rfl fun p hp => hp
      rwa [Live.step, Live.track, noteProducer_transaction] at h
    | destinationInfo info =>
      simp only [Live.step, Live.track] at h
      split_ifs at h <;> exact .same h (fun hr => hr) rfl fun p hp => hp
    | removeInfo info =>
      simp only [Live.step, Live.track] at h
      cases hobject : info.objectId with
      | connection k =>
        rw [hobject] at h
        simp only [Live.remove, Live.dropConnection] at h
        split_ifs at h with hid
        refine .same h ?_ rfl ?_
        · simp only [Event.Resets, hobject]
          exact fun hr => hid hr.symm
        · simp only [Event.Closes, hobject, not_false_iff, implies_true]
      | producer k =>
        rw [hobject] at h
        exact kept_dropProducer hids info hobject h
      | _ =>
        rw [hobject] at h
        refine .same h ?_ rfl ?_
        · simp only [Event.Resets, hobject, not_false_iff]
        · simp only [Event.Closes, hobject, not_false_iff, implies_true]
    | _ => exact .same h (fun hr => hr) rfl fun p hp => hp

theorem producer_step {info : ProducerInfo κ} (e : Event κ)
    (h : (live.step config e).producer p = some info) : live.producer p = some info ∨ info.producerId = p := by
  cases e with
  | tracked command =>
    cases command with
    | connectionInfo cinfo =>
      simp only [Live.step, Live.track, Live.addConnection, Live.addSession, Live.dropSession,
        Live.dropConnection] at h
      split_ifs at h
      exact .inl h
    | sessionInfo sinfo =>
      simp only [Live.step, Live.track, Live.addSession, Live.dropSession] at h
      split_ifs at h
      exact .inl h
    | producerInfo pinfo =>
      simp only [Live.step, Live.track, Live.addProducer] at h
      split_ifs at h with hp
      · cases h
        exact .inr hp.symm
      · exact .inl h
    | destinationInfo dinfo =>
      simp only [Live.step, Live.track] at h
      split_ifs at h <;> exact .inl h
    | removeInfo rinfo =>
      simp only [Live.step, Live.track] at h
      cases hobject : rinfo.objectId with
      | consumer k =>
        rw [hobject] at h
        exact .inl h
      | other =>
        rw [hobject] at h
        exact .inl h
      | _ =>
        simp only [hobject, Live.remove, Live.dropConnection, Live.dropSession, Live.dropProducer] at h
        split_ifs at h
        exact .inl h
    | message m => exact .inl (by rwa [Live.step, Live.track, noteProducer_producer, recordMessage_producer] at h)
    | transactionInfo tinfo =>
      left
      rw [← h]
      simp only [Live.step, Live.track, Live.transactionInfo]
      split_ifs
      · cases tinfo.transactionId with
        | xa formatId globalTransactionId branchQualifier => rfl
        | «local» y => cases tinfo.type <;> rfl
      · rfl
    | _ => exact .inl h
  | refused command =>
    cases command with
    | message m => exact .inl (by rwa [Live.step, Live.refuse, recordMessage_producer] at h)
    | _ => exact .inl h
  | completed tracked =>
    rw [Live.step, (Live.sameObjects_complete live tracked).producer] at h
    exact .inl h
  | _ => exact .inl h

/-- A producer comes to send in a transaction by a message that is recorded there. -/
theorem sends_step (e : Event κ) (h : (live.step config e).sends p id x) :
    (∃ m, e = .tracked (.message m) ∧ m.producerId = p ∧ m.recorded config id x = some (.message m)) ∨
      live.sends p id x ∧ ¬e.Resets config id x := by
  cases e with
  | interrupted => exact .inr ⟨h, fun hr => hr⟩
  | resumed k => exact .inr ⟨h, fun hr => hr⟩
  | completed tracked =>
    cases tracked with
    | marker => exact .inr ⟨h, fun hr => hr⟩
    | removeTransaction info =>
      simp only [Live.step, Live.complete] at h
      simp only [Event.Resets]
      cases htransaction : info.transactionId with
      | xa formatId globalTransactionId branchQualifier =>
        rw [htransaction] at h
        exact .inr ⟨h, fun hr => hr.2⟩
      | «local» y =>
        rw [htransaction] at h
        exact .inr ⟨h.2, fun hr => h.1 ⟨hr.1.symm, hr.2.symm⟩⟩
  | refused command =>
    cases command with
    | message m =>
      rw [Live.step, Live.refuse, recordMessage_sends] at h
      exact .inr ⟨h, fun hr => hr⟩
    | _ => exact .inr ⟨h, fun hr => hr⟩
  | tracked command =>
    cases command with
    | connectionInfo info =>
      obtain ⟨-, -, hid, hsends⟩ := h
      exact .inr ⟨hsends, fun hr => hid hr.symm⟩
    | sessionInfo info => exact .inr ⟨h.2, fun hr => hr⟩
    | producerInfo info => exact .inr ⟨h.2, fun hr => hr⟩
    | destinationInfo info =>
      simp only [Live.step, Live.track] at h
      split_ifs at h <;> exact .inr ⟨h, fun hr => hr⟩
    | removeInfo info =>
      simp only [Live.step, Live.track] at h
      simp only [Event.Resets]
      cases hobject : info.objectId with
      | connection k =>
        rw [hobject] at h
        exact .inr ⟨h.2.2, fun hr => h.2.1 hr.symm⟩
      | session k =>
        rw [hobject] at h
        exact .inr ⟨h.2, fun hr => hr⟩
      | producer k =>
        rw [hobject] at h
        exact .inr ⟨h.2, fun hr => hr⟩
      | _ =>
        rw [hobject] at h
        exact .inr ⟨h, fun hr => hr⟩
    | message m =>
      simp only [Live.step, Live.track, Live.noteProducer] at h
      simp only [Message.recorded]
      cases htransaction : m.transactionId with
      | none =>
        rw [htransaction] at h
        simp only [recordMessage_sends] at h
        exact .inr ⟨h, fun hr => hr⟩
      | some transactionId =>
        rw [htransaction] at h
        cases transactionId with
        | xa formatId globalTransactionId branchQualifier =>
          simp only [recordMessage_sends] at h
          exact .inr ⟨h, fun hr => hr⟩
        | «local» y =>
          simp only at h
          split_ifs at h with hconfig
          · simp only [recordMessage_sends] at h
            split_ifs at h with hp
            · obtain ⟨rfl, rfl⟩ := h
              left
              refine ⟨m, rfl, hp.symm, ?_⟩
              rw [htransaction]
              simp only [hconfig.1, ← hp, and_self, if_true]
            · exact .inr ⟨h, fun hr => hr⟩
          · simp only [recordMessage_sends] at h
            exact .inr ⟨h, fun hr => hr⟩
    | transactionInfo info =>
      simp only [Live.step, Live.track, Live.transactionInfo] at h
      simp only [Event.Resets]
      by_cases htrack : config.trackTransactions = true
      · rw [if_pos htrack] at h
        cases htransaction : info.transactionId with
        | xa formatId globalTransactionId branchQualifier =>
          rw [htransaction] at h
          exact .inr ⟨h, fun hr => hr.2.2.2⟩
        | «local» y =>
          rw [htransaction] at h
          by_cases hbegin : info.type = .begin
          · simp only [hbegin, Live.setTransaction] at h
            exact .inr ⟨h.2, fun hr => h.1 ⟨hr.2.2.1.symm, hr.2.2.2.symm⟩⟩
          · refine .inr ⟨?_, fun hr => hbegin hr.2.1⟩
            cases ht : info.type with
            | begin => exact absurd ht hbegin
            | _ =>
              simp only [ht] at h
              exact h
      · rw [if_neg htrack] at h
        exact .inr ⟨h, fun hr => htrack hr.1⟩
    | _ => exact .inr ⟨h, fun hr => hr⟩

end Step

section Recorded

variable (config : Config) (events : List (Event κ)) (id : ConnectionId κ) (x : LocalTransactionId κ)

/-- The producer was closed while the transaction was the one it last sent a message in, and the transaction has
not been begun anew or ended since. -/
def ClosedIn (p : ProducerId κ) : Prop :=
  ∃ before e after, events = before ++ e :: after ∧ e.Closes (Live.after config before) id x p ∧
    ∀ e' ∈ after, ¬e'.Resets config id x

/-- What the tracker keeps for an open transaction, in terms of the history. -/
structure Recorded (tx : TransactionState κ) : Prop where
  commands : ∃ before info after, events = before ++ .tracked (.transactionInfo info) :: after ∧
    (Event.tracked (.transactionInfo info)).Resets config id x ∧ (∀ e ∈ after, ¬e.Resets config id x) ∧
    tx.commands = .transactionInfo info :: after.filterMap (Event.recorded config id x)
  producers : ∀ p, (tx.producers.find p).isSome ↔ ClosedIn config events id x p
  named : ∀ p info, tx.producers.find p = some info → info.producerId = p
  used : ∀ p info, tx.producers.find p = some info → ∃ m, .message m ∈ tx.commands ∧ m.producerId = p

end Recorded

variable {config : Config}
variable {events : List (Event κ)} {x : LocalTransactionId κ} {p : ProducerId κ} {tx : TransactionState κ}
  {c : Command κ}
variable {e : Event κ}

theorem Live.after_concat (events : List (Event κ)) (e : Event κ) :
    after config (events ++ [e]) = (after config events).step config e := by
  rw [after_append]
  rfl

theorem producerId_after (events : List (Event κ)) :
    ∀ p info, (after config events).producer p = some info → info.producerId = p := by
  induction events using List.reverseRecOn with
  | nil =>
    intro p info h
    cases h
  | append_singleton events e ih =>
    intro p info h
    rw [after_concat] at h
    rcases producer_step e h with hold | hid
    · exact ih p info hold
    · exact hid

theorem closedIn_concat {id : ConnectionId κ} (hreset : ¬e.Resets config id x) :
    ClosedIn config (events ++ [e]) id x p ↔
      ClosedIn config events id x p ∨ e.Closes (after config events) id x p := by
  constructor
  · rintro ⟨before, e', after, heq, hcloses, hafter⟩
    rcases eq_nil_or_concat' after with rfl | ⟨after', last, rfl⟩
    · obtain ⟨rfl, hlast⟩ := append_inj' heq rfl
      cases hlast
      exact .inr hcloses
    · rw [← cons_append, ← append_assoc] at heq
      obtain ⟨rfl, hlast⟩ := append_inj' heq rfl
      exact .inl ⟨before, e', after', rfl, hcloses, fun e'' h => hafter e'' (mem_append_left _ h)⟩
  · rintro (⟨before, e', after, rfl, hcloses, hafter⟩ | hcloses)
    · refine ⟨before, e', after ++ [e], by rw [append_assoc, cons_append], hcloses, ?_⟩
      intro e'' hmem
      rcases mem_append.mp hmem with hold | hlast
      · exact hafter e'' hold
      · rw [mem_singleton.mp hlast]
        exact hreset
    · exact ⟨events, e, [], rfl, hcloses, fun e' h => (not_mem_nil h).elim⟩

theorem not_closedIn_of_resets {info : TransactionInfo κ} {id : ConnectionId κ}
    (hreset : (Event.tracked (.transactionInfo info)).Resets config id x) :
    ¬ClosedIn config (events ++ [.tracked (.transactionInfo info)]) id x p := by
  rintro ⟨before, e', after, heq, hcloses, hafter⟩
  rcases eq_nil_or_concat' after with rfl | ⟨after', last, rfl⟩
  · obtain ⟨-, hlast⟩ := append_inj' heq rfl
    cases hlast
    exact hcloses
  · rw [← cons_append, ← append_assoc] at heq
    obtain ⟨-, hlast⟩ := append_inj' heq rfl
    cases hlast
    exact hafter _ (mem_append_right _ (mem_singleton.mpr rfl)) hreset

theorem sends_used {id : ConnectionId κ} (hsends : (after config events).sends p id x)
    (htx : (after config events).transaction id x = some tx) :
    ∃ m, .message m ∈ tx.commands ∧ m.producerId = p := by
  induction events using List.reverseRecOn generalizing tx with
  | nil => cases hsends
  | append_singleton events e ih =>
    rw [after_concat] at hsends htx
    have hkept := kept_step (producerId_after events) e htx
    rcases sends_step e hsends with ⟨m, rfl, hp, hrecorded⟩ | ⟨hold, hreset⟩
    · cases hkept with
      | begun info he => cases he
      | kept old _ _ hcommands =>
        refine ⟨m, ?_, hp⟩
        rw [hcommands]
        exact mem_append_right _ (by rw [Event.recorded, hrecorded]; exact mem_singleton.mpr rfl)
    · cases hkept with
      | begun info he hreset' => exact absurd hreset' hreset
      | kept old hprev _ hcommands =>
        obtain ⟨m, hmem, hp⟩ := ih hold hprev
        exact ⟨m, by rw [hcommands]; exact mem_append_left _ hmem, hp⟩

/-- What is kept for an open transaction is what the history says. -/
theorem recorded_after {id : ConnectionId κ} (htx : (after config events).transaction id x = some tx) :
    Recorded config events id x tx := by
  induction events using List.reverseRecOn generalizing tx with
  | nil => cases htx
  | append_singleton events e ih =>
    rw [after_concat] at htx
    cases kept_step (producerId_after events) e htx with
    | begun info he hreset heq =>
      subst he heq
      refine ⟨⟨events, info, [], rfl, hreset, fun e h => (not_mem_nil h).elim, rfl⟩, ?_, ?_, ?_⟩
      · intro p
        simp only [find_empty, Option.isSome_none, Bool.false_eq_true, false_iff]
        exact not_closedIn_of_resets hreset
      · intro p pinfo h
        cases h
      · intro p pinfo h
        cases h
    | kept old hold hreset hcommands hproducers hclosed =>
      have hrec := ih hold
      obtain ⟨before, info, after, hevents, hbegin, hafter, hold_commands⟩ := hrec.commands
      refine ⟨⟨before, info, after ++ [e], ?_, hbegin, ?_, ?_⟩, ?_, ?_, ?_⟩
      · rw [hevents, append_assoc, cons_append]
      · intro e' hmem
        rcases mem_append.mp hmem with h | h
        · exact hafter e' h
        · rw [mem_singleton.mp h]
          exact hreset
      · rw [hcommands, hold_commands, filterMap_append, cons_append]
        cases hc : e.recorded config id x with
        | none => simp [hc]
        | some c => simp [hc]
      · intro p
        rw [hclosed p, hrec.producers p, closedIn_concat hreset]
      · intro p pinfo hfind
        rcases hproducers p pinfo hfind with h | ⟨-, hp⟩
        · exact hrec.named p pinfo h
        · exact producerId_after events p pinfo hp
      · intro p pinfo hfind
        have hmem : ∃ m, .message m ∈ old.commands ∧ m.producerId = p := by
          rcases hproducers p pinfo hfind with h | ⟨hcloses, -⟩
          · exact hrec.used p pinfo h
          · have hsends : (Live.after config events).sends p id x := by
              cases e with
              | tracked command =>
                cases command with
                | removeInfo rinfo =>
                  rw [Event.Closes] at hcloses
                  split at hcloses
                  · exact hcloses.2.1
                  · exact hcloses.elim
                | _ => exact hcloses.elim
              | _ => exact hcloses.elim
            exact sends_used hsends hold
        obtain ⟨m, hm, hp⟩ := hmem
        exact ⟨m, by rw [hcommands]; exact mem_append_left _ hm, hp⟩

/-- The local transaction that a command belongs to, with its connection. -/
def Command.transaction? : Command κ → Option (ConnectionId κ × LocalTransactionId κ)
  | .message m =>
    match m.transactionId with
    | some (.local x) => some (m.producerId.connection, x)
    | _ => none
  | .transactionInfo info =>
    match info.transactionId with
    | .local x => some (info.connectionId, x)
    | .xa .. => none
  | _ => none

theorem transaction?_of_messageRecorded {id : ConnectionId κ} {m : Message κ}
    (h : m.recorded config id x = some c) : c.transaction? = some (id, x) := by
  rw [Message.recorded] at h
  split at h
  · next y hy =>
      split_ifs at h with hkey
      cases h
      obtain ⟨-, rfl, rfl⟩ := hkey
      simp only [Command.transaction?, hy]
  · cases h

theorem transaction?_of_recorded {id : ConnectionId κ}
    (h : e.recorded config id x = some c) : c.transaction? = some (id, x) := by
  cases e with
  | refused command =>
    cases command with
    | message m => exact transaction?_of_messageRecorded h
    | _ => cases h
  | tracked command =>
    cases command with
    | message m => exact transaction?_of_messageRecorded h
    | transactionInfo info =>
      rw [Event.recorded] at h
      split at h
      · cases h
      · cases h
      · cases h
      · next y hy _ _ _ =>
          split_ifs at h with hkey
          cases h
          obtain ⟨-, rfl, rfl⟩ := hkey
          simp only [Command.transaction?, hy]
      · cases h
    | _ => cases h
  | _ => cases h

theorem Recorded.transaction?_eq {id : ConnectionId κ} (h : Recorded config events id x tx) (hc : c ∈ tx.commands) :
    c.transaction? = some (id, x) := by
  obtain ⟨before, info, after, -, ⟨-, -, hconnection, hlocal⟩, -, hcommands⟩ := h.commands
  rw [hcommands] at hc
  rcases mem_cons.mp hc with rfl | hc
  · cases htransaction : info.transactionId with
    | xa formatId globalTransactionId branchQualifier =>
      rw [htransaction] at hlocal
      exact hlocal.elim
    | «local» y =>
      rw [htransaction] at hlocal
      cases hlocal
      simp only [Command.transaction?, htransaction, hconnection]
  · obtain ⟨e, -, he⟩ := mem_filterMap.mp hc
    exact transaction?_of_recorded he

theorem transaction?_of_replayed {id : ConnectionId κ} (h : Recorded config events id x tx)
    (hc : c ∈ replayOpenTransaction tx) {k : ConnectionId κ} {y : LocalTransactionId κ}
    (hy : c.transaction? = some (k, y)) : y = x ∧ inDoubt tx = none := by
  rw [replayOpenTransaction] at hc
  cases hdoubt : inDoubt tx with
  | some info =>
    rw [hdoubt] at hc
    exact (not_mem_nil hc).elim
  | none =>
    rw [hdoubt] at hc
    refine ⟨?_, rfl⟩
    rcases mem_append.mp hc with hc | hc
    · rcases mem_append.mp hc with hc | hc
      · obtain ⟨pinfo, -, rfl⟩ := mem_map.mp hc
        cases hy
      · rw [h.transaction?_eq hc] at hy
        cases hy
        rfl
    · obtain ⟨pinfo, -, rfl⟩ := mem_map.mp hc
      cases hy

/-- The replay of the open transactions of a connection, at the end of any history: in the order of their ids,
each of them with its commands from its BEGIN on, between the adds and the removes of the producers that were
closed in it. A transaction whose last command is a one-phase commit is left out, and its commit is answered
with an exception. -/
theorem open_transactions_replayed {events : List (Event κ)} {t : Tracker κ} (h : History config events t)
    (s : Restoring κ) (hs : s.tracker = t) (id : ConnectionId κ)
    (hid : ((Live.after config events).connection id).isSome) :
    (∀ s', doRestoreTransactions id s = .ok () s' → ∃ transactions,
      Enumerates transactions ((Live.after config events).transaction id) ∧
      s'.sent = s.sent ++ transactions.flatMap (fun tx => replayOpenTransaction tx.2) ∧
      s'.answered = s.answered ++ (transactions.filterMap fun tx => inDoubt tx.2).map
        (fun info => ⟨info.commandId, info.transactionId⟩) ∧
      (∀ x tx, (x, tx) ∈ transactions → Recorded config events id x tx) ∧
      ∀ x tx, (x, tx) ∈ transactions → inDoubt tx ≠ none →
        ∀ c ∈ transactions.flatMap (fun tx => replayOpenTransaction tx.2), c.transaction? ≠ some (id, x)) ∧
    (s.failAt = none → (∀ n tracked, s.requestMap.find n ≠ some (.tracked tracked)) →
      ∃ s', doRestoreTransactions id s = .ok () s') := by
  subst hs
  obtain ⟨hinv, hlive⟩ := h.refines
  have hsome : ((s.tracker.live).connection id).isSome := by rwa [hlive]
  have henum : Enumerates ((s.tracker.enumeration hinv).transactions id) ((after config events).transaction id) := by
    refine ((s.tracker.enumeration hinv).transactions_enumerate id).congr ?_
    intro x
    rw [hlive]
  have hdoes := doRestoreTransactions_does (s.tracker.enumeration hinv) rfl hinv hsome
  unfold Does at hdoes
  constructor
  · intro s' hrun
    rw [hrun] at hdoes
    obtain ⟨completed, hreplayed, -⟩ := hdoes
    have hrecorded : ∀ x tx, (x, tx) ∈ (s.tracker.enumeration hinv).transactions id → Recorded config events id x tx :=
      fun x tx hmem => recorded_after ((henum.2 x tx).mp hmem)
    refine ⟨_, henum, hreplayed.sent_eq, hreplayed.answered_eq, hrecorded, ?_⟩
    intro x tx hmem hdoubt c hc hname
    obtain ⟨⟨y, other⟩, hother, hreplay⟩ := mem_flatMap.mp hc
    obtain ⟨rfl, hnone⟩ := transaction?_of_replayed (hrecorded y other hother) hreplay hname
    have heq := ((henum.2 x tx).mp hmem).symm.trans ((henum.2 x other).mp hother)
    cases heq
    exact hdoubt hnone
  · intro hfail hrequests
    cases hrun : doRestoreTransactions id s with
    | ok u s' => exact ⟨s', rfl⟩
    | error failure s' =>
      rw [hrun] at hdoes
      rcases hdoes.2 with hne | ⟨n, tracked, hfind⟩
      · exact absurd hfail hne
      · exact absurd hfind (hrequests n tracked)

/-! ### A commit in doubt beside an open transaction -/

/-- One transaction is being committed; the other is open, and its producer has been closed. -/
def doubtfulCommands : List (Command Nat) :=
  [.connectionInfo { connectionId := ⟨0⟩ },
    .sessionInfo { sessionId := ⟨0, 1⟩ },
    .producerInfo { producerId := ⟨0, 1, 7⟩ },
    .transactionInfo { connectionId := ⟨0⟩, transactionId := .local ⟨0, 5⟩, type := .begin },
    .message { messageId := 0, producerId := ⟨0, 1, 7⟩, transactionId := some (.local ⟨0, 5⟩), size := 3 },
    .transactionInfo { commandId := 12, connectionId := ⟨0⟩, transactionId := .local ⟨0, 5⟩, type := .commitOnePhase },
    .transactionInfo { connectionId := ⟨0⟩, transactionId := .local ⟨0, 6⟩, type := .begin },
    .message { messageId := 1, producerId := ⟨0, 1, 7⟩, transactionId := some (.local ⟨0, 6⟩), size := 3 },
    .removeInfo { objectId := .producer ⟨0, 1, 7⟩ }]

def doubtfulTracker : Tracker Nat := stateOf (trackAll transactedConfig doubtfulCommands Tracker.new)

theorem history_doubtfulCommands : History transactedConfig (doubtfulCommands.map .tracked) doubtfulTracker := by
  have hreturns : returns (trackAll transactedConfig doubtfulCommands Tracker.new) = true := by decide +kernel
  obtain ⟨_, hrun⟩ := eq_ok_of_returns hreturns
  exact History.start.trackAll hrun

theorem open_transactions_replayed_doubtful :
    ∃ s' transactions, doRestoreTransactions ⟨0⟩ (.new doubtfulTracker .empty none) = .ok () s' ∧
      Enumerates transactions ((Live.after transactedConfig (doubtfulCommands.map .tracked)).transaction ⟨0⟩) ∧
      s'.sent = transactions.flatMap fun tx => replayOpenTransaction tx.2 := by
  obtain ⟨hsent, hreturns⟩ := open_transactions_replayed history_doubtfulCommands (.new doubtfulTracker .empty none)
    (Restoring.new_tracker _ _ _) ⟨0⟩ rfl
  obtain ⟨s', hs'⟩ := hreturns rfl fun n tracked h => by cases h
  obtain ⟨transactions, henum, heq, -⟩ := hsent s' hs'
  exact ⟨s', transactions, hs', henum, heq⟩

/-- The commands of `shortTransaction` with the session closed instead of the producer. -/
def sessionClosed : List (Command Nat) :=
  shortTransaction.dropLast ++ [.removeInfo { objectId := .session ⟨0, 1⟩ }]

def untrackedConfig : Config := { trackTransactions := true, trackTransactionProducers := false }

/-- A message of the producer is sent again, and the producer is not announced for it. -/
def sendsUnannounced (p : ProducerId Nat) (sent : List (Command Nat)) : Bool :=
  (sent.any fun c =>
    match c with
    | .message m => decide (m.producerId = p)
    | _ => false) &&
  sent.all fun c =>
    match c with
    | .producerInfo info => decide (info.producerId ≠ p)
    | _ => true

/-- A producer that was closed in an open transaction is not announced for the replay when the producers of
transactions are not tracked, or when it was closed together with its session. -/
theorem closed_producer_not_announced :
    (∃ t s', History untrackedConfig (shortTransaction.map .tracked) t ∧
      doRestoreTransactions ⟨0⟩ (.new t .empty none) = .ok () s' ∧ sendsUnannounced ⟨0, 1, 7⟩ s'.sent = true ∧
      (Live.after untrackedConfig (shortTransaction.map .tracked)).producer ⟨0, 1, 7⟩ = none) ∧
    ∃ t s', History transactedConfig (sessionClosed.map .tracked) t ∧
      doRestoreTransactions ⟨0⟩ (.new t .empty none) = .ok () s' ∧ sendsUnannounced ⟨0, 1, 7⟩ s'.sent = true ∧
      (Live.after transactedConfig (sessionClosed.map .tracked)).producer ⟨0, 1, 7⟩ = none := by
  constructor
  · have htrack : returns (trackAll untrackedConfig shortTransaction Tracker.new) = true := by decide +kernel
    obtain ⟨_, hrun⟩ := eq_ok_of_returns htrack
    have hrestore : returns (doRestoreTransactions ⟨0⟩
        (.new (stateOf (trackAll untrackedConfig shortTransaction Tracker.new)) .empty none)) = true := by
      decide +kernel
    obtain ⟨_, hsent⟩ := eq_ok_of_returns hrestore
    exact ⟨_, _, History.start.trackAll hrun, hsent, by decide +kernel, rfl⟩
  · have htrack : returns (trackAll transactedConfig sessionClosed Tracker.new) = true := by decide +kernel
    obtain ⟨_, hrun⟩ := eq_ok_of_returns htrack
    have hrestore : returns (doRestoreTransactions ⟨0⟩
        (.new (stateOf (trackAll transactedConfig sessionClosed Tracker.new)) .empty none)) = true := by
      decide +kernel
    obtain ⟨_, hsent⟩ := eq_ok_of_returns hrestore
    exact ⟨_, _, History.start.trackAll hrun, hsent, by decide +kernel, rfl⟩

end ActiveMQCpp.State
