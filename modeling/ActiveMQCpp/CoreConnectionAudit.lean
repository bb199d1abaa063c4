import ActiveMQCpp.CoreMessageAudit
import ActiveMQCpp.DecafNaturalOrder
import Mathlib.Data.List.Find

/-! `ConnectionAudit`: an `ActiveMQMessageAudit` for every queue and, for messages of topics, one for every
dispatcher. -/

namespace ActiveMQCpp.Core.Audit

open Decaf Runs Refinement LinkedHashMap List

inductive DestinationType where
  | queue
  | topic
  | temporaryQueue
  | temporaryTopic
  deriving DecidableEq

structure ActiveMQDestination where
  destinationType : DestinationType
  physicalName : ByteString

namespace ActiveMQDestination

def isTopic (destination : ActiveMQDestination) : Bool :=
  destination.destinationType = .topic || destination.destinationType = .temporaryTopic

def isQueue (destination : ActiveMQDestination) : Bool := !destination.isTopic

def compareTo (destination value : ActiveMQDestination) : Int :=
  StringUtils.compare destination.physicalName value.physicalName

end ActiveMQDestination

structure Message where
  destination : Option ActiveMQDestination
  messageId : Option MessageId

/-- `δ` stands for the pointers to dispatchers. -/
structure ConnectionAudit (δ : Type) where
  checkForDuplicates : Bool := true
  auditDepth : Int := 2048
  destinations : List (ActiveMQDestination × ActiveMQMessageAudit) := []
  dispatchers : List (δ × ActiveMQMessageAudit) := []

/-- A `std::map` finds the entry whose key is neither before nor after the one looked for. -/
def equivalent (destination key : ActiveMQDestination) : Bool :=
  !decide (key.compareTo destination < 0) && !decide (destination.compareTo key < 0)

namespace ConnectionAudit

variable {δ : Type} [DecidableEq δ]

def findDestination (destination : ActiveMQDestination) (s : ConnectionAudit δ) : Option ActiveMQMessageAudit :=
  (s.destinations.find? fun e => equivalent destination e.1).map Prod.snd

def findDispatcher (dispatcher : δ) (s : ConnectionAudit δ) : Option ActiveMQMessageAudit :=
  LinkedHashMap.lookup dispatcher s.dispatchers

/-- The audit found for the destination or, if there was none, the one put in the map, after a change to it. -/
def storeDestination (destination : ActiveMQDestination) (audit : ActiveMQMessageAudit) (s : ConnectionAudit δ) :
    ConnectionAudit δ :=
  if s.destinations.any fun e => equivalent destination e.1 then
    { s with destinations := s.destinations.map fun e => if equivalent destination e.1 then (e.1, audit) else e }
  else { s with destinations := s.destinations ++ [(destination, audit)] }

def storeDispatcher (dispatcher : δ) (audit : ActiveMQMessageAudit) (s : ConnectionAudit δ) : ConnectionAudit δ :=
  { s with dispatchers := LinkedHashMap.putImpl dispatcher audit s.dispatchers }

def removeDispatcher (dispatcher : δ) (s : ConnectionAudit δ) : ConnectionAudit δ :=
  { s with dispatchers := s.dispatchers.filter fun e => e.1 ≠ dispatcher }

def isDuplicate (dispatcher : δ) (message : Option Message) (s : ConnectionAudit δ) :
    Except BitSetException Bool × ConnectionAudit δ :=
  match s.checkForDuplicates, message with
  | true, some ⟨some destination, messageId⟩ =>
    if destination.isQueue then
      let audit := (s.findDestination destination).getD { auditDepth := s.auditDepth }
      let result := audit.isDuplicate messageId
      (result.1, s.storeDestination destination result.2)
    else
      let audit := (s.findDispatcher dispatcher).getD { auditDepth := s.auditDepth }
      let result := audit.isDuplicate messageId
      (result.1, s.storeDispatcher dispatcher result.2)
  | _, _ => (.ok false, s)

def rollbackDuplicate (dispatcher : δ) (message : Option Message) (s : ConnectionAudit δ) :
    Except BitSetException Unit × ConnectionAudit δ :=
  match s.checkForDuplicates, message with
  | true, some ⟨some destination, messageId⟩ =>
    if destination.isQueue then
      match s.findDestination destination with
      | some audit => ((audit.rollback messageId).1, s.storeDestination destination (audit.rollback messageId).2)
      | none => (.ok (), s)
    else
      match s.findDispatcher dispatcher with
      | some audit => ((audit.rollback messageId).1, s.storeDispatcher dispatcher (audit.rollback messageId).2)
      | none => (.ok (), s)
  | _, _ => (.ok (), s)

end ConnectionAudit

/-! ### Runs -/

section Runs

variable {δ : Type} [DecidableEq δ]

inductive Call (δ : Type) where
  | isDuplicate (dispatcher : δ) (message : Option Message)
  | rollbackDuplicate (dispatcher : δ) (message : Option Message)
  | removeDispatcher (dispatcher : δ)

def call (s : ConnectionAudit δ) : Call δ → Except BitSetException (Option Bool) × ConnectionAudit δ
  | .isDuplicate dispatcher message =>
    ((s.isDuplicate dispatcher message).1.map some, (s.isDuplicate dispatcher message).2)
  | .rollbackDuplicate dispatcher message =>
    ((s.rollbackDuplicate dispatcher message).1.map fun _ => none, (s.rollbackDuplicate dispatcher message).2)
  | .removeDispatcher dispatcher => (.ok none, s.removeDispatcher dispatcher)

/-- What an audit is kept for: a queue by its name, or a dispatcher. -/
inductive Key (δ : Type) where
  | queue (physicalName : ByteString)
  | dispatcher (dispatcher : δ)
  deriving DecidableEq

def keyFor (dispatcher : δ) (destination : ActiveMQDestination) : Key δ :=
  if destination.isQueue then .queue destination.physicalName else .dispatcher dispatcher

def keyOf (dispatcher : δ) : Option Message → Option (Key δ)
  | some ⟨some destination, _⟩ => some (keyFor dispatcher destination)
  | _ => none

def Call.key : Call δ → Option (Key δ)
  | .isDuplicate dispatcher message => keyOf dispatcher message
  | .rollbackDuplicate dispatcher message => keyOf dispatcher message
  | .removeDispatcher dispatcher => some (.dispatcher dispatcher)

def answer (checkForDuplicates : Bool) (auditDepth : Int) (audit : Option ActiveMQMessageAudit) :
    Call δ → Except BitSetException (Option Bool) × Option ActiveMQMessageAudit
  | .isDuplicate _ message =>
    match checkForDuplicates, message with
    | true, some ⟨some _, messageId⟩ =>
      let result := (audit.getD { auditDepth := auditDepth }).isDuplicate messageId
      (result.1.map some, some result.2)
    | _, _ => (.ok (some false), audit)
  | .rollbackDuplicate _ message =>
    match checkForDuplicates, message, audit with
    | true, some ⟨some _, messageId⟩, some audit =>
      ((audit.rollback messageId).1.map fun _ => none, some (audit.rollback messageId).2)
    | _, _, _ => (.ok none, audit)
  | .removeDispatcher _ => (.ok none, none)

/-- The audits of queues by the names of the queues. -/
def byName (s : ConnectionAudit δ) : List (ByteString × ActiveMQMessageAudit) :=
  s.destinations.map fun e => (e.1.physicalName, e.2)

def auditOf (s : ConnectionAudit δ) : Key δ → Option ActiveMQMessageAudit
  | .queue physicalName => LinkedHashMap.lookup physicalName (byName s)
  | .dispatcher dispatcher => s.findDispatcher dispatcher

/-- The names of the queues are plain, so that the order of destinations tells them apart. -/
def PlainNames (s : ConnectionAudit δ) : Prop := ∀ e ∈ s.destinations, StringUtils.Plain e.1.physicalName

variable {s t : ConnectionAudit δ} {k : Key δ} {destination : ActiveMQDestination} {audit : ActiveMQMessageAudit}
variable {dispatcher : δ} {c : Call δ} {calls : List (Call δ)} {i : Int}

theorem equivalent_iff {key : ActiveMQDestination} (h : StringUtils.Plain destination.physicalName)
    (hkey : StringUtils.Plain key.physicalName) :
    equivalent destination key = decide (key.physicalName = destination.physicalName) := by
  rw [equivalent, ← decide_not, ← decide_not, ← Bool.decide_and]
  exact decide_eq_decide.mpr (StringUtils.compare_equivalent hkey h)

omit [DecidableEq δ] in
theorem findDestination_eq (hs : PlainNames s) (h : StringUtils.Plain destination.physicalName) :
    s.findDestination destination = LinkedHashMap.lookup destination.physicalName (byName s) := by
  rw [ConnectionAudit.findDestination, LinkedHashMap.lookup, byName, List.find?_map, Option.map_map]
  congr 1
  apply List.find?_congr
  intro e he
  exact equivalent_iff h (hs e he)

omit [DecidableEq δ] in
theorem byName_storeDestination (hs : PlainNames s) (h : StringUtils.Plain destination.physicalName) :
    byName (s.storeDestination destination audit) =
      putImpl destination.physicalName audit (byName s) := by
  have hany : (s.destinations.any fun e => equivalent destination e.1) =
      containsKey destination.physicalName (byName s) := by
    rw [containsKey, byName, any_map, Bool.eq_iff_iff, any_eq_true, any_eq_true]
    refine exists_congr fun e => and_congr_right fun he => ?_
    rw [equivalent_iff h (hs e he)]
    rfl
  rw [ConnectionAudit.storeDestination, hany, putImpl]
  by_cases hkey : containsKey destination.physicalName (byName s) = true
  · rw [if_pos hkey, if_pos hkey, LinkedHashMap.replace, byName, byName, List.map_map, List.map_map]
    apply map_congr_left
    intro e he
    simp only [Function.comp, equivalent_iff h (hs e he), decide_eq_true_eq]
    split_ifs with heq
    · rw [heq]
    · rfl
  · rw [if_neg hkey, if_neg hkey, byName, map_append]
    rfl

omit [DecidableEq δ] in
theorem plainNames_storeDestination (hs : PlainNames s) (h : StringUtils.Plain destination.physicalName) :
    PlainNames (s.storeDestination destination audit) := by
  intro e he
  rw [ConnectionAudit.storeDestination] at he
  split_ifs at he
  · obtain ⟨e', he', rfl⟩ := mem_map.mp he
    split_ifs
    · exact hs e' he'
    · exact hs e' he'
  · rcases mem_append.mp he with hold | hnew
    · exact hs e hold
    · rw [mem_singleton.mp hnew]
      exact h

theorem auditOf_storeDestination (hs : PlainNames s) (h : StringUtils.Plain destination.physicalName) :
    auditOf (s.storeDestination destination audit) k =
      if k = .queue destination.physicalName then some audit else auditOf s k := by
  cases k with
  | queue physicalName =>
    rw [auditOf, byName_storeDestination hs h, lookup_putImpl]
    simp only [Key.queue.injEq]
    rfl
  | dispatcher dispatcher =>
    rw [if_neg (fun heq => by cases heq)]
    rw [ConnectionAudit.storeDestination]
    split_ifs <;> rfl

theorem auditOf_storeDispatcher (dispatcher : δ) :
    auditOf (s.storeDispatcher dispatcher audit) k = if k = .dispatcher dispatcher then some audit else auditOf s k := by
  cases k with
  | queue physicalName =>
    rw [if_neg (fun heq => by cases heq)]
    rfl
  | dispatcher dispatcher' =>
    simp only [Key.dispatcher.injEq]
    exact lookup_putImpl

theorem auditOf_removeDispatcher (dispatcher : δ) :
    auditOf (s.removeDispatcher dispatcher) k = if k = .dispatcher dispatcher then none else auditOf s k := by
  cases k with
  | queue physicalName =>
    rw [if_neg (fun heq => by cases heq)]
    rfl
  | dispatcher dispatcher' =>
    simp only [Key.dispatcher.injEq]
    exact lookup_filter_ne

/-! ### One call -/

/-- The queue has a plain name, if it is one. -/
def PlainKey : Key δ → Prop
  | .queue physicalName => StringUtils.Plain physicalName
  | .dispatcher _ => True

def PlainCall (c : Call δ) : Prop := ∀ k, c.key = some k → PlainKey k

/-- The audit that a call for a message looks up. -/
def found (dispatcher : δ) (destination : ActiveMQDestination) (s : ConnectionAudit δ) : Option ActiveMQMessageAudit :=
  if destination.isQueue then s.findDestination destination else s.findDispatcher dispatcher

def stored (dispatcher : δ) (destination : ActiveMQDestination) (audit : ActiveMQMessageAudit)
    (s : ConnectionAudit δ) : ConnectionAudit δ :=
  if destination.isQueue then s.storeDestination destination audit else s.storeDispatcher dispatcher audit

theorem found_eq (hs : PlainNames s) (h : PlainKey (keyFor dispatcher destination)) :
    found dispatcher destination s = auditOf s (keyFor dispatcher destination) := by
  rw [found, keyFor] at *
  split_ifs at h ⊢
  · exact findDestination_eq hs h
  · rfl

theorem stored_eq (hs : PlainNames s) (h : PlainKey (keyFor dispatcher destination)) (audit : ActiveMQMessageAudit) :
    PlainNames (stored dispatcher destination audit s) ∧
      (stored dispatcher destination audit s).checkForDuplicates = s.checkForDuplicates ∧
      (stored dispatcher destination audit s).auditDepth = s.auditDepth ∧
      ∀ k, auditOf (stored dispatcher destination audit s) k =
        if k = keyFor dispatcher destination then some audit else auditOf s k := by
  rw [stored, keyFor] at *
  split_ifs at h ⊢
  · have hconfig : (s.storeDestination destination audit).checkForDuplicates = s.checkForDuplicates ∧
        (s.storeDestination destination audit).auditDepth = s.auditDepth := by
      rw [ConnectionAudit.storeDestination]
      split_ifs <;> exact ⟨rfl, rfl⟩
    exact ⟨plainNames_storeDestination hs h, hconfig.1, hconfig.2, fun k => auditOf_storeDestination hs h⟩
  · exact ⟨hs, rfl, rfl, fun k => auditOf_storeDispatcher dispatcher⟩

/-- A call answers from the audit of its key, and changes no other. -/
structure Answered (c : Call δ) (s : ConnectionAudit δ) : Prop where
  plain : PlainNames (call s c).2
  check : (call s c).2.checkForDuplicates = s.checkForDuplicates
  depth : (call s c).2.auditDepth = s.auditDepth
  own : ∀ k, c.key = some k →
    (call s c).1 = (answer s.checkForDuplicates s.auditDepth (auditOf s k) c).1 ∧
      auditOf (call s c).2 k = (answer s.checkForDuplicates s.auditDepth (auditOf s k) c).2
  others : ∀ k, c.key ≠ some k → auditOf (call s c).2 k = auditOf s k

theorem answered_unchanged (hs : PlainNames s) (hstate : (call s c).2 = s) (hown : ∀ k, c.key = some k →
      answer s.checkForDuplicates s.auditDepth (auditOf s k) c = ((call s c).1, auditOf s k)) : Answered c s := by
  refine ⟨?_, ?_, ?_, fun k hk => ?_, fun k _ => ?_⟩
  · rwa [hstate]
  · rw [hstate]
  · rw [hstate]
  · rw [hown k hk, hstate]
    exact ⟨rfl, rfl⟩
  · rw [hstate]

theorem answered_stored (hs : PlainNames s)
    (hplain : PlainKey (keyFor dispatcher destination)) (hkey : c.key = some (keyFor dispatcher destination))
    (hstate : (call s c).2 = stored dispatcher destination audit s)
    (hown : answer s.checkForDuplicates s.auditDepth (auditOf s (keyFor dispatcher destination)) c =
      ((call s c).1, some audit)) : Answered c s := by
  obtain ⟨hplain', hcheck, hdepth, haudit⟩ := stored_eq hs hplain audit
  rw [← hstate] at hplain' hcheck hdepth haudit
  refine ⟨hplain', hcheck, hdepth, fun k hk => ?_, fun k hk => ?_⟩
  · rw [hkey] at hk
    cases hk
    rw [hown, haudit, if_pos rfl]
    exact ⟨rfl, rfl⟩
  · rw [haudit, if_neg fun heq => hk (by rw [hkey, heq])]

theorem answered_isDuplicate (hs : PlainNames s) (dispatcher : δ) (message : Option Message)
    (hplain : PlainCall (.isDuplicate dispatcher message)) : Answered (.isDuplicate dispatcher message) s := by
  cases hcheck : s.checkForDuplicates with
  | false =>
    have hcall : s.isDuplicate dispatcher message = (.ok false, s) := by
      rw [ConnectionAudit.isDuplicate.eq_def, hcheck]
    refine answered_unchanged hs ?_ fun k _ => ?_
    · rw [call, hcall]
    · rw [call, hcall, hcheck]
      rfl
  | true =>
    match message with
    | none =>
      refine answered_unchanged hs ?_ fun k hk => by cases hk
      rw [call, ConnectionAudit.isDuplicate.eq_def, hcheck]
    | some ⟨none, messageId⟩ =>
      refine answered_unchanged hs ?_ fun k hk => by cases hk
      rw [call, ConnectionAudit.isDuplicate.eq_def, hcheck]
    | some ⟨some destination, messageId⟩ =>
      have hkey := hplain _ rfl
      have hfound := found_eq hs hkey
      have hcall : s.isDuplicate dispatcher (some ⟨some destination, messageId⟩) =
          ((((found dispatcher destination s).getD { auditDepth := s.auditDepth }).isDuplicate messageId).1,
            stored dispatcher destination
              (((found dispatcher destination s).getD { auditDepth := s.auditDepth }).isDuplicate messageId).2 s) := by
        rw [ConnectionAudit.isDuplicate.eq_def, hcheck]
        simp only [found, stored]
        split_ifs <;> rfl
      refine answered_stored hs hkey rfl (by rw [call, hcall]) ?_
      rw [call, hcall, hcheck, hfound]
      rfl

theorem answered_rollbackDuplicate (hs : PlainNames s) (dispatcher : δ) (message : Option Message)
    (hplain : PlainCall (.rollbackDuplicate dispatcher message)) :
    Answered (.rollbackDuplicate dispatcher message) s := by
  cases hcheck : s.checkForDuplicates with
  | false =>
    have hcall : s.rollbackDuplicate dispatcher message = (.ok (), s) := by
      rw [ConnectionAudit.rollbackDuplicate.eq_def, hcheck]
    refine answered_unchanged hs ?_ fun k _ => ?_
    · rw [call, hcall]
    · rw [call, hcall, hcheck]
      rfl
  | true =>
    match message with
    | none =>
      refine answered_unchanged hs ?_ fun k hk => by cases hk
      rw [call, ConnectionAudit.rollbackDuplicate.eq_def, hcheck]
    | some ⟨none, messageId⟩ =>
      refine answered_unchanged hs ?_ fun k hk => by cases hk
      rw [call, ConnectionAudit.rollbackDuplicate.eq_def, hcheck]
    | some ⟨some destination, messageId⟩ =>
      have hkey := hplain _ rfl
      have hfound := found_eq hs hkey
      have hcall : s.rollbackDuplicate dispatcher (some ⟨some destination, messageId⟩) =
          match found dispatcher destination s with
          | some audit => ((audit.rollback messageId).1, stored dispatcher destination (audit.rollback messageId).2 s)
          | none => (.ok (), s) := by
        rw [ConnectionAudit.rollbackDuplicate.eq_def, hcheck]
        simp only [found, stored]
        split_ifs <;> rfl
      cases haudit : found dispatcher destination s with
      | none =>
        rw [haudit] at hcall hfound
        refine answered_unchanged hs (by rw [call, hcall]) fun k hk => ?_
        cases hk
        rw [call, hcall, hcheck, ← hfound]
        rfl
      | some audit =>
        rw [haudit] at hcall hfound
        refine answered_stored hs hkey rfl (by rw [call, hcall]) ?_
        rw [call, hcall, hcheck, ← hfound]
        rfl

theorem answered_removeDispatcher (hs : PlainNames s) (dispatcher : δ) : Answered (.removeDispatcher dispatcher) s := by
  refine ⟨hs, rfl, rfl, fun k hk => ?_, fun k hk => ?_⟩
  · cases hk
    exact ⟨rfl, (auditOf_removeDispatcher dispatcher).trans (if_pos rfl)⟩
  · exact (auditOf_removeDispatcher dispatcher).trans (if_neg fun heq => hk (by rw [heq]; rfl))

theorem answered (hs : PlainNames s) (c : Call δ) (hplain : PlainCall c) : Answered c s := by
  cases c with
  | isDuplicate dispatcher message => exact answered_isDuplicate hs dispatcher message hplain
  | rollbackDuplicate dispatcher message => exact answered_rollbackDuplicate hs dispatcher message hplain
  | removeDispatcher dispatcher => exact answered_removeDispatcher hs dispatcher

/-! ### Isolation -/

/-- The answers to the calls for a key in a run of calls. -/
def answersFor (k : Key δ) : ConnectionAudit δ → List (Call δ) → List (Except BitSetException (Option Bool))
  | _, [] => []
  | s, c :: calls =>
    if c.key = some k then (call s c).1 :: answersFor k (call s c).2 calls
    else answersFor k (call s c).2 calls

/-- What is the same in two states that give the same answers for a key. -/
structure Agree (k : Key δ) (s t : ConnectionAudit δ) : Prop where
  plain : PlainNames s
  plain' : PlainNames t
  check : s.checkForDuplicates = t.checkForDuplicates
  depth : s.auditDepth = t.auditDepth
  audit : auditOf s k = auditOf t k

theorem Agree.own (h : Agree k s t) (hplain : PlainCall c) (hkey : c.key = some k) :
    (call s c).1 = (call t c).1 ∧ Agree k (call s c).2 (call t c).2 := by
  have hs := answered h.plain c hplain
  have ht := answered h.plain' c hplain
  obtain ⟨hanswer, haudit⟩ := hs.own k hkey
  obtain ⟨hanswer', haudit'⟩ := ht.own k hkey
  rw [h.check, h.depth, h.audit] at hanswer haudit
  refine ⟨hanswer.trans hanswer'.symm, hs.plain, ht.plain, ?_, ?_, haudit.trans haudit'.symm⟩
  · rw [hs.check, ht.check, h.check]
  · rw [hs.depth, ht.depth, h.depth]

theorem Agree.other (h : Agree k s t) (hplain : PlainCall c) (hkey : c.key ≠ some k) : Agree k (call s c).2 t := by
  have hs := answered h.plain c hplain
  refine ⟨hs.plain, h.plain', ?_, ?_, ?_⟩
  · rw [hs.check, h.check]
  · rw [hs.depth, h.depth]
  · rw [hs.others k hkey, h.audit]

theorem Agree.answersFor_eq (h : Agree k s t) (hplain : ∀ c ∈ calls, PlainCall c) :
    answersFor k s calls = answers call t (calls.filter fun c => c.key = some k) := by
  induction calls generalizing s t with
  | nil => rfl
  | cons c calls ih =>
    have hc := hplain c mem_cons_self
    have hrest : ∀ c' ∈ calls, PlainCall c' := fun c' hc' => hplain c' (mem_cons_of_mem _ hc')
    rw [answersFor]
    by_cases hkey : c.key = some k
    · obtain ⟨hanswer, hagree⟩ := h.own hc hkey
      rw [if_pos hkey, filter_cons_of_pos (by simpa using hkey), answers, hanswer, ih hagree hrest]
    · rw [if_neg hkey, filter_cons_of_neg (by simpa using hkey)]
      exact ih (h.other hc hkey) hrest

/-! ### Rollback -/

open ActiveMQMessageAudit

def markedIn (k : Key δ) (p : ProducerId) (n : Nat) (s : ConnectionAudit δ) : Bool :=
  match auditOf s k with
  | some audit => marked p n audit
  | none => false

/-- Whether the audit of a key has a bit set for a producer. -/
def Holding (k : Key δ) (p : ProducerId) (s : ConnectionAudit δ) : Prop := (auditOf s k).bind (bitsOf p) ≠ none

def Call.Marks (c : Call δ) (k : Key δ) (p : ProducerId) (n : Nat) : Prop :=
  ∃ dispatcher destination i, c = .isDuplicate dispatcher (some ⟨some destination, some ⟨some p, i⟩⟩) ∧
    keyFor dispatcher destination = k ∧ (n : Int) = scaledIndex i

def Call.Unmarks (c : Call δ) (k : Key δ) (p : ProducerId) (n : Nat) : Prop :=
  ∃ dispatcher destination i, c = .rollbackDuplicate dispatcher (some ⟨some destination, some ⟨some p, i⟩⟩) ∧
    keyFor dispatcher destination = k ∧ (n : Int) = scaledIndex i

structure Sound (auditDepth : Int) (s : ConnectionAudit δ) : Prop where
  plain : PlainNames s
  check : s.checkForDuplicates = true
  depth : s.auditDepth = auditDepth
  audits : ∀ k audit, auditOf s k = some audit → audit.Inv ∧ audit.auditDepth = auditDepth

variable {auditDepth : Int} {p : ProducerId} {n : Nat} {c : Call δ}
variable {k : Key δ}

theorem Sound.getD (h : Sound auditDepth s) (k : Key δ) : ((auditOf s k).getD { auditDepth := auditDepth }).Inv ∧
      ((auditOf s k).getD { auditDepth := auditDepth }).auditDepth = auditDepth ∧
      marked p n ((auditOf s k).getD { auditDepth := auditDepth }) = markedIn k p n s := by
  cases haudit : auditOf s k with
  | none =>
    rw [markedIn, haudit]
    exact ⟨inv_new auditDepth, rfl, rfl⟩
  | some audit =>
    rw [markedIn, haudit]
    exact ⟨(h.audits k audit haudit).1, (h.audits k audit haudit).2, rfl⟩

theorem Sound.own (h : Sound auditDepth s) (hplain : PlainCall c) (hkey : c.key = some k) :
    (∃ dispatcher destination messageId, c = .isDuplicate dispatcher (some ⟨some destination, messageId⟩) ∧
        keyFor dispatcher destination = k ∧
        (call s c).1 = (step ((auditOf s k).getD { auditDepth := auditDepth }) (.isDuplicate messageId)).1 ∧
        auditOf (call s c).2 k =
          some (step ((auditOf s k).getD { auditDepth := auditDepth }) (.isDuplicate messageId)).2) ∨
      (∃ dispatcher destination messageId audit,
        c = .rollbackDuplicate dispatcher (some ⟨some destination, messageId⟩) ∧
        keyFor dispatcher destination = k ∧ auditOf s k = some audit ∧
        auditOf (call s c).2 k = some (step audit (.rollback messageId)).2) ∨
      auditOf (call s c).2 k = none := by
  obtain ⟨hanswer, haudit⟩ := (answered h.plain c hplain).own k hkey
  rw [h.check, h.depth] at hanswer haudit
  match c with
  | .isDuplicate dispatcher none => cases hkey
  | .isDuplicate dispatcher (some ⟨none, _⟩) => cases hkey
  | .isDuplicate dispatcher (some ⟨some destination, messageId⟩) =>
    exact .inl ⟨dispatcher, destination, messageId, rfl, Option.some.inj hkey, hanswer, haudit⟩
  | .rollbackDuplicate dispatcher none => cases hkey
  | .rollbackDuplicate dispatcher (some ⟨none, _⟩) => cases hkey
  | .rollbackDuplicate dispatcher (some ⟨some destination, messageId⟩) =>
    cases hfound : auditOf s k with
    | none =>
      rw [hfound] at haudit
      exact .inr (.inr haudit)
    | some audit =>
      rw [hfound] at haudit
      exact .inr (.inl ⟨dispatcher, destination, messageId, audit, rfl, Option.some.inj hkey, rfl, haudit⟩)
  | .removeDispatcher dispatcher => exact .inr (.inr haudit)

theorem Sound.call (h : Sound auditDepth s) (hplain : PlainCall c) : Sound auditDepth (Audit.call s c).2 := by
  have hanswered := answered h.plain c hplain
  refine ⟨hanswered.plain, hanswered.check.trans h.check, hanswered.depth.trans h.depth, fun k audit haudit => ?_⟩
  by_cases hkey : c.key = some k
  · rcases h.own hplain hkey with ⟨_, _, messageId, -, -, -, hafter⟩ | ⟨_, _, messageId, old, -, -, hold, hafter⟩ | hafter
    · rw [hafter] at haudit
      cases haudit
      obtain ⟨hinv, hdepth, -⟩ := h.getD (p := ⟨[], 0, 0⟩) (n := 0) k
      exact ⟨(inv_step hinv _).1, (inv_step hinv _).2.1.trans hdepth⟩
    · rw [hafter] at haudit
      cases haudit
      obtain ⟨hinv, hdepth⟩ := h.audits k old hold
      exact ⟨(inv_step hinv _).1, (inv_step hinv _).2.1.trans hdepth⟩
    · rw [hafter] at haudit
      cases haudit
  · rw [hanswered.others k hkey] at haudit
    exact h.audits k audit haudit

theorem markedIn_of_some (h : auditOf s k = some audit) : markedIn k p n s = marked p n audit := by
  rw [markedIn, h]

theorem markedIn_of_none (h : auditOf s k = none) : markedIn k p n s = false := by
  rw [markedIn, h]

theorem Sound.unmarked_call (h : Sound auditDepth s) (hplain : PlainCall c) (hmarks : ¬c.Marks k p n)
    (hclear : markedIn k p n s = false) : markedIn k p n (Audit.call s c).2 = false := by
  by_cases hkey : c.key = some k
  · rcases h.own hplain hkey with ⟨dispatcher, destination, messageId, rfl, hfor, -, hafter⟩ |
      ⟨_, _, messageId, old, -, -, hold, hafter⟩ | hafter
    · obtain ⟨hinv, -, hmarked⟩ := h.getD (p := p) (n := n) k
      rw [markedIn_of_some hafter, Bool.eq_false_iff]
      intro htrue
      rcases marked_step hinv _ htrue with hbefore | ⟨i, heq, hn⟩
      · rw [hmarked, hclear] at hbefore
        cases hbefore
      · cases heq
        exact hmarks ⟨dispatcher, destination, i, rfl, hfor, hn⟩
    · rw [markedIn_of_some hafter, Bool.eq_false_iff]
      intro htrue
      rcases marked_step (h.audits k old hold).1 _ htrue with hbefore | ⟨i, heq, -⟩
      · rw [markedIn_of_some hold, hbefore] at hclear
        cases hclear
      · cases heq
    · exact markedIn_of_none hafter
  · rw [markedIn, (answered h.plain c hplain).others k hkey, ← markedIn]
    exact hclear

theorem Sound.marked_call (h : Sound auditDepth s) (hplain : PlainCall c) (hunmarks : ¬c.Unmarks k p n)
    (hholding : Holding k p s → Holding k p (Audit.call s c).2) (hset : markedIn k p n s = true) :
    markedIn k p n (Audit.call s c).2 = true := by
  have hheld : Holding k p s := by
    intro hnone
    cases haudit : auditOf s k with
    | none => rw [markedIn_of_none haudit] at hset; cases hset
    | some audit =>
      rw [haudit, Option.bind_some] at hnone
      rw [markedIn_of_some haudit, marked_of_none hnone] at hset
      cases hset
  have hafter' := hholding hheld
  by_cases hkey : c.key = some k
  · rcases h.own hplain hkey with ⟨dispatcher, destination, messageId, rfl, hfor, -, hafter⟩ |
      ⟨dispatcher, destination, messageId, old, rfl, hfor, hold, hafter⟩ | hafter
    · obtain ⟨hinv, -, hmarked⟩ := h.getD (p := p) (n := n) k
      rw [Holding, hafter, Option.bind_some] at hafter'
      rw [markedIn_of_some hafter]
      rcases marked_step_of_marked hinv (.isDuplicate messageId) (hmarked.trans hset) with htrue | hnone | ⟨_, heq, -⟩
      · exact htrue
      · exact absurd hnone hafter'
      · cases heq
    · rw [Holding, hafter, Option.bind_some] at hafter'
      rw [markedIn_of_some hafter]
      rw [markedIn_of_some hold] at hset
      rcases marked_step_of_marked (h.audits k old hold).1 (.rollback messageId) hset with htrue | hnone | ⟨i, heq, hn⟩
      · exact htrue
      · exact absurd hnone hafter'
      · cases heq
        exact absurd ⟨dispatcher, destination, i, rfl, hfor, hn⟩ hunmarks
    · rw [Holding, hafter] at hafter'
      exact absurd rfl hafter'
  · rw [markedIn, (answered h.plain c hplain).others k hkey, ← markedIn]
    exact hset

theorem sound_new (auditDepth : Int) : Sound auditDepth ({ auditDepth := auditDepth } : ConnectionAudit δ) where
  plain := fun e he => by cases he
  check := rfl
  depth := rfl
  audits := by
    intro k audit haudit
    cases k <;> cases haudit

theorem Sound.run (h : Sound auditDepth s) (hplain : ∀ c ∈ calls, PlainCall c) :
    Sound auditDepth (after Audit.call s calls) := by
  have hall : Always (moves Audit.call) (fun _ c => PlainCall c) s calls :=
    Always.of_forall (fun _ c hc => hplain c hc) s
  exact invariant_after (fun _ _ hs hc => hs.call hc) h hall

theorem Sound.unmarked_run (h : Sound auditDepth s) (hplain : ∀ c ∈ calls, PlainCall c)
    (hmarks : ∀ c ∈ calls, ¬c.Marks k p n) (hclear : markedIn k p n s = false) :
    markedIn k p n (after Audit.call s calls) = false := by
  induction calls generalizing s with
  | nil => exact hclear
  | cons c calls ih =>
    have hc := hplain c mem_cons_self
    exact ih (h.call hc) (fun c' hc' => hplain c' (mem_cons_of_mem _ hc'))
      (fun c' hc' => hmarks c' (mem_cons_of_mem _ hc')) (h.unmarked_call hc (hmarks c mem_cons_self) hclear)

/-- No call of a run takes the producer out of the audit of the key, or the audit away. -/
def StaysHeld (k : Key δ) (p : ProducerId) : ConnectionAudit δ → List (Call δ) → Prop :=
  Always (moves call) fun s c => Holding k p s → Holding k p (call s c).2

theorem Sound.marked_run (h : Sound auditDepth s) (hplain : ∀ c ∈ calls, PlainCall c)
    (hunmarks : ∀ c ∈ calls, ¬c.Unmarks k p n) (hheld : StaysHeld k p s calls) (hset : markedIn k p n s = true) :
    markedIn k p n (after Audit.call s calls) = true := by
  induction calls generalizing s with
  | nil => exact hset
  | cons c calls ih =>
    obtain ⟨hfirst, hrest⟩ := always_moves.mp hheld
    have hc := hplain c mem_cons_self
    exact ih (h.call hc) (fun c' hc' => hplain c' (mem_cons_of_mem _ hc'))
      (fun c' hc' => hunmarks c' (mem_cons_of_mem _ hc')) hrest
      (h.marked_call hc (hunmarks c mem_cons_self) hfirst hset)

def messageOf (destination : ActiveMQDestination) (p : ProducerId) (i : Int) : Option Message :=
  some ⟨some destination, some ⟨some p, i⟩⟩

theorem Sound.isDuplicate (h : Sound auditDepth s) (hdepth : 0 ≤ auditDepth)
    (hplain : PlainKey (keyFor dispatcher destination)) (hi : 0 ≤ i) (hscaled : 0 ≤ scaledIndex i) :
    (Audit.call s (.isDuplicate dispatcher (messageOf destination p i))).1 =
        .ok (some (markedIn (keyFor dispatcher destination) p (scaledIndex i).toNat s)) ∧
      markedIn (keyFor dispatcher destination) p (scaledIndex i).toNat
        (Audit.call s (.isDuplicate dispatcher (messageOf destination p i))).2 = true := by
  have hcall : PlainCall (.isDuplicate dispatcher (messageOf destination p i)) := fun k hk => Option.some.inj hk ▸ hplain
  rcases h.own (k := keyFor dispatcher destination) hcall rfl with ⟨_, _, messageId, heq, -, hanswer, hafter⟩ |
    ⟨_, _, _, _, heq, -⟩ | hafter
  · cases heq
    obtain ⟨hinv, hdepth', hmarked⟩ := h.getD (p := p) (n := (scaledIndex i).toNat) (keyFor dispatcher destination)
    obtain ⟨hresult, hset⟩ := isDuplicate_marked (p := p) hinv (by rwa [hdepth']) hi hscaled
    refine ⟨?_, ?_⟩
    · rw [hanswer, step, hresult, hmarked]
      rfl
    · rw [markedIn_of_some hafter]
      exact hset
  · cases heq
  · have haudit := ((answered h.plain _ hcall).own _ rfl).2
    rw [hafter, h.check] at haudit
    cases haudit

theorem Sound.rollbackDuplicate (h : Sound auditDepth s)
    (hplain : PlainKey (keyFor dispatcher destination)) (hi : 0 ≤ i) (hscaled : 0 ≤ scaledIndex i) :
    markedIn (keyFor dispatcher destination) p (scaledIndex i).toNat
      (Audit.call s (.rollbackDuplicate dispatcher (messageOf destination p i))).2 = false := by
  have hcall : PlainCall (.rollbackDuplicate dispatcher (messageOf destination p i)) :=
    fun k hk => Option.some.inj hk ▸ hplain
  rcases h.own (k := keyFor dispatcher destination) hcall rfl with ⟨_, _, _, heq, -⟩ |
    ⟨_, _, messageId, old, heq, -, hold, hafter⟩ | hafter
  · cases heq
  · cases heq
    rw [markedIn_of_some hafter]
    exact rollback_marked (h.audits _ old hold).1 hi hscaled
  · exact markedIn_of_none hafter

/-- The answers for a queue name, or for a dispatcher, are those of the calls for it alone. With checking on, a
message that is rolled back is new to the next query for it, and a duplicate to the one after that, as long as
no other call is for its position and its producer stays in the audit. -/
theorem audit_isolated (auditDepth : Int) :
    (∀ (checkForDuplicates : Bool) (k : Key δ) (calls : List (Call δ)), (∀ c ∈ calls, PlainCall c) →
      answersFor k { checkForDuplicates := checkForDuplicates, auditDepth := auditDepth } calls =
        answers call { checkForDuplicates := checkForDuplicates, auditDepth := auditDepth }
          (calls.filter fun c => c.key = some k)) ∧
    ∀ (earlier between later : List (Call δ)) (dispatcher : δ) (destination : ActiveMQDestination) (p : ProducerId)
      (i : Int), 0 ≤ auditDepth → 0 ≤ i → 0 ≤ scaledIndex i → PlainKey (keyFor dispatcher destination) →
      (∀ c ∈ earlier, PlainCall c) → (∀ c ∈ between, PlainCall c) → (∀ c ∈ later, PlainCall c) →
      (∀ c ∈ between, ¬c.Marks (keyFor dispatcher destination) p (scaledIndex i).toNat) →
      (∀ c ∈ later, ¬c.Unmarks (keyFor dispatcher destination) p (scaledIndex i).toNat) →
      ∀ s, s = after call (call (after call { auditDepth := auditDepth } earlier)
          (.rollbackDuplicate dispatcher (messageOf destination p i))).2 between →
        (call s (.isDuplicate dispatcher (messageOf destination p i))).1 = .ok (some false) ∧
          (StaysHeld (keyFor dispatcher destination) p
              (call s (.isDuplicate dispatcher (messageOf destination p i))).2 later →
            (call (after call (call s (.isDuplicate dispatcher (messageOf destination p i))).2 later)
              (.isDuplicate dispatcher (messageOf destination p i))).1 = .ok (some true)) := by
  constructor
  · intro checkForDuplicates k calls hplain
    have hnames : PlainNames
        ({ checkForDuplicates := checkForDuplicates, auditDepth := auditDepth } : ConnectionAudit δ) :=
      fun e he => by cases he
    exact Agree.answersFor_eq ⟨hnames, hnames, rfl, rfl, rfl⟩ hplain
  · intro earlier between later dispatcher destination p i hdepth hi hscaled hkey hearlier hbetween hlater hmarks
      hunmarks s hs
    have hrollback : PlainCall (.rollbackDuplicate dispatcher (messageOf destination p i)) :=
      fun k hk => Option.some.inj hk ▸ hkey
    have hquery : PlainCall (.isDuplicate dispatcher (messageOf destination p i)) :=
      fun k hk => Option.some.inj hk ▸ hkey
    have hstart := (sound_new (δ := δ) auditDepth).run hearlier
    have hclear := hstart.rollbackDuplicate (p := p) hkey hi hscaled
    have hsound := (hstart.call hrollback).run hbetween
    have hunmarked := (hstart.call hrollback).unmarked_run hbetween hmarks hclear
    rw [← hs] at hsound hunmarked
    obtain ⟨hfirst, hset⟩ := hsound.isDuplicate (p := p) hdepth hkey hi hscaled
    refine ⟨by rw [hfirst, hunmarked], fun hheld => ?_⟩
    have hnext := hsound.call hquery
    rw [((hnext.run hlater).isDuplicate (p := p) hdepth hkey hi hscaled).1,
      hnext.marked_run hlater hunmarks hheld hset]

theorem isDuplicate_shared {destination' : ActiveMQDestination} (hqueue : destination.isQueue = true)
    (hqueue' : destination'.isQueue = true) (hequivalent : equivalent destination' destination = true)
    (hdepth : 0 ≤ auditDepth) (hi : 0 ≤ i) (hscaled : 0 ≤ scaledIndex i) (dispatcher dispatcher' : δ) :
    (call (call { auditDepth := auditDepth } (.isDuplicate dispatcher (messageOf destination p i))).2
      (.isDuplicate dispatcher' (messageOf destination' p i))).1 = .ok (some true) := by
  have hframe := frame_isDuplicate (inv_new auditDepth) p i
  have hset := (isDuplicate_marked (p := p) (inv_new auditDepth) hdepth hi hscaled).2
  have hfirst : (call { auditDepth := auditDepth } (.isDuplicate dispatcher (messageOf destination p i))).2 =
      { auditDepth := auditDepth
        destinations :=
          [(destination, (ActiveMQMessageAudit.isDuplicate (some ⟨some p, i⟩) { auditDepth := auditDepth }).2)] } := by
    simp [call, messageOf, ConnectionAudit.isDuplicate, hqueue, ConnectionAudit.findDestination,
      ConnectionAudit.storeDestination]
  rw [hfirst]
  simp only [call, messageOf, ConnectionAudit.isDuplicate, hqueue', if_true, ConnectionAudit.findDestination,
    List.find?_cons, hequivalent, Option.map_some, Option.getD_some]
  rw [(isDuplicate_marked hframe.inv (by rwa [hframe.depth]) hi hscaled).1, hset]
  rfl

end Runs

/-- A temporary queue is taken for the queue of its name, and so is a queue whose name differs by a blank. -/
theorem temporary_queue_shares_audit :
    (call (call { } (.isDuplicate 0 (messageOf ⟨.queue, [88]⟩ ⟨[], 1, 1⟩ 1))).2
        (.isDuplicate 0 (messageOf ⟨.temporaryQueue, [88]⟩ ⟨[], 1, 1⟩ 1))).1 = .ok (some true) ∧
      (call ({ } : ConnectionAudit Nat) (.isDuplicate 0 (messageOf ⟨.temporaryQueue, [88]⟩ ⟨[], 1, 1⟩ 1))).1 =
        .ok (some false) ∧
      (call (call { } (.isDuplicate 0 (messageOf ⟨.queue, [65, 32, 66]⟩ ⟨[], 1, 1⟩ 1))).2
        (.isDuplicate 0 (messageOf ⟨.queue, [65, 66]⟩ ⟨[], 1, 1⟩ 1))).1 = .ok (some true) ∧
      (call ({ } : ConnectionAudit Nat) (.isDuplicate 0 (messageOf ⟨.queue, [65, 66]⟩ ⟨[], 1, 1⟩ 1))).1 =
        .ok (some false) := by
  have hnew : ∀ (destinationType : DestinationType) (physicalName : ByteString), StringUtils.Plain physicalName →
      (call ({ } : ConnectionAudit Nat) (.isDuplicate 0 (messageOf ⟨destinationType, physicalName⟩ ⟨[], 1, 1⟩ 1))).1 =
        .ok (some false) := by
    intro destinationType physicalName hplain
    have hkey : PlainKey (keyFor 0 ⟨destinationType, physicalName⟩) := by
      rw [keyFor]
      split_ifs
      · exact hplain
      · trivial
    rw [((sound_new 2048).isDuplicate (by decide) hkey (by decide) (by decide)).1, markedIn_of_none]
    cases keyFor 0 (⟨destinationType, physicalName⟩ : ActiveMQDestination) <;> rfl
  refine ⟨isDuplicate_shared rfl rfl ?_ (by decide) (by decide) (by decide) 0 0, hnew _ _ ?_,
    isDuplicate_shared rfl rfl ?_ (by decide) (by decide) (by decide) 0 0, hnew _ _ ?_⟩
  · rw [equivalent_iff (by unfold StringUtils.Plain; decide) (by unfold StringUtils.Plain; decide)]
    rfl
  · unfold StringUtils.Plain
    decide
  · decide +kernel
  · unfold StringUtils.Plain
    decide

/-- A queue and a topic side by side: the rollback for the queue is not disturbed by the topic. -/
theorem audit_isolated_queue_topic :
    (call (call (call ({ } : ConnectionAudit Nat) (.rollbackDuplicate 0 (messageOf ⟨.queue, [88]⟩ ⟨[], 1, 1⟩ 1))).2
        (.isDuplicate 0 (messageOf ⟨.topic, [88]⟩ ⟨[], 1, 1⟩ 1))).2
          (.isDuplicate 0 (messageOf ⟨.queue, [88]⟩ ⟨[], 1, 1⟩ 1))).1 = .ok (some false) ∧
      (call (call (call (call ({ } : ConnectionAudit Nat)
          (.rollbackDuplicate 0 (messageOf ⟨.queue, [88]⟩ ⟨[], 1, 1⟩ 1))).2
          (.isDuplicate 0 (messageOf ⟨.topic, [88]⟩ ⟨[], 1, 1⟩ 1))).2
          (.isDuplicate 0 (messageOf ⟨.queue, [88]⟩ ⟨[], 1, 1⟩ 1))).2
          (.isDuplicate 0 (messageOf ⟨.queue, [88]⟩ ⟨[], 1, 1⟩ 1))).1 = .ok (some true) := by
  have hplain : StringUtils.Plain [88] := by
    unfold StringUtils.Plain
    decide
  have hbetween : ∀ c ∈ [Call.isDuplicate 0 (messageOf ⟨.topic, [88]⟩ ⟨[], 1, 1⟩ 1)], PlainCall c := by
    intro c hc k hk
    rw [mem_singleton.mp hc] at hk
    cases hk
    trivial
  have hmarks : ∀ c ∈ [Call.isDuplicate 0 (messageOf ⟨.topic, [88]⟩ ⟨[], 1, 1⟩ 1)],
      ¬c.Marks (keyFor 0 ⟨.queue, [88]⟩) ⟨[], 1, 1⟩ (scaledIndex 1).toNat := by
    rintro c hc ⟨dispatcher, destination, i, heq, hkey, -⟩
    rw [mem_singleton.mp hc] at heq
    cases heq
    cases hkey
  obtain ⟨hfirst, hsecond⟩ := (audit_isolated (δ := Nat) 2048).2 [] _ [] 0 ⟨.queue, [88]⟩ ⟨[], 1, 1⟩ 1
    (by decide) (by decide) (by decide) hplain (fun c hc => by cases hc) hbetween (fun c hc => by cases hc) hmarks
    (fun c hc => by cases hc) _ rfl
  exact ⟨hfirst, hsecond trivial⟩

end ActiveMQCpp.Core.Audit
