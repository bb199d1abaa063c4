import ActiveMQCpp.LibRuns
import Mathlib.Data.List.Nodup

/-! `ResponseCorrelator`: callers, the reader of the transport and whoever disposes of the correlator meet in its
request map, one step at a time. -/

namespace ActiveMQCpp.Correlator

open Runs List Function

/-- What a `FutureResponse` is given. -/
inductive Response where
  | response (correlationId : BitVec 32)
  | exceptionResponse
  deriving DecidableEq

/-- How far a call of `request` or `asyncRequest` has come: `checkClosed` has returned, the command has its id, the
future is in the map, the command is sent, the future is about to be removed from the map, the call is over. -/
inductive Stage where
  | idle
  | called
  | numbered
  | registered
  | sent
  | leaving
  | ended
  deriving DecidableEq

/-- A call with its command and its `FutureResponse`; `responses` are those of all calls of `setResponse`. -/
structure Request where
  async : Bool := false
  commandId : BitVec 32 := 0
  stage : Stage := .idle
  responses : List Response := []

/-- `requests` are those that `dispose` has taken from the map and not told yet. -/
structure ResponseCorrelator (ι : Type) where
  nextCommandId : BitVec 32 := 1
  requestMap : List (BitVec 32 × ι) := []
  priorError : Bool := false
  closed : Bool := false
  requests : List ι := []
  calls : ι → Request := fun _ => {}

inductive Event (ι : Type) where
  | call (i : ι) (async : Bool)
  | number (i : ι)
  | register (i : ι)
  | send (i : ι) (returns : Bool)
  | awaited (i : ι)
  | remove (i : ι)
  | oneway
  | onCommand (correlationId : BitVec 32)
  | close
  | dispose
  | tell
  deriving DecidableEq

variable {ι : Type} [DecidableEq ι] {s s' : ResponseCorrelator ι} {e : Event ι} {i j : ι} {k : BitVec 32}

namespace ResponseCorrelator

def setCall (s : ResponseCorrelator ι) (i : ι) (call : Request) : ResponseCorrelator ι :=
  { s with calls := update s.calls i call }

@[simp] theorem calls_setCall (s : ResponseCorrelator ι) (i : ι) (call : Request) :
    (s.setCall i call).calls i = call := by
  simp [setCall]

def setResponse (s : ResponseCorrelator ι) (i : ι) (response : Response) : ResponseCorrelator ι :=
  s.setCall i { s.calls i with responses := response :: (s.calls i).responses }

/-- `requestMap.remove`, which throws for an id that is not there; `asyncRequest` calls it without the lock. -/
def without (s : ResponseCorrelator ι) (id : BitVec 32) : ResponseCorrelator ι :=
  { s with requestMap := s.requestMap.filter (·.1 ≠ id) }

omit [DecidableEq ι] in
theorem mem_without {id : BitVec 32} : (k, j) ∈ (s.without id).requestMap ↔ (k, j) ∈ s.requestMap ∧ k ≠ id := by
  simp [without]

/-- `synchronized(&mapMutex)` in `request` and `asyncRequest`, and what they do when there is a prior error. -/
def register (s : ResponseCorrelator ι) (i : ι) : ResponseCorrelator ι :=
  let call := s.calls i
  if s.priorError then
    s.setCall i { call with
      stage := .ended, responses := if call.async then .exceptionResponse :: call.responses else call.responses }
  else
    { s.without call.commandId with
      requestMap := (call.commandId, i) :: (s.without call.commandId).requestMap }.setCall i
        { call with stage := .registered }

/-- A call of `asyncRequest` that has sent its command is over, and its future goes on waiting. -/
def step (s : ResponseCorrelator ι) : Event ι → Option (ResponseCorrelator ι)
  | .call i async =>
    if (s.calls i).stage = .idle ∧ s.closed = false then some (s.setCall i { async, stage := .called }) else none
  | .number i =>
    if (s.calls i).stage = .called then
      some ({ s with nextCommandId := s.nextCommandId + 1 }.setCall i
        { s.calls i with commandId := s.nextCommandId, stage := .numbered })
    else none
  | .register i => if (s.calls i).stage = .numbered then some (s.register i) else none
  | .send i returns =>
    if (s.calls i).stage = .registered then
      some (s.setCall i { s.calls i with stage := if returns then .sent else .leaving })
    else none
  | .awaited i =>
    if (s.calls i).stage = .sent ∧ (s.calls i).async = false then
      some (s.setCall i { s.calls i with stage := .leaving })
    else none
  | .remove i =>
    if (s.calls i).stage = .leaving then
      some ((s.without (s.calls i).commandId).setCall i { s.calls i with stage := .ended })
    else none
  | .oneway => if s.closed = false then some { s with nextCommandId := s.nextCommandId + 1 } else none
  | .onCommand correlationId =>
    match s.requestMap.find? (·.1 = correlationId) with
    | none => some s
    | some (_, i) => some ((s.without correlationId).setResponse i (.response correlationId))
  | .close => some { s with closed := true }
  | .dispose =>
    if s.priorError then some s
    else some { s with priorError := true, requests := s.requestMap.map Prod.snd, requestMap := [] }
  | .tell =>
    match s.requests with
    | [] => none
    | i :: requests => some ({ s with requests }.setResponse i .exceptionResponse)

/-- The call waits for its response, or its future does. -/
def Waits (s : ResponseCorrelator ι) (i : ι) : Prop :=
  (s.calls i).stage = .registered ∨ (s.calls i).stage = .sent

/-- The future of the call has not been put in the map yet. -/
def Early (s : ResponseCorrelator ι) (i : ι) : Prop :=
  (s.calls i).stage = .idle ∨ (s.calls i).stage = .called ∨ (s.calls i).stage = .numbered

/-- The id of the call is in use: it will be put in the map, is there, or will be removed. -/
def Outstanding (s : ResponseCorrelator ι) (i : ι) : Prop :=
  (s.calls i).stage = .numbered ∨ (s.calls i).stage = .registered ∨ (s.calls i).stage = .leaving ∨
    (s.calls i).stage = .sent ∧ ((s.calls i).async = true → (s.calls i).responses = [])

/-- The counter comes to an id again after all others; no call that has it is outstanding then. -/
def Fresh (s : ResponseCorrelator ι) : Event ι → Prop
  | .number _ => ∀ j, s.Outstanding j → (s.calls j).commandId ≠ s.nextCommandId
  | _ => True

/-- A future is given one response at most, the one for its command or the error. While it waits it has its response,
is in the map under the id of its command, or is to be told of the error. A call that is over has left nothing in the
map. -/
structure Account (s : ResponseCorrelator ι) (i : ι) : Prop where
  once : (s.calls i).responses.length ≤ 1
  own : ∀ r ∈ (s.calls i).responses, r = .response (s.calls i).commandId ∨ r = .exceptionResponse
  awaited : s.Waits i →
    (s.calls i).responses ≠ [] ∨ ((s.calls i).commandId, i) ∈ s.requestMap ∨ i ∈ s.requests
  early : s.Early i → (s.calls i).responses = [] ∧ (∀ k, (k, i) ∉ s.requestMap) ∧ i ∉ s.requests
  entry : ∀ k, (k, i) ∈ s.requestMap →
    k = (s.calls i).commandId ∧ (s.calls i).responses = [] ∧ (s.calls i).stage ≠ .ended
  pending : i ∈ s.requests → (s.calls i).responses = []

/-- After the error nothing is in the map, and as soon as all are told everyone who waits has a response. -/
structure Correlated (s : ResponseCorrelator ι) : Prop where
  account : ∀ i, s.Account i
  disposed : s.priorError = true → s.requestMap = []
  answered : s.priorError = true → s.requests = [] → ∀ i, s.Waits i → (s.calls i).responses ≠ []

structure Inv (s : ResponseCorrelator ι) : Prop where
  account : ∀ i, s.Account i
  disposed : s.priorError = true → s.requestMap = []
  silent : s.priorError = false → s.requests = []
  nodup : (s.requestMap.map Prod.snd ++ s.requests).Nodup
  distinct : ∀ i j, s.Outstanding i → s.Outstanding j → (s.calls i).commandId = (s.calls j).commandId → i = j

section

omit [DecidableEq ι]

theorem Inv.correlated (h : s.Inv) : s.Correlated where
  account := h.account
  disposed := h.disposed
  answered hprior hrequests i hwaits := by
    have := (h.account i).awaited hwaits
    rw [h.disposed hprior, hrequests] at this
    simpa using this

theorem Account.outstanding (h : s.Account i) (hentry : (k, i) ∈ s.requestMap) : s.Outstanding i := by
  obtain ⟨-, hnil, hended⟩ := h.entry k hentry
  have hearly : ¬s.Early i := fun hearly => (h.early hearly).2.1 k hentry
  rw [Early] at hearly
  rw [Outstanding]
  cases hstage : (s.calls i).stage <;> simp_all

/-- An id in the map is that of one call. -/
theorem Inv.owner (h : s.Inv) (hi : s.Outstanding i) (hj : ((s.calls i).commandId, j) ∈ s.requestMap) : j = i :=
  h.distinct j i ((h.account j).outstanding hj) hi ((h.account j).entry _ hj).1.symm

theorem Inv.without_iff (h : s.Inv) (hi : s.Outstanding i) (j : ι) (hj : j ≠ i) (k : BitVec 32) :
    (k, j) ∈ (s.without (s.calls i).commandId).requestMap ↔ (k, j) ∈ s.requestMap := by
  rw [mem_without]
  exact and_iff_left_of_imp fun hk heq => hj (h.owner hi (heq ▸ hk))

theorem Inv.nodup_without (h : s.Inv) (id : BitVec 32) : ((s.without id).requestMap.map Prod.snd ++ s.requests).Nodup :=
  h.nodup.sublist ((filter_sublist.map _).append_right _)

/-- A step that is about one call. -/
theorem Inv.change (h : s.Inv) (i : ι) (hcalls : ∀ j ≠ i, s'.calls j = s.calls j)
    (hmap : ∀ j ≠ i, ∀ k, (k, j) ∈ s'.requestMap ↔ (k, j) ∈ s.requestMap)
    (hrequests : ∀ j ≠ i, j ∈ s'.requests ↔ j ∈ s.requests) (hi : s'.Account i)
    (hdistinct : s'.Outstanding i → ∀ j ≠ i, s.Outstanding j → (s.calls j).commandId ≠ (s'.calls i).commandId)
    (hdisposed : s'.priorError = true → s'.requestMap = []) (hsilent : s'.priorError = false → s'.requests = [])
    (hnodup : (s'.requestMap.map Prod.snd ++ s'.requests).Nodup) : s'.Inv := by
  have hout : ∀ j ≠ i, s'.Outstanding j ↔ s.Outstanding j := fun j hj => by
    rw [Outstanding, Outstanding, hcalls j hj]
  refine ⟨fun j => ?_, hdisposed, hsilent, hnodup, fun j k hj hk heq => ?_⟩
  · by_cases hji : j = i
    · exact hji ▸ hi
    · have hcall := hcalls j hji
      have haccount := h.account j
      constructor <;> simp only [Waits, Early, hcall, hmap j hji, hrequests j hji]
      exacts [haccount.once, haccount.own, haccount.awaited, haccount.early, haccount.entry, haccount.pending]
  · by_cases hji : j = i <;> by_cases hki : k = i
    · exact hji.trans hki.symm
    · subst hji
      rw [hcalls k hki] at heq
      exact absurd heq.symm (hdistinct hj k hki ((hout k hki).mp hk))
    · subst hki
      rw [hcalls j hji] at heq
      exact absurd heq (hdistinct hk j hji ((hout j hji).mp hj))
    · rw [hcalls j hji, hcalls k hki] at heq
      exact h.distinct j k ((hout j hji).mp hj) ((hout k hki).mp hk) heq

theorem Inv.counted (h : s.Inv) (n : BitVec 32) (closed : Bool) :
    ({ s with nextCommandId := n, closed } : ResponseCorrelator ι).Inv :=
  have haccount := h.account
  ⟨fun j => ⟨(haccount j).once, (haccount j).own, (haccount j).awaited, (haccount j).early, (haccount j).entry,
    (haccount j).pending⟩, h.disposed, h.silent, h.nodup, h.distinct⟩

theorem Inv.dispose (h : s.Inv) (hprior : s.priorError = false) :
    ({ s with priorError := true, requests := s.requestMap.map Prod.snd, requestMap := [] } :
      ResponseCorrelator ι).Inv := by
  have hsilent := h.silent hprior
  have hnodup := h.nodup
  rw [hsilent, append_nil] at hnodup
  refine ⟨fun i => ⟨(h.account i).once, (h.account i).own, fun hwaits => ?_, fun hearly => ?_,
    fun k hk => absurd hk not_mem_nil, fun hi => ?_⟩, fun _ => rfl, fun hno => Bool.noConfusion hno, hnodup, h.distinct⟩
  · obtain hsome | hmem | hi := (h.account i).awaited hwaits
    · exact .inl hsome
    · exact .inr (.inr (mem_map_of_mem hmem))
    · rw [hsilent] at hi
      cases hi
  · obtain ⟨hnil, hmap, -⟩ := (h.account i).early hearly
    refine ⟨hnil, fun _ => not_mem_nil, fun hi => ?_⟩
    obtain ⟨⟨k, i⟩, hmem, rfl⟩ := mem_map.mp hi
    exact hmap k hmem
  · obtain ⟨⟨k, i⟩, hmem, rfl⟩ := mem_map.mp hi
    exact ((h.account i).entry k hmem).2.1

end

/-- A step that only changes a call itself, on its way to the map or behind it. -/
theorem Inv.setCall (h : s.Inv) {call : Request} (hresponses : call.responses = (s.calls i).responses)
    (hway : s.Early i ∧ (s.setCall i call).Early i ∨
      s.Waits i ∧ call.commandId = (s.calls i).commandId ∧ (call.stage = .sent ∨ call.stage = .leaving))
    (hdistinct : (s.setCall i call).Outstanding i → ∀ j ≠ i, s.Outstanding j → (s.calls j).commandId ≠ call.commandId) :
    (s.setCall i call).Inv := by
  have haccount := h.account i
  refine h.change i (fun j hj => update_of_ne hj _ _) (fun _ _ _ => Iff.rfl) (fun _ _ => Iff.rfl) ?_ ?_ h.disposed
    h.silent h.nodup
  · obtain ⟨hearly, hstill⟩ | ⟨hwaits, hid, hstage⟩ := hway
    · obtain ⟨hnil, hmap, hrequests⟩ := haccount.early hearly
      constructor <;> simp only [Waits, calls_setCall, hresponses, hnil]
      · simp
      · simp
      · simp only [Early, calls_setCall] at hstill
        grind
      · exact fun _ => ⟨trivial, hmap, hrequests⟩
      · exact fun k hk => absurd hk (hmap k)
      · exact fun _ => trivial
    · constructor <;> simp only [Waits, Early, calls_setCall, hresponses, hid]
      · exact haccount.once
      · exact haccount.own
      · exact fun _ => haccount.awaited hwaits
      · grind
      · exact fun k hk => ⟨(haccount.entry k hk).1, (haccount.entry k hk).2.1, by grind⟩
      · exact haccount.pending
  · rw [calls_setCall]
    exact hdistinct

theorem Inv.remove (h : s.Inv) (hstage : (s.calls i).stage = .leaving) :
    ((s.without (s.calls i).commandId).setCall i { s.calls i with stage := .ended }).Inv := by
  have haccount := h.account i
  refine h.change i (fun j hj => update_of_ne hj _ _) (h.without_iff (.inr (.inr (.inl hstage)))) (fun _ _ => Iff.rfl) ?_
    (by simp [Outstanding]) (fun hprior => congrArg (List.filter _) (h.disposed hprior)) h.silent (h.nodup_without _)
  constructor <;> simp only [Waits, Early, calls_setCall]
  · exact haccount.once
  · exact haccount.own
  · grind
  · grind
  · intro k hk
    obtain ⟨hmem, hne⟩ := mem_without.mp hk
    exact absurd (haccount.entry k hmem).1 hne
  · exact haccount.pending

theorem Inv.register (h : s.Inv) (hstage : (s.calls i).stage = .numbered) : (s.register i).Inv := by
  obtain ⟨hnil, hmap, hrequests⟩ := (h.account i).early (.inr (.inr hstage))
  have hout : s.Outstanding i := .inl hstage
  rw [ResponseCorrelator.register]
  by_cases hprior : s.priorError = true
  · rw [if_pos hprior]
    refine h.change i (fun j hj => update_of_ne hj _ _) (fun _ _ _ => Iff.rfl) (fun _ _ => Iff.rfl) ?_
      (by simp [Outstanding]) h.disposed h.silent h.nodup
    constructor <;> simp only [Waits, Early, calls_setCall, hnil]
    · split_ifs <;> simp
    · split_ifs <;> simp
    · grind
    · grind
    · exact fun k hk => absurd hk (hmap k)
    · exact fun hi => absurd hi hrequests
  · rw [if_neg hprior]
    refine h.change i (fun j hj => update_of_ne hj _ _) ?_ (fun _ _ => Iff.rfl) ?_ ?_
      (fun hyes => absurd hyes hprior) h.silent ?_
    · intro j hj k
      rw [← h.without_iff hout j hj k]
      exact mem_cons.trans (or_iff_right fun heq => hj (Prod.mk.inj heq).2)
    · constructor <;> simp only [Waits, Early, calls_setCall, hnil]
      · simp
      · simp
      · exact fun _ => .inr (.inl mem_cons_self)
      · grind
      · intro k hk
        obtain heq | hmem := mem_cons.mp hk
        · exact ⟨(Prod.mk.inj heq).1, trivial, nofun⟩
        · exact absurd (mem_without.mp hmem).1 (hmap k)
      · exact fun _ => trivial
    · intro _ j hj hother heq
      rw [calls_setCall] at heq
      exact hj (h.distinct j i hother hout heq)
    · refine nodup_cons.mpr ⟨fun hi => ?_, h.nodup_without _⟩
      obtain hi | hi := mem_append.mp hi
      · obtain ⟨⟨k, j⟩, hmem, rfl⟩ := mem_map.mp hi
        exact hmap k (mem_without.mp hmem).1
      · exact hrequests hi

/-- A future that is taken from where it waits gets its response. -/
theorem Inv.respond (h : s.Inv) {r : Response} (hcalls : s'.calls = s.calls) (hnil : (s.calls i).responses = [])
    (hr : r = .response (s.calls i).commandId ∨ r = .exceptionResponse) (hearly : ¬s.Early i)
    (htaken : (∀ k, (k, i) ∉ s'.requestMap) ∧ i ∉ s'.requests)
    (hmap : ∀ j ≠ i, ∀ k, (k, j) ∈ s'.requestMap ↔ (k, j) ∈ s.requestMap)
    (hrequests : ∀ j ≠ i, j ∈ s'.requests ↔ j ∈ s.requests)
    (hdisposed : s'.priorError = true → s'.requestMap = []) (hsilent : s'.priorError = false → s'.requests = [])
    (hnodup : (s'.requestMap.map Prod.snd ++ s'.requests).Nodup) : (s'.setResponse i r).Inv := by
  rw [setResponse, hcalls, hnil]
  refine h.change i (fun j hj => (update_of_ne hj _ _).trans (congrFun hcalls j)) hmap hrequests ?_ ?_ hdisposed
    hsilent hnodup
  · constructor <;> simp only [Waits, calls_setCall]
    · simp
    · simpa using hr
    · simp
    · simpa only [Early, calls_setCall] using fun hstill => absurd hstill hearly
    · exact fun k hk => absurd hk (htaken.1 k)
    · exact fun hmem => absurd hmem htaken.2
  · intro hout j hj hother heq
    rw [calls_setCall] at heq
    refine hj (h.distinct j i hother ?_ heq)
    simp only [Outstanding, calls_setCall] at hout
    grind [Outstanding]

theorem Inv.onCommand (h : s.Inv) (hmem : (k, i) ∈ s.requestMap) : ((s.without k).setResponse i (.response k)).Inv := by
  obtain ⟨rfl, hnil, -⟩ := (h.account i).entry k hmem
  refine h.respond rfl hnil (.inl rfl) (fun hearly => ((h.account i).early hearly).2.1 _ hmem)
    ⟨fun k hk => ?_, fun hi => ?_⟩ (h.without_iff ((h.account i).outstanding hmem)) (fun _ _ => Iff.rfl)
    (fun hprior => congrArg (List.filter _) (h.disposed hprior)) h.silent (h.nodup_without _)
  · obtain ⟨hk, hne⟩ := mem_without.mp hk
    exact hne ((h.account i).entry k hk).1
  · exact (nodup_append.mp h.nodup).2.2 _ (mem_map_of_mem hmem) _ hi rfl

theorem Inv.tell {requests : List ι} (h : s.Inv) (hrequests : s.requests = i :: requests) :
    ({ s with requests }.setResponse i .exceptionResponse).Inv := by
  have hi : i ∈ s.requests := hrequests ▸ mem_cons_self
  have hprior : s.priorError = true := by
    by_contra hno
    rw [h.silent (Bool.eq_false_iff.mpr hno)] at hi
    cases hi
  have hempty := h.disposed hprior
  have hnodup := h.nodup
  rw [hrequests, hempty] at hnodup
  obtain ⟨hnot, hrest⟩ := nodup_cons.mp hnodup
  refine h.respond rfl ((h.account i).pending hi) (.inr rfl) (fun hearly => ((h.account i).early hearly).2.2 hi)
    ⟨?_, hnot⟩ (fun _ _ _ => Iff.rfl) ?_ h.disposed (fun hno => ?_) ?_
  · exact fun k hk => by rw [hempty] at hk; cases hk
  · exact fun j hj => by rw [hrequests]; exact (or_iff_right hj).symm.trans mem_cons.symm
  · rw [hprior] at hno
    cases hno
  · show (s.requestMap.map _ ++ requests).Nodup
    rw [hempty]
    exact hrest

/-- Every step keeps what is known, if the id that it gives out is free. -/
theorem Inv.step (h : s.Inv) (hfresh : s.Fresh e) (hstep : s.step e = some s') : s'.Inv := by
  cases e with
  | call i async =>
    obtain ⟨⟨hstage, -⟩, rfl⟩ := Option.ite_some_none_eq_some.mp hstep
    exact h.setCall ((h.account i).early (.inl hstage)).1.symm (.inl ⟨.inl hstage, by simp [Early]⟩)
      (by simp [Outstanding])
  | number i =>
    obtain ⟨hstage, rfl⟩ := Option.ite_some_none_eq_some.mp hstep
    exact (h.counted _ _).setCall rfl (.inl ⟨.inr (.inl hstage), by simp [Early]⟩) fun _ _ _ => hfresh _
  | register i =>
    obtain ⟨hstage, rfl⟩ := Option.ite_some_none_eq_some.mp hstep
    exact h.register hstage
  | send i returns =>
    obtain ⟨hstage, rfl⟩ := Option.ite_some_none_eq_some.mp hstep
    exact h.setCall rfl (.inr ⟨.inl hstage, rfl, by cases returns <;> simp⟩) fun _ j hj hother heq =>
      hj (h.distinct j i hother (.inr (.inl hstage)) heq)
  | awaited i =>
    obtain ⟨⟨hstage, hsync⟩, rfl⟩ := Option.ite_some_none_eq_some.mp hstep
    exact h.setCall rfl (.inr ⟨.inr hstage, rfl, .inr rfl⟩) fun _ j hj hother heq =>
      hj (h.distinct j i hother (.inr (.inr (.inr ⟨hstage, by simp [hsync]⟩))) heq)
  | remove i =>
    obtain ⟨hstage, rfl⟩ := Option.ite_some_none_eq_some.mp hstep
    exact h.remove hstage
  | oneway =>
    obtain ⟨-, rfl⟩ := Option.ite_some_none_eq_some.mp hstep
    exact h.counted _ _
  | onCommand correlationId =>
    rw [ResponseCorrelator.step] at hstep
    cases hfind : s.requestMap.find? (·.1 = correlationId) with
    | none =>
      rw [hfind] at hstep
      exact Option.some.inj hstep ▸ h
    | some p =>
      rw [hfind] at hstep
      obtain rfl : p.1 = correlationId := by simpa using find?_some hfind
      exact Option.some.inj hstep ▸ h.onCommand (mem_of_find?_eq_some hfind)
  | close => exact Option.some.inj hstep ▸ h.counted _ _
  | dispose =>
    by_cases hprior : s.priorError = true
    · exact Option.some.inj ((if_pos hprior).symm.trans hstep) ▸ h
    · exact Option.some.inj ((if_neg hprior).symm.trans hstep) ▸ h.dispose (Bool.eq_false_iff.mpr hprior)
  | tell =>
    rw [ResponseCorrelator.step] at hstep
    cases hrequests : s.requests with
    | nil =>
      rw [hrequests] at hstep
      cases hstep
    | cons i requests =>
      rw [hrequests] at hstep
      exact Option.some.inj hstep ▸ h.tell hrequests

/-- Responses go to the requests they are for, and none is lost, in every interleaving of the steps in which no id is
given out while a call with it is outstanding. -/
theorem run_correlated {events : List (Event ι)} (hfresh : Always step Fresh ({} : ResponseCorrelator ι) events)
    (hrun : run step {} events = some s) : s.Correlated := by
  refine Inv.correlated (invariant_run (fun _ _ _ h hfresh hstep => h.step hfresh hstep) ?_ hfresh hrun)
  refine ⟨fun i => ⟨?_, ?_, ?_, ?_, ?_, ?_⟩, fun _ => rfl, fun _ => rfl, nodup_nil, ?_⟩
  all_goals simp [Waits, Outstanding]

instance (s : ResponseCorrelator Bool) : (e : Event Bool) → Decidable (s.Fresh e)
  | .number _ => inferInstanceAs (Decidable (∀ _, (_ ∨ _ ∨ _ ∨ _ ∧ (_ → _)) → _))
  | .call .. | .register _ | .send .. | .awaited _ | .remove _ | .oneway | .onCommand _ | .close | .dispose | .tell =>
    isTrue trivial

/-- The first request is answered before it waits, and answered again; the transport fails before the second is sent. -/
theorem run_correlated_twoRequests : ∃ s : ResponseCorrelator Bool, s.Correlated ∧
    (s.calls false).responses = [.response 1] ∧ (s.calls true).responses = [.exceptionResponse] := by
  let events : List (Event Bool) := [.call false false, .number false, .register false, .call true true, .number true,
    .onCommand 1, .onCommand 1, .register true, .send false true, .dispose, .awaited false, .send true true, .tell]
  have hends : (run step {} events).map (fun s => ((s.calls false).responses, (s.calls true).responses)) =
      some ([.response 1], [.exceptionResponse]) := by decide
  obtain ⟨s, hrun, hresponses⟩ := Option.map_eq_some_iff.mp hends
  exact ⟨s, run_correlated (by decide) hrun, (Prod.mk.inj hresponses).1, (Prod.mk.inj hresponses).2⟩

end ResponseCorrelator
end ActiveMQCpp.Correlator
