import Mathlib.Data.List.Perm.Basic
import Mathlib.Data.List.Nodup
import ActiveMQCpp.LibRuns

/-! The interruption of a transport. Every consumer has to clear the messages it has in progress, in a task of
its own, before messages are dispatched again; a counter keeps track of how many have still to do so. -/

namespace ActiveMQCpp.Core

open Runs List

variable {κ : Type} [DecidableEq κ]

/-- `counter` is `transportInterruptionProcessingComplete` and `required` the flag of each consumer. The threads
are where `registering` and `visiting` (the loop of `transportInterrupted`), `tasks` (scheduled and not run),
`telling` and `resetting` (inside `signalInterruptionProcessingComplete`) say. The last fields watch what
happens: the consumers that have not cleared yet, how often the failover transport has been told since the
interruption, and how many messages were dispatched too early. -/
structure Interruption (κ : Type) where
  counter : Int := 0
  required : κ → Nat := fun _ => 0
  registering : List κ := []
  visiting : Option κ := none
  tasks : List κ := []
  telling : Nat := 0
  resetting : Nat := 0
  down : Bool := false
  interrupted : Bool := false
  waiting : List κ := []
  told : Nat := 0
  early : Nat := 0

namespace Interruption

variable {s s' : Interruption κ}
variable {consumer : κ}

inductive Event (κ : Type) where
  /-- `transportInterrupted` with these consumers registered. -/
  | interrupt (consumers : List κ)
  /-- The loop over the consumers: `inProgressClearRequired`, then `incrementAndGet` and the task. -/
  | require
  | count
  /-- A task runs `clearMessagesInProgress` of its consumer. -/
  | clear (consumer : κ)
  /-- The two statements of `signalInterruptionProcessingComplete`. -/
  | tell
  | reset
  /-- A `MessageDispatch` for this consumer arrives. -/
  | dispatch (consumer : κ)
  | resume
  /-- The connection is closed or its transport fails for good. -/
  | fail

/-- `ActiveMQConsumerKernel::clearMessagesInProgress` with `setTransportInterruptionProcessingComplete`. -/
def clearMessagesInProgress (s : Interruption κ) (consumer : κ) : Interruption κ :=
  if s.required consumer > 0 then
    { s with
      required := fun c => if c = consumer then s.required c - 1 else s.required c
      counter := s.counter - 1
      telling := if s.counter - 1 = 0 then s.telling + 1 else s.telling
      waiting := s.waiting.erase consumer }
  else s

/-- `waitForTransportInterruptionProcessingToComplete` does not wait: it declares the processing complete. -/
def waitForCompletion (s : Interruption κ) : Interruption κ :=
  if s.down = false ∧ s.counter > 0 then { s with counter := 0, told := s.told + 1 } else s

/-- A dispatch is handed over, and its consumer then clears its messages if it has not done so yet. -/
def onDispatch (s : Interruption κ) (consumer : κ) : Interruption κ :=
  let s := s.waitForCompletion
  { s with early := if s.waiting = [] then s.early else s.early + 1 }.clearMessagesInProgress consumer

def step (s : Interruption κ) : Event κ → Option (Interruption κ)
  | .interrupt consumers =>
    if s.registering = [] ∧ s.visiting = none ∧ consumers.Nodup then
      some { s with counter := 0, registering := consumers, interrupted := true, waiting := consumers, told := 0 }
    else none
  | .require =>
    match s.registering, s.visiting with
    | consumer :: rest, none =>
      some { s with
        registering := rest
        visiting := some consumer
        required := fun c => if c = consumer then s.required c + 1 else s.required c }
    | _, _ => none
  | .count =>
    match s.visiting with
    | some consumer =>
      some { s with counter := s.counter + 1, visiting := none, tasks := consumer :: s.tasks }
    | none => none
  | .clear consumer =>
    if consumer ∈ s.tasks then
      some ({ s with tasks := s.tasks.erase consumer }.clearMessagesInProgress consumer)
    else none
  | .tell =>
    if s.telling > 0 then
      some { s with telling := s.telling - 1, resetting := s.resetting + 1, told := s.told + 1 }
    else none
  | .reset => if s.resetting > 0 then some { s with resetting := s.resetting - 1, counter := 0 } else none
  | .dispatch consumer => some (s.onDispatch consumer)
  | .resume => some s
  | .fail => some { s with down := true }

/-- Nothing is dispatched while a consumer has messages in progress, the counter is not negative, and the
failover transport is told once for each interruption, after all consumers have cleared their messages. -/
structure Barrier (s : Interruption κ) : Prop where
  not_early : s.early = 0
  counter_nonneg : 0 ≤ s.counter
  told_after : s.waiting ≠ [] → s.told = 0
  told_le : s.told ≤ 1
  told_once : s.interrupted = true → s.waiting = [] → s.telling = 0 → s.told = 1

/-- The loop of `transportInterrupted` has come to its end. -/
def Registered (s : Interruption κ) : Prop := s.registering = [] ∧ s.visiting = none

/-- An interruption finds a consumer, and the processing of the one before it complete; a dispatch does not
come before the processing is complete; and no task brings the counter down to zero while consumers are
still being registered. -/
def Orderly (s : Interruption κ) : Event κ → Prop
  | .interrupt consumers =>
    consumers ≠ [] ∧ s.counter = 0 ∧ s.Registered ∧ s.telling = 0 ∧ s.resetting = 0
  | .clear _ => s.counter = 1 → s.Registered
  | .dispatch _ => s.counter = 0 ∧ s.Registered
  | _ => True

instance (s : Interruption κ) : Decidable s.Registered :=
  inferInstanceAs (Decidable (_ ∧ _))

instance : (s : Interruption κ) → (e : Event κ) → Decidable (s.Orderly e)
  | s, .interrupt consumers => inferInstanceAs (Decidable (consumers ≠ [] ∧ s.counter = 0 ∧ s.Registered ∧ _ ∧ _))
  | s, .clear _ => inferInstanceAs (Decidable (s.counter = 1 → s.Registered))
  | s, .dispatch _ => inferInstanceAs (Decidable (s.counter = 0 ∧ s.Registered))
  | _, .require | _, .count | _, .tell | _, .reset | _, .resume | _, .fail => isTrue trivial

/-! ### Steps -/

/-- The consumers that have not cleared are those with a task and those that are still to be registered, and
the counter is the number of tasks. -/
structure Inv (s : Interruption κ) : Prop where
  counter_eq : s.counter = s.tasks.length
  waiting_perm : s.waiting.Perm (s.tasks ++ s.visiting.toList ++ s.registering)
  distinct : s.waiting.Nodup
  required_eq : ∀ c, s.required c = s.tasks.count c + s.visiting.toList.count c
  not_early : s.early = 0
  quiet : s.waiting ≠ [] → s.told = 0 ∧ s.telling = 0 ∧ s.resetting = 0 ∧ s.interrupted = true
  once : s.waiting = [] → s.told + s.telling = if s.interrupted then 1 else 0

theorem inv_new : Inv ({} : Interruption κ) where
  counter_eq := rfl
  waiting_perm := List.Perm.nil
  distinct := nodup_nil
  required_eq := fun _ => rfl
  not_early := rfl
  quiet := fun h => absurd rfl h
  once := fun _ => rfl

theorem Inv.barrier (h : s.Inv) : s.Barrier := by
  refine ⟨h.not_early, by rw [h.counter_eq]; exact Int.natCast_nonneg _, fun hne => (h.quiet hne).1, ?_, ?_⟩
  · by_cases hwaiting : s.waiting = []
    · have honce := h.once hwaiting
      split_ifs at honce <;> omega
    · have := (h.quiet hwaiting).1
      omega
  · intro hinterrupted hwaiting htelling
    have honce := h.once hwaiting
    rw [hinterrupted, if_pos rfl] at honce
    omega

theorem Inv.waiting_nil (h : s.Inv) (hcounter : s.counter = 0) (hregistered : s.Registered) :
    s.waiting = [] ∧ s.tasks = [] := by
  have htasks : s.tasks = [] := by
    have := h.counter_eq
    exact length_eq_zero_iff.mp (by omega)
  have hperm := h.waiting_perm
  rw [htasks, hregistered.1, hregistered.2] at hperm
  exact ⟨hperm.eq_nil, htasks⟩

theorem Inv.tasks_nil (h : s.Inv) (hwaiting : s.waiting = []) : s.tasks = [] := by
  have hperm := h.waiting_perm
  rw [hwaiting] at hperm
  exact (append_eq_nil_iff.mp (append_eq_nil_iff.mp hperm.symm.eq_nil).1).1

theorem Inv.interrupt {consumers : List κ} (h : s.Inv)
    (horderly : s.Orderly (.interrupt consumers)) (hs : s.step (.interrupt consumers) = some s') : s'.Inv := by
  obtain ⟨hne, hcounter, hregistered, htelling, hresetting⟩ := horderly
  obtain ⟨-, htasks⟩ := h.waiting_nil hcounter hregistered
  simp only [step] at hs
  split_ifs at hs with hguard
  cases hs
  constructor
  · simp [htasks]
  · simp [htasks, hregistered.2]
  · exact hguard.2.2
  · exact h.required_eq
  · exact h.not_early
  · exact fun _ => ⟨rfl, htelling, hresetting, rfl⟩
  · exact fun hnil => absurd hnil hne

theorem Inv.require (h : s.Inv) (hs : s.step .require = some s') : s'.Inv := by
  simp only [step] at hs
  split at hs <;> cases hs
  rename_i consumer rest hregistering hvisiting
  have hperm := h.waiting_perm
  have hrequired := h.required_eq
  rw [hvisiting, hregistering] at hperm
  rw [hvisiting] at hrequired
  refine ⟨h.counter_eq, ?_, h.distinct, fun c => ?_, h.not_early, h.quiet, h.once⟩
  · simpa using hperm
  · simp only [hrequired c, Option.toList_none, Option.toList_some, count_nil, count_singleton]
    split_ifs <;> simp_all

theorem Inv.count (h : s.Inv) (hs : s.step .count = some s') : s'.Inv := by
  simp only [step] at hs
  split at hs <;> cases hs
  rename_i consumer hvisiting
  have hperm := h.waiting_perm
  have hrequired := h.required_eq
  rw [hvisiting] at hperm hrequired
  refine ⟨?_, ?_, h.distinct, fun c => ?_, h.not_early, h.quiet, h.once⟩
  · simp [h.counter_eq]
  · refine hperm.trans ?_
    simp only [Option.toList_some, Option.toList_none, append_nil, append_assoc, singleton_append]
    exact perm_middle
  · simp only [hrequired c, Option.toList_none, Option.toList_some, count_nil, count_cons]
    omega

theorem Inv.clear (h : s.Inv) (horderly : s.Orderly (.clear consumer))
    (hs : s.step (.clear consumer) = some s') : s'.Inv := by
  simp only [step] at hs
  split_ifs at hs with hmem
  cases hs
  have hpos : 0 < s.required consumer := by
    have := count_pos_iff.mpr hmem
    rw [h.required_eq]
    omega
  have hlength := length_erase_of_mem hmem
  have hlengthPos := length_pos_of_mem hmem
  have hcounter := h.counter_eq
  have hperm : (s.waiting.erase consumer).Perm (s.tasks.erase consumer ++ s.visiting.toList ++ s.registering) := by
    have := h.waiting_perm.erase consumer
    rwa [append_assoc, erase_append_left _ hmem, ← append_assoc] at this
  have hwaiting : s.waiting ≠ [] := fun hnil => ne_nil_of_mem hmem (h.tasks_nil hnil)
  obtain ⟨htold, htelling, hresetting, hinterrupted⟩ := h.quiet hwaiting
  rw [clearMessagesInProgress, if_pos hpos]
  refine ⟨?_, hperm, h.distinct.erase _, fun c => ?_, h.not_early, fun hne => ?_, fun hnil => ?_⟩
  · simp only [hlength]
    omega
  · have := h.required_eq c
    by_cases hc : c = consumer
    · subst hc
      have hcount := count_pos_iff.mpr hmem
      simp only [if_true, count_erase_self]
      show s.required c - 1 = _
      omega
    · simp only [if_neg hc, count_erase_of_ne hc]
      exact this
  · -- somebody is waiting, so the counter has not come to zero
    refine ⟨htold, ?_, hresetting, hinterrupted⟩
    refine (if_neg fun (hzero : s.counter - 1 = 0) => hne ?_).trans htelling
    obtain ⟨hregistering, hvisiting⟩ := horderly (by omega)
    have htasks : s.tasks.erase consumer = [] := length_eq_zero_iff.mp (by omega)
    rw [htasks, hregistering, hvisiting] at hperm
    exact hperm.eq_nil
  · have htasks : s.tasks.erase consumer = [] := by
      have hnil : s.waiting.erase consumer = [] := hnil
      rw [hnil] at hperm
      exact (append_eq_nil_iff.mp (append_eq_nil_iff.mp hperm.symm.eq_nil).1).1
    have hzero : s.counter - 1 = 0 := by
      rw [htasks] at hlength
      simp only [length_nil] at hlength
      omega
    simp only [if_pos hzero, hinterrupted, if_true]
    omega

theorem Inv.tell (h : s.Inv) (hs : s.step .tell = some s') : s'.Inv := by
  simp only [step] at hs
  split_ifs at hs with hpos
  cases hs
  have hwaiting : s.waiting = [] := by
    by_contra hne
    have := (h.quiet hne).2.1
    omega
  refine ⟨h.counter_eq, h.waiting_perm, h.distinct, h.required_eq, h.not_early, absurd hwaiting, fun hnil => ?_⟩
  rw [← h.once hnil]
  show s.told + 1 + (s.telling - 1) = _
  omega

theorem Inv.reset (h : s.Inv) (hs : s.step .reset = some s') : s'.Inv := by
  simp only [step] at hs
  split_ifs at hs with hpos
  cases hs
  have hwaiting : s.waiting = [] := by
    by_contra hne
    have := (h.quiet hne).2.2.1
    omega
  exact ⟨by simp [h.tasks_nil hwaiting], h.waiting_perm, h.distinct, h.required_eq, h.not_early, absurd hwaiting, h.once⟩

theorem Inv.dispatch (h : s.Inv) (horderly : s.Orderly (.dispatch consumer))
    (hs : s.step (.dispatch consumer) = some s') : s' = s := by
  obtain ⟨hcounter, hregistered⟩ := horderly
  obtain ⟨hwaiting, htasks⟩ := h.waiting_nil hcounter hregistered
  have hrequired : s.required consumer = 0 := by
    rw [h.required_eq, htasks, hregistered.2]
    rfl
  have hwait : s.waitForCompletion = s := if_neg (by omega)
  simp only [step, onDispatch, hwait, if_pos hwaiting] at hs
  rw [clearMessagesInProgress, if_neg (show ¬s.required consumer > 0 by omega)] at hs
  exact (Option.some.inj hs).symm

theorem inv_step (s : Interruption κ) (e : Event κ) (s' : Interruption κ) (h : s.Inv) (horderly : s.Orderly e)
    (hs : s.step e = some s') : s'.Inv := by
  cases e with
  | interrupt consumers => exact h.interrupt horderly hs
  | require => exact h.require hs
  | count => exact h.count hs
  | clear consumer => exact h.clear horderly hs
  | tell => exact h.tell hs
  | reset => exact h.reset hs
  | dispatch consumer => exact h.dispatch horderly hs ▸ h
  | resume => exact Option.some.inj hs ▸ h
  | fail => exact Option.some.inj hs ▸ ⟨h.1, h.2, h.3, h.4, h.5, h.6, h.7⟩

/-! ### Runs -/

/-- In an orderly run nothing is dispatched before all consumers have cleared their messages, and the failover
transport is told once. -/
theorem barrier_of_orderly {events : List (Event κ)} {s : Interruption κ}
    (hall : Always step Orderly ({} : Interruption κ) events) (hrun : run step {} events = some s) : s.Barrier :=
  (invariant_run inv_step inv_new hall hrun).barrier

/-- Two consumers clear their messages, and a message arrives for the first of them. -/
def twoConsumers : List (Event ℕ) :=
  [.interrupt [1, 2], .require, .count, .require, .count, .clear 2, .clear 1, .tell, .reset, .resume, .dispatch 1]

theorem barrier_twoConsumers : ∃ s, run step {} twoConsumers = some s ∧ s.told = 1 ∧ s.Barrier :=
  ⟨_, rfl, rfl, barrier_of_orderly (show Always step Orderly {} twoConsumers by decide) rfl⟩

/-- A message that comes while the only consumer has not cleared yet is dispatched at once. The failover
transport is told before the consumer clears, and then the counter becomes negative. -/
theorem dispatch_before_clear : ∃ s, run step {} [.interrupt [1], .require, .count, .dispatch 1] = some s ∧
    s.early = 1 ∧ s.told = 1 ∧ s.counter = -1 ∧ ¬s.Barrier :=
  ⟨_, rfl, rfl, rfl, rfl, fun h => absurd h.not_early (by decide)⟩

end Interruption

end ActiveMQCpp.Core
