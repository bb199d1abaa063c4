import ActiveMQCpp.CoreRedelivery

/-! A rollback with optimized acknowledgement: how many of the messages read but not acknowledged yet its loop removes. -/

namespace ActiveMQCpp.Core

open Codec List

variable {μ : Type}
variable {s : Kernel μ}
variable {count : Nat}

/-! ### The loop -/

/-- The oldest delivered messages are removed, and rolled back in the audit from the oldest on. -/
def Kernel.withoutOldest (s : Kernel μ) (count : Nat) : Kernel μ :=
  { s with
    deliveredMessages := s.deliveredMessages.take (s.deliveredMessages.length - count)
    rolledBack := s.rolledBack ++
      (s.deliveredMessages.drop (s.deliveredMessages.length - count)).reverse.map MessageDispatch.message }

theorem Kernel.withoutOldest_zero (s : Kernel μ) : s.withoutOldest 0 = s := by
  rw [withoutOldest, Nat.sub_zero, take_length, drop_length, reverse_nil, map_nil, append_nil]

theorem Kernel.withoutOldest_succ {older : List (MessageDispatch μ)} {oldest : MessageDispatch μ}
    (h : s.deliveredMessages = older ++ [oldest]) (hcount : count ≤ older.length) :
    ({ s with deliveredMessages := older, rolledBack := s.rolledBack ++ [oldest.message] } : Kernel μ).withoutOldest count =
      s.withoutOldest (count + 1) := by
  have hlength : s.deliveredMessages.length - (count + 1) = older.length - count := by
    rw [h, length_append, length_singleton]
    omega
  have hle : older.length - count ≤ older.length := Nat.sub_le _ _
  rw [withoutOldest, withoutOldest, hlength, h, take_append_of_le_length hle, drop_append_of_le_length hle,
    reverse_append, map_append, ← append_assoc]
  rfl

/-- The number of rounds from round `i` on, with `n` messages left and the counter at `k`: the list gets shorter as the
index grows, so they meet half way. -/
def rounds (n i k : Nat) : Nat := min ((n - i + 1) / 2) (k - i)

theorem rollbackUnacknowledged_run {fuel i : Nat} (hfuel : s.deliveredMessages.length ≤ fuel) :
    rollbackUnacknowledged fuel i s =
      .ok () (s.withoutOldest (rounds s.deliveredMessages.length i s.ackCounter.toNat)) := by
  induction fuel generalizing i s with
  | zero =>
    have hnone : rounds s.deliveredMessages.length i s.ackCounter.toNat = 0 := by
      rw [rounds]
      omega
    rw [hnone, s.withoutOldest_zero]
    rfl
  | succ fuel ih =>
    rw [rollbackUnacknowledged, bind_ok (get_run s)]
    by_cases hround : i < s.deliveredMessages.length ∧ (i : Int) < s.ackCounter
    · rw [if_pos (by simpa using hround)]
      have hne : s.deliveredMessages ≠ [] := ne_nil_of_length_pos (by omega)
      obtain ⟨older, oldest, hlist⟩ := (eq_nil_or_concat s.deliveredMessages).resolve_left hne
      rw [concat_eq_append] at hlist
      have hlength : s.deliveredMessages.length = older.length + 1 := by
        rw [hlist, length_append, length_singleton]
      have hlast : s.deliveredMessages.getLast? = some oldest := by rw [hlist, List.getLast?_concat]
      have hdrop : s.deliveredMessages.dropLast = older := by rw [hlist, dropLast_concat]
      have hrounds : rounds s.deliveredMessages.length i s.ackCounter.toNat =
          rounds older.length (i + 1) s.ackCounter.toNat + 1 := by
        rw [rounds, rounds, hlength]
        omega
      have hcount : rounds older.length (i + 1) s.ackCounter.toNat ≤ older.length := by
        rw [rounds]
        omega
      rw [hlast, hrounds, ← Kernel.withoutOldest_succ hlist hcount]
      show rollbackUnacknowledged fuel (i + 1)
        { s with deliveredMessages := s.deliveredMessages.dropLast, rolledBack := s.rolledBack ++ [oldest.message] } = _
      rw [hdrop]
      exact ih (by show older.length ≤ fuel; omega)
    · rw [if_neg (by simpa using hround)]
      have hnone : rounds s.deliveredMessages.length i s.ackCounter.toNat = 0 := by
        rw [rounds]
        omega
      rw [hnone, s.withoutOldest_zero]
      rfl

/-! ### The rollback -/

/-- The part of `prepareRollback` between the interruption and the messages that are not redelivered. -/
def dropUnacknowledged (setup : Setup) : Act μ Unit := do
  let s ← get
  if s.optimizeAcknowledge && !setup.browser then rollbackUnacknowledged s.deliveredMessages.length 0

theorem dropUnacknowledged_run (setup : Setup) (h : s.optimizeAcknowledge = true) :
    dropUnacknowledged setup s = .ok () (s.withoutOldest
      (if setup.browser then 0 else rounds s.deliveredMessages.length 0 s.ackCounter.toNat)) := by
  rw [dropUnacknowledged, bind_ok (get_run s), h]
  cases setup.browser with
  | true =>
    rw [if_pos rfl, s.withoutOldest_zero]
    rfl
  | false =>
    rw [if_neg Bool.false_ne_true]
    exact rollbackUnacknowledged_run (le_refl _)

theorem Kernel.withoutOldest_inj {count' : Nat} (h : count ≤ s.deliveredMessages.length)
    (h' : count' ≤ s.deliveredMessages.length) : s.withoutOldest count = s.withoutOldest count' ↔ count = count' := by
  refine ⟨fun heq => ?_, fun heq => congrArg _ heq⟩
  have hlength := congrArg (fun s => s.deliveredMessages.length) heq
  simp only [withoutOldest, length_take] at hlength
  omega

/-- The delivered messages that the loop finds: none when an interruption has cleared them. -/
def Kernel.found (setup : Setup) (s : Kernel μ) : List (MessageDispatch μ) :=
  if s.isClearDeliveredList && !isTransacted setup s then [] else s.deliveredMessages

/-- Nothing is to be removed for a browser, and not more than the half of the messages otherwise. -/
def Kernel.FewUnacknowledged (setup : Setup) (s : Kernel μ) : Prop :=
  min (s.found setup).length s.ackCounter.toNat ≤
    if setup.browser then 0 else ((s.found setup).length + 1) / 2

instance (setup : Setup) (s : Kernel μ) : Decidable (s.FewUnacknowledged setup) := Nat.decLe _ _

section Rollback

variable [DecidableEq μ]

/-- From the state `s₁` after the interruption has been dealt with: the oldest messages that were read but not
acknowledged go, and what is redelivered are the remaining ones, less those that are not to come back to this consumer. -/
structure DropsExactly (setup : Setup) (s s₁ : Kernel μ) : Prop where
  removed : dropUnacknowledged setup s₁ =
    .ok () (s₁.withoutOldest (min s₁.deliveredMessages.length s₁.ackCounter.toNat))
  redelivered : ∃ p, rollbackPreviouslyDeliveredAndNotRedelivered
      (s₁.withoutOldest (min s₁.deliveredMessages.length s₁.ackCounter.toNat)) = .ok () p ∧
    rollback setup s = redeliver setup p ∧
    (s₁.previouslyDeliveredMessages = none →
      p = s₁.withoutOldest (min s₁.deliveredMessages.length s₁.ackCounter.toNat)) ∧
    (p.Redelivers setup → ∀ s', rollback setup s = .ok () s' → Redelivered setup p s')

def ExactRollback (setup : Setup) (s : Kernel μ) : Prop :=
  ∃ s₁, clearDeliveredList setup s = .ok () s₁ ∧ DropsExactly setup s s₁

theorem clearDeliveredList_found (setup : Setup) (s : Kernel μ) :
    ∃ s₁, clearDeliveredList setup s = .ok () s₁ ∧ s₁.deliveredMessages = s.found setup ∧
      s₁.ackCounter = s.ackCounter ∧ s₁.optimizeAcknowledge = s.optimizeAcknowledge := by
  refine ⟨_, modify_run _ s, ?_⟩
  rw [Kernel.found]
  cases hclear : s.isClearDeliveredList with
  | false => exact ⟨rfl, rfl, rfl⟩
  | true =>
    simp only [Bool.not_true, Bool.false_eq_true, if_false, Bool.true_and, Bool.not_eq_true']
    by_cases hempty : s.deliveredMessages.isEmpty = true
    · have hnil := isEmpty_iff.mp hempty
      rw [if_pos hempty]
      refine ⟨?_, rfl, rfl⟩
      rw [hnil, ite_self]
    · rw [if_neg hempty]
      cases isTransacted setup s with
      | true => exact ⟨rfl, rfl, rfl⟩
      | false => exact ⟨rfl, rfl, rfl⟩

theorem rollback_after_loop {setup : Setup} {s s₁ s₂ : Kernel μ} (hclear : clearDeliveredList setup s = .ok () s₁)
    (hdrop : dropUnacknowledged setup s₁ = .ok () s₂) :
    ∃ p, rollbackPreviouslyDeliveredAndNotRedelivered s₂ = .ok () p ∧ rollback setup s = redeliver setup p ∧
      (s₂.previouslyDeliveredMessages = none → p = s₂) ∧
      (p.Redelivers setup → ∀ s', rollback setup s = .ok () s' → Redelivered setup p s') := by
  obtain ⟨p, hprevious, -⟩ := rollbackPreviouslyDeliveredAndNotRedelivered_drops s₂
  have hprepare : prepareRollback setup s = .ok () p := by
    rw [prepareRollback, bind_ok hclear, bind_ok (get_run s₁)]
    rw [dropUnacknowledged, bind_ok (get_run s₁)] at hdrop
    split_ifs at hdrop ⊢
    · exact (bind_ok hdrop).trans hprevious
    · cases hdrop
      exact hprevious
  have hrollback : rollback setup s = redeliver setup p := by rw [rollback, bind_ok hprepare]
  refine ⟨p, hprevious, hrollback, fun hnone => ?_, fun hredelivers s' hrun => ?_⟩
  · rw [rollbackPreviouslyDeliveredAndNotRedelivered, bind_ok (get_run s₂), hnone] at hprevious
    cases hprevious
    rfl
  · rw [hrollback] at hrun
    exact (redeliver_redelivers hredelivers).2 s' hrun

/-- The loop removes all that it is to remove exactly when that is at most half of the messages, rounded up. -/
theorem exactRollback_iff (setup : Setup) (s : Kernel μ) (h : s.optimizeAcknowledge = true) :
    ExactRollback setup s ↔ s.FewUnacknowledged setup := by
  obtain ⟨s₁, hclear, hfound, hcounter, hoptimize⟩ := clearDeliveredList_found setup s
  have hrun := dropUnacknowledged_run setup (hoptimize.trans h)
  rw [Kernel.FewUnacknowledged, ← hfound, ← hcounter]
  have hcount : (if setup.browser then 0 else rounds s₁.deliveredMessages.length 0 s₁.ackCounter.toNat) =
      min s₁.deliveredMessages.length s₁.ackCounter.toNat ↔
      min s₁.deliveredMessages.length s₁.ackCounter.toNat ≤
        if setup.browser then 0 else (s₁.deliveredMessages.length + 1) / 2 := by
    rw [rounds]
    split_ifs <;> omega
  rw [← hcount]
  constructor
  · rintro ⟨s₁', hclear', hremoved, -⟩
    cases hclear.symm.trans hclear'
    rw [hrun] at hremoved
    refine (Kernel.withoutOldest_inj ?_ (Nat.min_le_left _ _)).mp (EStateM.Result.ok.inj hremoved).2
    rw [rounds]
    split_ifs <;> omega
  · intro heq
    rw [heq] at hrun
    obtain ⟨p, hprevious, hrollback, hnone, hredelivered⟩ := rollback_after_loop hclear hrun
    exact ⟨s₁, hclear, hrun, p, hprevious, hrollback, hnone, hredelivered⟩

end Rollback

/-! ### Two messages -/

def optimizedKernel (ackCounter : Int) : Kernel Nat :=
  { rolledBackKernel with optimizeAcknowledge := true, ackCounter := ackCounter }

def autoSetup : Setup := { ackMode := .auto, isQueue := true, prefetchSize := 100 }

theorem exactRollback_one : ExactRollback autoSetup (optimizedKernel 1) :=
  (exactRollback_iff autoSetup (optimizedKernel 1) rfl).mpr (by decide)

/-- Two messages were read and are not acknowledged; one of them stays and is redelivered. -/
theorem not_exactRollback_two : ¬ ExactRollback autoSetup (optimizedKernel 2) := by
  rintro ⟨s₁, hclear, hremoved, -⟩
  cases hclear
  have hlength := congrArg (fun result => (stateOf result).deliveredMessages.length) hremoved
  exact absurd hlength (by decide)

end ActiveMQCpp.Core
