import Mathlib.Data.List.Chain
import ActiveMQCpp.DecafTimer
import ActiveMQCpp.LibRuns

/-! When the tasks of a timer start, in every run of the threads that use it. -/

namespace ActiveMQCpp.Decaf

open MachineInt Runs List Timer TimerTask TimerTaskHeap

/-! ### The starts of one task -/

/-- The scheduled times that may come next, after these starts, the last one first. -/
def Registration.Next (r : Registration) (starts : List Start) (due : Int) : Prop :=
  if r.period < 0 then starts = [] ∧ due = r.first
  else if r.fixedRate then due = r.first + starts.length * r.period
  else r.first ≤ due ∧ ∀ last ∈ starts.head?, last.time + r.period ≤ due

/-- Every start came at a scheduled time that was next, or after it. -/
inductive Registration.Lawful (r : Registration) : List Start → Prop where
  | nil : r.Lawful []
  | cons {starts : List Start} (start : Start) : r.Lawful starts → r.Next starts start.scheduledTime →
      start.scheduledTime ≤ start.time → r.Lawful (start :: starts)

/-- What is promised of the starts of a task, the first one first. -/
structure Registration.Timely (r : Registration) (starts : List Start) : Prop where
  not_early : ∀ start ∈ starts,
    r.requested ≤ r.first ∧ r.first ≤ start.scheduledTime ∧ start.scheduledTime ≤ start.time
  one_shot : r.period < 0 → starts.length ≤ 1
  fixed_rate : 0 ≤ r.period → r.fixedRate = true → ∀ (k : Nat) (start : Start), starts[k]? = some start →
    start.scheduledTime = r.first + k * r.period
  fixed_delay : 0 ≤ r.period → r.fixedRate = false →
    starts.IsChain fun start next => start.time + r.period ≤ next.time

namespace Registration

variable {r : Registration} {starts : List Start} {due : Int}

theorem next_oneShot (hperiod : r.period < 0) : r.Next starts due ↔ starts = [] ∧ due = r.first := by
  rw [Next, if_pos hperiod]

theorem next_fixedRate (hperiod : 0 ≤ r.period) (hrate : r.fixedRate = true) :
    r.Next starts due ↔ due = r.first + starts.length * r.period := by
  rw [Next, if_neg (not_lt.mpr hperiod), if_pos hrate]

theorem next_fixedDelay (hperiod : 0 ≤ r.period) (hrate : r.fixedRate = false) :
    r.Next starts due ↔ r.first ≤ due ∧ ∀ last ∈ starts.head?, last.time + r.period ≤ due := by
  rw [Next, if_neg (not_lt.mpr hperiod), if_neg (Bool.eq_false_iff.mp hrate)]

theorem next_first (r : Registration) : r.Next [] r.first := by
  rw [Next]
  split_ifs
  · exact ⟨rfl, rfl⟩
  · rw [length_nil, Int.natCast_zero, Int.zero_mul, Int.add_zero]
  · refine ⟨le_refl _, fun last hlast => ?_⟩
    cases hlast

theorem Next.first_le (h : r.Next starts due) : r.first ≤ due := by
  by_cases hperiod : r.period < 0
  · exact ((next_oneShot hperiod).mp h).2.ge
  have hpos : 0 ≤ r.period := not_lt.mp hperiod
  cases hrate : r.fixedRate with
  | true =>
    rw [(next_fixedRate hpos hrate).mp h]
    exact le_add_of_nonneg_right (Int.mul_nonneg (Int.natCast_nonneg _) hpos)
  | false => exact ((next_fixedDelay hpos hrate).mp h).1

theorem Lawful.not_early (h : r.Lawful starts) :
    ∀ start ∈ starts, r.first ≤ start.scheduledTime ∧ start.scheduledTime ≤ start.time := by
  induction h with
  | nil => exact fun _ hstart => absurd hstart not_mem_nil
  | cons start _ hnext hdue ih =>
    intro other hother
    rcases mem_cons.mp hother with rfl | hother
    · exact ⟨hnext.first_le, hdue⟩
    · exact ih other hother

theorem Lawful.one_shot (h : r.Lawful starts) (hperiod : r.period < 0) : starts.length ≤ 1 := by
  cases h with
  | nil => exact Nat.zero_le 1
  | cons start _ hnext _ =>
    rw [((next_oneShot hperiod).mp hnext).1]
    exact le_refl 1

theorem Lawful.fixed_rate (h : r.Lawful starts) (hperiod : 0 ≤ r.period) (hrate : r.fixedRate = true) :
    ∀ (k : Nat) (start : Start), starts.reverse[k]? = some start → start.scheduledTime = r.first + k * r.period := by
  induction h with
  | nil =>
    intro k start hstart
    cases hstart
  | @cons starts start _ hnext _ ih =>
    intro k other hother
    rw [reverse_cons] at hother
    by_cases hk : k < starts.reverse.length
    · rw [List.getElem?_append_left hk] at hother
      exact ih k other hother
    · -- the last start
      have hend : k = starts.length := by
        have hlt := (List.getElem?_eq_some_iff.mp hother).1
        rw [length_append, length_singleton] at hlt
        rw [length_reverse] at hk hlt
        omega
      rw [List.getElem?_append_right (not_lt.mp hk), hend, length_reverse, Nat.sub_self] at hother
      cases hother
      rw [(next_fixedRate hperiod hrate).mp hnext, hend]

theorem Lawful.fixed_delay (h : r.Lawful starts) (hperiod : 0 ≤ r.period) (hrate : r.fixedRate = false) :
    starts.reverse.IsChain fun start next => start.time + r.period ≤ next.time := by
  induction h with
  | nil => exact List.IsChain.nil
  | @cons starts start _ hnext hdue ih =>
    rw [reverse_cons, isChain_append]
    refine ⟨ih, List.IsChain.singleton _, ?_⟩
    intro last hlast next hnext'
    rw [List.getLast?_reverse] at hlast
    rw [List.head?_cons, Option.mem_some_iff] at hnext'
    subst hnext'
    have hgap := ((next_fixedDelay hperiod hrate).mp hnext).2 last hlast
    exact le_trans hgap hdue

theorem Lawful.timely (h : r.Lawful starts) (hrequested : r.requested ≤ r.first) : r.Timely starts.reverse where
  not_early start hstart := ⟨hrequested, h.not_early start (mem_reverse.mp hstart)⟩
  one_shot hperiod := length_reverse.trans_le (h.one_shot hperiod)
  fixed_rate hperiod hrate := h.fixed_rate hperiod hrate
  fixed_delay hperiod hrate := h.fixed_delay hperiod hrate

end Registration

namespace Timer

variable {κ : Type}

/-! ### The state of the timer -/

def reading (s : Timer κ) : Int :=
  match s.thread with
  | .peeked _ currentTime => currentTime
  | _ => s.now

def inHand (s : Timer κ) : Option κ :=
  match s.thread with
  | .peeked task _ | .due task | .taken task | .starting task | .running task => some task
  | .looping | .ended => none

/-- Between `take` and the start of the task. -/
def Pending (s : Timer κ) (task : κ) : Prop := s.thread = .taken task ∨ s.thread = .starting task

/-- `when` stands for this time; in a `long long` it may have overflowed. -/
structure Stands (s : Timer κ) (task : κ) (r : Registration) (time : Int) : Prop where
  when_eq : s.due task = toInt64 time
  near : time - s.reading < 9223372036854775808
  first_le : r.first ≤ time

/-- What the timer knows of a task that was scheduled. -/
structure Account (s : Timer κ) (task : κ) (r : Registration) : Prop where
  period_eq : (s.tasks task).period = r.period
  rate_eq : (s.tasks task).fixedRate = r.fixedRate
  period_valid : r.period = -1 ∨ 0 < r.period
  period_long : r.period < 9223372036854775808
  requested_le : r.requested ≤ r.first
  first_pos : 0 < r.first
  scheduled : (s.tasks task).isScheduled = true
  lawful : r.Lawful (s.starts task)
  waiting : task ∈ s.heap → (s.tasks task).cancelled = false → ¬ s.Pending task →
    ∃ time, s.Stands task r time ∧ r.Next (s.starts task) time
  following : s.Pending task → task ∈ s.heap → (s.tasks task).cancelled = false →
    0 ≤ r.period ∧ ∃ time, s.Stands task r time ∧
      (r.fixedRate = true → time = (s.tasks task).scheduledTime + r.period)
  due : s.thread = .due task → (s.tasks task).cancelled = false →
    r.Next (s.starts task) (s.due task) ∧ s.due task ≤ s.now
  taken : s.thread = .taken task → (s.tasks task).cancelled = false →
    r.Next (s.starts task) (s.tasks task).scheduledTime ∧ (s.tasks task).scheduledTime ≤ s.now
  starting : s.thread = .starting task →
    r.Next (s.starts task) (s.tasks task).scheduledTime ∧ (s.tasks task).scheduledTime ≤ s.now

structure Consistent (s : Timer κ) : Prop where
  clock : IsLong s.now
  nodup : s.heap.Nodup
  mem : ∀ task ∈ s.heap, s.registered task ≠ none
  hand : ∀ task ∈ s.inHand, s.registered task ≠ none
  peeked : ∀ task currentTime, s.thread = .peeked task currentTime → s.heap.head? = some task ∧ currentTime ≤ s.now
  head : ∀ task, s.thread = .due task → (s.tasks task).cancelled = false → s.heap.head? = some task
  account : ∀ task r, s.registered task = some r → s.Account task r
  fresh : ∀ task, s.registered task = none → s.starts task = []

variable {s s' : Timer κ} {task : κ} {r : Registration}
variable {time now currentTime : Int} {heap : List κ} {other : κ}

theorem Stands.frame (h : s.Stands task r time) (htask : s'.tasks task = s.tasks task)
    (hreading : s.reading ≤ s'.reading) : s'.Stands task r time := by
  refine ⟨?_, ?_, h.first_le⟩
  · rw [due, htask]
    exact h.when_eq
  · have := h.near
    omega

theorem Account.frame (h : s.Account task r) (htask : s'.tasks task = s.tasks task)
    (hstarts : s'.starts task = s.starts task) (hheap : task ∈ s'.heap → task ∈ s.heap) (hnow : s.now ≤ s'.now)
    (hreading : s.reading ≤ s'.reading) (hdue : s'.thread = .due task → s.thread = .due task)
    (htaken : s'.thread = .taken task ↔ s.thread = .taken task)
    (hstarting : s'.thread = .starting task ↔ s.thread = .starting task) : s'.Account task r := by
  have hpending : s'.Pending task ↔ s.Pending task := or_congr htaken hstarting
  have hwhen : s'.due task = s.due task := by rw [Timer.due, Timer.due, htask]
  refine ⟨?_, ?_, h.period_valid, h.period_long, h.requested_le, h.first_pos, ?_, ?_, ?_, ?_, ?_, ?_, ?_⟩
  · rw [htask]
    exact h.period_eq
  · rw [htask]
    exact h.rate_eq
  · rw [htask]
    exact h.scheduled
  · rw [hstarts]
    exact h.lawful
  · rw [htask, hstarts, hpending]
    intro hmem hlive hidle
    obtain ⟨time, hstands, hnext⟩ := h.waiting (hheap hmem) hlive hidle
    exact ⟨time, hstands.frame htask hreading, hnext⟩
  · rw [htask, hpending]
    intro hpend hmem hlive
    obtain ⟨hperiod, time, hstands, hrate⟩ := h.following hpend (hheap hmem) hlive
    exact ⟨hperiod, time, hstands.frame htask hreading, hrate⟩
  · rw [htask, hstarts, hwhen]
    intro hthread hlive
    obtain ⟨hnext, hle⟩ := h.due (hdue hthread) hlive
    exact ⟨hnext, hle.trans hnow⟩
  · rw [htask, hstarts, htaken]
    intro hthread hlive
    obtain ⟨hnext, hle⟩ := h.taken hthread hlive
    exact ⟨hnext, hle.trans hnow⟩
  · rw [htask, hstarts, hstarting]
    intro hthread
    obtain ⟨hnext, hle⟩ := h.starting hthread
    exact ⟨hnext, hle.trans hnow⟩

theorem Account.cancelled (h : s.Account task r) (hcancelled : (s'.tasks task).cancelled = true)
    (hperiod : (s'.tasks task).period = (s.tasks task).period)
    (hrate : (s'.tasks task).fixedRate = (s.tasks task).fixedRate)
    (hscheduled : (s'.tasks task).isScheduled = (s.tasks task).isScheduled)
    (htime : (s'.tasks task).scheduledTime = (s.tasks task).scheduledTime)
    (hstarts : s'.starts task = s.starts task) (hnow : s.now ≤ s'.now)
    (hstarting : s'.thread = .starting task → s.thread = .starting task) : s'.Account task r := by
  have hdead : ¬ (s'.tasks task).cancelled = false := by
    rw [hcancelled]
    decide
  refine ⟨hperiod.trans h.period_eq, hrate.trans h.rate_eq, h.period_valid, h.period_long, h.requested_le,
    h.first_pos, hscheduled.trans h.scheduled, ?_, ?_, ?_, ?_, ?_, ?_⟩
  · rw [hstarts]
    exact h.lawful
  · exact fun _ hlive => absurd hlive hdead
  · exact fun _ _ hlive => absurd hlive hdead
  · exact fun _ hlive => absurd hlive hdead
  · exact fun _ hlive => absurd hlive hdead
  · intro hthread
    rw [hstarts, htime]
    obtain ⟨hnext, hle⟩ := h.starting (hstarting hthread)
    exact ⟨hnext, hle.trans hnow⟩

theorem Account.of_scheduled (hwhen : s.due task = r.first) (hperiod : (s.tasks task).period = r.period)
    (hrate : (s.tasks task).fixedRate = r.fixedRate) (hvalid : r.period = -1 ∨ 0 < r.period)
    (hlong : r.period < 9223372036854775808) (hrequested : r.requested ≤ r.first) (hpos : 0 < r.first)
    (hfirst : r.first < 9223372036854775808) (hnear : r.first - s.reading < 9223372036854775808)
    (hstarts : s.starts task = []) (hhand : task ∉ s.inHand) : s.Account task r := by
  have hdue : s.thread ≠ .due task := fun hthread => hhand (by rw [inHand, hthread]; rfl)
  have htaken : s.thread ≠ .taken task := fun hthread => hhand (by rw [inHand, hthread]; rfl)
  have hstarting : s.thread ≠ .starting task := fun hthread => hhand (by rw [inHand, hthread]; rfl)
  refine ⟨hperiod, hrate, hvalid, hlong, hrequested, hpos, ?_, ?_, ?_, ?_, ?_, ?_, ?_⟩
  · have hwhen' : (s.tasks task).when > 0 := lt_of_lt_of_eq hpos hwhen.symm
    rw [isScheduled, decide_eq_true hwhen', Bool.true_or]
  · rw [hstarts]
    exact .nil
  · intro _ _ _
    refine ⟨r.first, ⟨?_, hnear, le_refl _⟩, ?_⟩
    · rw [hwhen, toInt64_of_range (by omega) hfirst]
    · rw [hstarts]
      exact Registration.next_first r
  · exact fun hpend => absurd hpend (not_or_intro htaken hstarting)
  · exact fun hthread => absurd hthread hdue
  · exact fun hthread => absurd hthread htaken
  · exact fun hthread => absurd hthread hstarting

/-! ### The other threads -/

theorem inHand_of_monitor (hfree : s.thread.holdsMonitor = false) :
    (∀ task currentTime, s.thread ≠ .peeked task currentTime) ∧ ∀ task, s.thread ≠ .due task := by
  constructor
  · intro task currentTime hthread
    rw [hthread] at hfree
    cases hfree
  · intro task hthread
    rw [hthread] at hfree
    cases hfree

theorem reading_of_monitor (hfree : s.thread.holdsMonitor = false) : s.reading = s.now := by
  rw [reading]
  split
  · rename_i task currentTime hthread
    exact absurd hthread ((inHand_of_monitor hfree).1 task currentTime)
  · rfl

theorem Consistent.tick (h : s.Consistent) (hle : s.now ≤ now) (hlong : IsLong now) :
    ({ s with now } : Timer κ).Consistent := by
  have hreading : s.reading ≤ ({ s with now } : Timer κ).reading := by
    simp only [reading]
    split
    · exact le_refl _
    · exact hle
  refine ⟨hlong, h.nodup, h.mem, h.hand, ?_, h.head, ?_, h.fresh⟩
  · intro task currentTime hthread
    obtain ⟨hhead, hread⟩ := h.peeked task currentTime hthread
    exact ⟨hhead, hread.trans hle⟩
  · intro task r hr
    exact (h.account task r hr).frame rfl rfl id hle hreading id Iff.rfl Iff.rfl

theorem Consistent.shrink (h : s.Consistent) (hfree : s.thread.holdsMonitor = false) {cancelled : Bool}
    (hsub : heap.Subperm s.heap) : ({ s with heap, cancelled } : Timer κ).Consistent := by
  obtain ⟨hpeeked, hdue⟩ := inHand_of_monitor hfree
  refine ⟨h.clock, nodup_of_subperm hsub h.nodup, fun task hmem => h.mem task (hsub.subset hmem), h.hand,
    fun task currentTime hthread => absurd hthread (hpeeked task currentTime),
    fun task hthread => absurd hthread (hdue task), ?_, h.fresh⟩
  intro task r hr
  exact (h.account task r hr).frame rfl rfl (fun hmem => hsub.subset hmem) (le_refl _) (le_refl _) id Iff.rfl Iff.rfl

theorem Consistent.rethread (h : s.Consistent) {thread : TimerThread κ} (hsub : heap.Subperm s.heap)
    (hhand : ∀ task ∈ ({ s with heap, thread } : Timer κ).inHand, s.registered task ≠ none)
    (hpeeked : ∀ task currentTime, thread = .peeked task currentTime → heap.head? = some task ∧ currentTime ≤ s.now)
    (hhead : ∀ task, thread = .due task → (s.tasks task).cancelled = false → heap.head? = some task)
    (haccount : ∀ task r, s.registered task = some r → ({ s with heap, thread } : Timer κ).Account task r) :
    ({ s with heap, thread } : Timer κ).Consistent :=
  ⟨h.clock, nodup_of_subperm hsub h.nodup, fun task hmem => h.mem task (hsub.subset hmem), hhand, hpeeked,
    hhead, haccount, h.fresh⟩

theorem mem_insertTask : other ∈ (s.insertTask task).heap ↔ other = task ∨ other ∈ s.heap := by
  rw [insertTask, (insert_perm task s.heap).mem_iff, mem_cons]

theorem nodup_insertTask (hnodup : s.heap.Nodup) (hout : task ∉ s.heap) : (s.insertTask task).heap.Nodup :=
  (insert_perm task s.heap).nodup_iff.mpr (nodup_cons.mpr ⟨hout, hnodup⟩)

/-! ### The thread of the timer -/

theorem Consistent.peek (h : s.Consistent) (hthread : s.thread = .looping) : s.peek.Consistent := by
  have hreading : s.reading = s.now := by rw [reading, hthread]
  rw [Timer.peek]
  split_ifs with hcancelled
  · refine h.rethread (.refl _) ?_ ?_ ?_ ?_
    · exact fun task hmem => by cases hmem
    · exact fun task currentTime hpeeked => by cases hpeeked
    · exact fun task hdue => by cases hdue
    · intro task r hr
      refine (h.account task r hr).frame rfl rfl id (le_refl _) hreading.le ?_ ?_ ?_ <;> simp [hthread]
  · split
    · exact h
    · rename_i task rest hheap
      refine h.rethread (.refl _) ?_ ?_ ?_ ?_
      · intro other hmem
        cases hmem
        exact h.mem task (by rw [hheap]; exact mem_cons_self)
      · intro other currentTime hpeeked
        cases hpeeked
        exact ⟨by rw [hheap, List.head?_cons], le_refl _⟩
      · exact fun other hdue => by cases hdue
      · intro other r hr
        refine (h.account other r hr).frame rfl rfl id (le_refl _) hreading.le ?_ ?_ ?_ <;> simp [hthread]

theorem time_of_due (hpos : 0 < time) (hhigh : currentTime < 9223372036854775808)
    (hnear : time - currentTime < 9223372036854775808) (hdue : ¬ toInt64 (toInt64 time - currentTime) > 0) :
    time ≤ currentTime ∧ toInt64 time = time := by
  unfold toInt64 at hdue ⊢
  omega

theorem Account.found_due (h : s.Account task r) (hthread : s.thread = .peeked task currentTime)
    (hle : currentTime ≤ s.now) (hlong : s.now < 9223372036854775808) (hmem : task ∈ s.heap)
    (hlive : (s.tasks task).cancelled = false) (hsleep : ¬ toInt64 ((s.tasks task).when - currentTime) > 0) :
    ({ s with thread := .due task } : Timer κ).Account task r := by
  have hreading : s.reading = currentTime := by rw [reading, hthread]
  have hidle : ¬ s.Pending task := by
    intro hpend
    rw [Pending, hthread] at hpend
    cases hpend with
    | inl htaken => cases htaken
    | inr hstarting => cases hstarting
  obtain ⟨time, hstands, hnext⟩ := h.waiting hmem hlive hidle
  have hwhen : (s.tasks task).when = toInt64 time := hstands.when_eq
  have hnear := hstands.near
  rw [hreading] at hnear
  rw [hwhen] at hsleep
  obtain ⟨hcome, hexact⟩ := time_of_due (h.first_pos.trans_le hstands.first_le) (lt_of_le_of_lt hle hlong) hnear hsleep
  have hdue : s.due task = time := hwhen.trans hexact
  refine ⟨h.period_eq, h.rate_eq, h.period_valid, h.period_long, h.requested_le, h.first_pos, h.scheduled, h.lawful,
    ?_, ?_, ?_, ?_, ?_⟩
  · exact fun _ _ _ => ⟨time, hstands.frame rfl (hreading.trans_le hle), hnext⟩
  · intro hpend
    cases hpend with
    | inl htaken => cases htaken
    | inr hstarting => cases hstarting
  · intro _ _
    refine ⟨?_, hdue.trans_le (hcome.trans hle)⟩
    rw [← hdue] at hnext
    exact hnext
  · exact fun htaken => by cases htaken
  · exact fun hstarting => by cases hstarting

theorem Account.taking (h : s.Account task r) (hthread : s.thread = .due task)
    (hlive : (s.tasks task).cancelled = false) (hthread' : s'.thread = .taken task)
    (hperiod : (s'.tasks task).period = (s.tasks task).period)
    (hrate : (s'.tasks task).fixedRate = (s.tasks task).fixedRate)
    (htime : (s'.tasks task).scheduledTime = s.due task) (hstarts : s'.starts task = s.starts task)
    (hnow : s'.now = s.now)
    (hfollow : task ∈ s'.heap → 0 ≤ r.period ∧ ∃ time, s'.Stands task r time ∧
      (r.fixedRate = true → time = (s'.tasks task).scheduledTime + r.period)) : s'.Account task r := by
  obtain ⟨hnext, hle⟩ := h.due hthread hlive
  have hpend : s'.Pending task := .inl hthread'
  refine ⟨hperiod.trans h.period_eq, hrate.trans h.rate_eq, h.period_valid, h.period_long, h.requested_le, h.first_pos,
    ?_, ?_, ?_, ?_, ?_, ?_, ?_⟩
  · have hpos : (s'.tasks task).scheduledTime > 0 := by
      rw [htime]
      exact h.first_pos.trans_le hnext.first_le
    rw [isScheduled, decide_eq_true hpos, Bool.or_true]
  · rw [hstarts]
    exact h.lawful
  · exact fun _ _ hidle => absurd hpend hidle
  · exact fun _ hmem _ => hfollow hmem
  · intro hdue
    rw [hthread'] at hdue
    cases hdue
  · intro _ _
    rw [hstarts, htime, hnow]
    exact ⟨hnext, hle⟩
  · intro hstarting
    rw [hthread'] at hstarting
    cases hstarting

theorem Consistent.returned (h : s.Consistent) (hthread : s.thread = .running task) :
    ({ s with thread := .looping } : Timer κ).Consistent := by
  have hreading : s.reading = s.now := by rw [reading, hthread]
  refine h.rethread (.refl _) ?_ ?_ ?_ ?_
  · exact fun other hother => by cases hother
  · exact fun other time hpeeked => by cases hpeeked
  · exact fun other hdue => by cases hdue
  · intro other r hr
    refine (h.account other r hr).frame rfl rfl id (le_refl _) hreading.le ?_ ?_ ?_ <;> simp [hthread]

def new (now : Int) : Timer κ := { now }

theorem consistent_new (hnow : IsLong now) : (new now : Timer κ).Consistent := by
  refine ⟨hnow, nodup_nil, ?_, ?_, ?_, ?_, ?_, fun _ _ => rfl⟩
  · exact fun task hmem => absurd hmem not_mem_nil
  · exact fun task hmem => by cases hmem
  · exact fun task time hpeeked => by cases hpeeked
  · exact fun task hdue => by cases hdue
  · exact fun task r hr => by cases hr

variable [DecidableEq κ]

@[simp] theorem setTask_self (state : TimerTask) : (s.setTask task state).tasks task = state := by
  simp only [setTask, Function.update_self]

theorem setTask_other (hother : other ≠ task) (state : TimerTask) :
    (s.setTask task state).tasks other = s.tasks other := by
  simp only [setTask, Function.update_of_ne hother]

theorem Consistent.cancelTask (h : s.Consistent) : (s.cancelTask task).2.Consistent := by
  refine ⟨h.clock, h.nodup, h.mem, h.hand, h.peeked, ?_, ?_, h.fresh⟩
  · intro other hthread hlive
    by_cases hother : other = task
    · subst hother
      rw [cancelTask, setTask_self] at hlive
      cases hlive
    · rw [Timer.cancelTask, setTask_other hother] at hlive
      exact h.head other hthread hlive
  · intro other r hr
    have haccount := h.account other r hr
    by_cases hother : other = task
    · subst hother
      have hstate : (s.cancelTask other).2.tasks other = { s.tasks other with cancelled := true } := setTask_self _
      refine haccount.cancelled ?_ ?_ ?_ ?_ ?_ rfl (le_refl _) id
      all_goals rw [hstate]
      rfl
    · exact haccount.frame (setTask_other hother _) rfl id (le_refl _) (le_refl _) id Iff.rfl Iff.rfl

/-! ### Scheduling -/

theorem scheduleTask_ok {delay period : Int} {fixed : Bool} (h : s.scheduleTask task delay period fixed = .ok s') :
    0 ≤ toInt64 (delay + s.now) ∧ (s.tasks task).isScheduled = false ∧
      s' = (s.setTask task { s.tasks task with
        when := toInt64 (delay + s.now), period, fixedRate := fixed }).insertTask task := by
  simp only [scheduleTask] at h
  split_ifs at h with hcancelled hwhen hscheduled hdead
  exact ⟨not_lt.mp hwhen, Bool.eq_false_iff.mpr hscheduled, (Except.ok.inj h).symm⟩

end Timer

/-- The first time that a task is due is not `0`, which is no time, and the date is no more than a `long long` away
from the reading of the clock. -/
def FirstTime.Regular (now : Int) (first : FirstTime) : Prop :=
  first.toDelay + now ≠ 0 ∧
    match first with
    | .afterDelay _ => True
    | .atDate date reading => date - reading < 9223372036854775808

theorem FirstTime.Regular.delay {now : Int} {first : FirstTime} (h : first.Regular now) (hpossible : first.possible now)
    (hvalid : first.valid = true) :
    0 ≤ first.toDelay ∧ first.toDelay < 9223372036854775808 ∧ first.requested now ≤ first.toDelay + now := by
  cases first with
  | afterDelay delay =>
    simp only [FirstTime.valid, decide_eq_true_eq] at hvalid
    exact ⟨hvalid, hpossible.2, (Int.add_comm now delay).le⟩
  | atDate date reading =>
    obtain ⟨hdate, hreading, hbefore⟩ := hpossible
    simp only [FirstTime.valid, decide_eq_true_eq] at hvalid
    have hnear : date - reading < 9223372036854775808 := h.2
    have hreach : toInt64 (date - reading) = date - reading := toInt64_of_range (by have := hreading.2; omega) hnear
    simp only [FirstTime.toDelay, FirstTime.requested, hreach]
    split_ifs with hpast
    · exact ⟨le_refl _, by omega, by omega⟩
    · exact ⟨by omega, hnear, by omega⟩

namespace Timer

variable {κ : Type} [DecidableEq κ] {s s' : Timer κ} {task : κ} {r : Registration}
variable {period : Int} {fixed : Bool}
variable {state : TimerTask} {first : FirstTime} {result : Except TimerException (Timer κ)} {other : κ}

theorem Consistent.scheduleTask (h : s.Consistent) (hfree : s.thread.holdsMonitor = false) {delay requested : Int}
    (hdelay : 0 ≤ delay) (hlong : delay < 9223372036854775808) (hregular : delay + s.now ≠ 0)
    (hrequested : requested ≤ delay + s.now) (hperiod : period = -1 ∨ 0 < period)
    (hperiod' : period < 9223372036854775808) (hok : s.scheduleTask task delay period fixed = .ok s') :
    ({ s' with
        registered := Function.update s.registered task
          (some { requested, first := s'.due task, period, fixedRate := fixed }) } : Timer κ).Consistent := by
  obtain ⟨hwhen, hidle, rfl⟩ := scheduleTask_ok hok
  have hclock := h.clock
  have hfirst : toInt64 (delay + s.now) = delay + s.now := by
    have hlow := hclock.1
    have hhigh := hclock.2
    unfold toInt64 at hwhen ⊢
    omega
  have hpos : 0 < delay + s.now := by
    rw [hfirst] at hwhen
    exact lt_of_le_of_ne hwhen hregular.symm
  have hlong' : delay + s.now < 9223372036854775808 := by
    rw [← hfirst]
    unfold toInt64
    omega
  have hnew : s.registered task = none := by
    by_contra hsome
    obtain ⟨r, hr⟩ := Option.ne_none_iff_exists'.mp hsome
    have hscheduled := (h.account task r hr).scheduled
    rw [hidle] at hscheduled
    cases hscheduled
  have hout : task ∉ s.heap := fun hmem => h.mem task hmem hnew
  have hhand : task ∉ s.inHand := fun hmem => h.hand task hmem hnew
  obtain ⟨hpeeked, hdue⟩ := inHand_of_monitor hfree
  refine ⟨hclock, nodup_insertTask h.nodup hout, ?_, ?_, ?_, ?_, ?_, ?_⟩
  · intro other hother
    by_cases heq : other = task
    · subst heq
      simp only [Function.update_self]
      exact Option.some_ne_none _
    · simp only [Function.update_of_ne heq]
      exact h.mem other ((mem_insertTask.mp hother).resolve_left heq)
  · intro other hother
    by_cases heq : other = task
    · subst heq
      exact absurd hother hhand
    · simp only [Function.update_of_ne heq]
      exact h.hand other hother
  · exact fun other currentTime hthread => absurd hthread (hpeeked other currentTime)
  · exact fun other hthread => absurd hthread (hdue other)
  · intro other r hr
    by_cases heq : other = task
    · subst heq
      simp only [Function.update_self, Option.some.injEq] at hr
      subst hr
      have hwhen' : ((s.setTask other { s.tasks other with
          when := toInt64 (delay + s.now), period, fixedRate := fixed }).insertTask other).due other =
          delay + s.now := by
        rw [due]
        exact (congrArg when (setTask_self _)).trans hfirst
      refine Account.of_scheduled rfl (congrArg TimerTask.period (setTask_self _))
        (congrArg fixedRate (setTask_self _)) hperiod hperiod' ?_ ?_ ?_ ?_ (h.fresh other hnew) hhand
      · rw [hwhen']
        exact hrequested
      · rw [hwhen']
        exact hpos
      · rw [hwhen']
        exact hlong'
      · rw [hwhen']
        have hreading : s.reading = s.now := reading_of_monitor hfree
        have hsame : delay + s.now - s.reading < 9223372036854775808 := by omega
        exact hsame
    · simp only [Function.update_of_ne heq] at hr
      refine (h.account other r hr).frame (setTask_other heq _) rfl ?_ (le_refl _) (le_refl _) id Iff.rfl Iff.rfl
      exact fun hmem => (mem_insertTask.mp hmem).resolve_left heq
  · intro other hother
    by_cases heq : other = task
    · subst heq
      exact h.fresh other hnew
    · simp only [Function.update_of_ne heq] at hother
      exact h.fresh other hother

theorem Consistent.checkTime (h : s.Consistent) {currentTime : Int} (hthread : s.thread = .peeked task currentTime) :
    (s.checkTime task currentTime).Consistent := by
  obtain ⟨hhead, hle⟩ := h.peeked task currentTime hthread
  have hmem : task ∈ s.heap := mem_of_head? hhead
  have hknown := h.mem task hmem
  have hreading : s.reading = currentTime := by rw [reading, hthread]
  have hread : s.reading ≤ s.now := hreading.trans_le hle
  rw [Timer.checkTime]
  split_ifs with hcancelled hsleep
  · refine h.rethread (remove_subperm 0 s.heap) ?_ ?_ ?_ ?_
    · intro other hother
      cases hother
      exact hknown
    · exact fun other time hpeeked => by cases hpeeked
    · intro other hdue hlive
      cases hdue
      rw [hcancelled] at hlive
      cases hlive
    · intro other r hr
      have haccount := h.account other r hr
      by_cases hother : other = task
      · subst hother
        exact haccount.cancelled hcancelled rfl rfl rfl rfl rfl (le_refl _) fun hstarting => by cases hstarting
      · have hsub := (@remove_subperm κ s.due 0 s.heap).subset
        refine haccount.frame rfl rfl (fun hmem => hsub hmem) (le_refl _) hread ?_ ?_ ?_ <;>
          simp [hthread, Ne.symm hother]
  · refine h.rethread (.refl _) ?_ ?_ ?_ ?_
    · exact fun other hother => by cases hother
    · exact fun other time hpeeked => by cases hpeeked
    · exact fun other hdue => by cases hdue
    · intro other r hr
      refine (h.account other r hr).frame rfl rfl id (le_refl _) hread ?_ ?_ ?_ <;> simp [hthread]
  · refine h.rethread (.refl _) ?_ ?_ ?_ ?_
    · intro other hother
      cases hother
      exact hknown
    · exact fun other time hpeeked => by cases hpeeked
    · intro other hdue _
      cases hdue
      exact hhead
    · intro other r hr
      have haccount := h.account other r hr
      by_cases hother : other = task
      · subst hother
        exact haccount.found_due hthread hle h.clock.2 hmem (Bool.eq_false_iff.mpr hcancelled) hsleep
      · refine haccount.frame rfl rfl id (le_refl _) hread ?_ ?_ ?_ <;> simp [hthread, Ne.symm hother]

theorem Consistent.retake (h : s.Consistent) (hthread : s.thread = .due task) (hlive : (s.tasks task).cancelled = false)
    {heap : List κ} (hnodup : heap.Nodup) (hheap : ∀ other ∈ heap, other = task ∨ other ∈ s.heap)
    (hperiod : state.period = (s.tasks task).period) (hrate : state.fixedRate = (s.tasks task).fixedRate)
    (htime : state.scheduledTime = s.due task)
    (hfollow : ∀ r, s.registered task = some r → task ∈ heap → 0 ≤ r.period ∧ ∃ time, state.when = toInt64 time ∧
      time - s.now < 9223372036854775808 ∧ r.first ≤ time ∧ (r.fixedRate = true → time = s.due task + r.period)) :
    ({ s with tasks := Function.update s.tasks task state, heap, thread := .taken task } : Timer κ).Consistent := by
  have hknown : s.registered task ≠ none := h.hand task (by rw [inHand, hthread]; rfl)
  have hreading : s.reading = s.now := by rw [reading, hthread]
  refine ⟨h.clock, hnodup, ?_, ?_, ?_, ?_, ?_, h.fresh⟩
  · intro other hmem
    rcases hheap other hmem with rfl | hold
    · exact hknown
    · exact h.mem other hold
  · intro other hmem
    cases hmem
    exact hknown
  · exact fun other time hpeeked => by cases hpeeked
  · exact fun other hdue => by cases hdue
  · intro other r hr
    have haccount := h.account other r hr
    by_cases hother : other = task
    · subst hother
      have hself : Function.update s.tasks other state other = state := Function.update_self other state s.tasks
      refine haccount.taking hthread hlive rfl ?_ ?_ ?_ rfl rfl ?_
      · exact (congrArg period hself).trans hperiod
      · exact (congrArg fixedRate hself).trans hrate
      · exact (congrArg scheduledTime hself).trans htime
      · intro hmem
        obtain ⟨hpos, time, hwhen, hnear, hfirst, hfixed⟩ := hfollow r hr hmem
        refine ⟨hpos, time, ⟨(congrArg when hself).trans hwhen, hnear, hfirst⟩, ?_⟩
        intro hyes
        rw [hfixed hyes]
        exact congrArg (· + r.period) ((congrArg scheduledTime hself).trans htime).symm
    · refine haccount.frame (Function.update_of_ne hother state s.tasks) rfl ?_ (le_refl _) hreading.le ?_ ?_ ?_
      · exact fun hmem => (hheap other hmem).resolve_left hother
      all_goals simp [hthread, Ne.symm hother]

theorem Consistent.reschedule (h : s.Consistent) (hthread : s.thread = .due task)
    (hlive : (s.tasks task).cancelled = false) (hhead : s.heap.head? = some task) :
    (s.reschedule task (some 0)).Consistent := by
  obtain ⟨rest, hheap⟩ := List.head?_eq_some_iff.mp hhead
  have hperm : (remove s.due 0 s.heap).Perm rest := by
    have hremove := @remove_perm κ s.due 0 s.heap
    rwa [hheap, eraseIdx_cons_zero, ← hheap] at hremove
  have hnodup := h.nodup
  rw [hheap, nodup_cons] at hnodup
  have hout : task ∉ remove s.due 0 s.heap := fun hmem => hnodup.1 (hperm.mem_iff.mp hmem)
  have hsub : ∀ other ∈ remove s.due 0 s.heap, other ∈ s.heap := by
    intro other hmem
    rw [hheap]
    exact mem_cons_of_mem _ (hperm.mem_iff.mp hmem)
  have hrest : (remove s.due 0 s.heap).Nodup :=
    nodup_of_subperm (remove_subperm 0 s.heap) h.nodup
  have hinsert : ∀ due : κ → Int, (insert due task (remove s.due 0 s.heap)).Nodup :=
    fun due => (insert_perm task _).nodup_iff.mpr (nodup_cons.mpr ⟨hout, hrest⟩)
  have hinserted : ∀ (due : κ → Int) (other : κ),
      other ∈ insert due task (remove s.due 0 s.heap) → other = task ∨ other ∈ s.heap := by
    intro due other hmem
    rcases mem_cons.mp ((insert_perm task _).mem_iff.mp hmem) with rfl | hold
    · exact .inl rfl
    · exact .inr (hsub other hold)
  simp only [Timer.reschedule]
  split_ifs with hperiod hrate
  · refine h.retake hthread hlive (hinsert _) (hinserted _) rfl rfl rfl ?_
    intro r hr _
    have haccount := h.account task r hr
    obtain ⟨hnext, hle⟩ := haccount.due hthread hlive
    have hlong := haccount.period_long
    rw [haccount.period_eq] at hperiod ⊢
    refine ⟨hperiod, s.due task + r.period, rfl, by omega, ?_, fun _ => rfl⟩
    exact hnext.first_le.trans (le_add_of_nonneg_right hperiod)
  · refine h.retake hthread hlive (hinsert _) (hinserted _) rfl rfl rfl ?_
    intro r hr _
    have haccount := h.account task r hr
    obtain ⟨hnext, hle⟩ := haccount.due hthread hlive
    have hlong := haccount.period_long
    rw [haccount.period_eq] at hperiod ⊢
    rw [haccount.rate_eq] at hrate
    refine ⟨hperiod, s.now + r.period, rfl, by omega, ?_, fun hyes => absurd hyes hrate⟩
    exact hnext.first_le.trans (hle.trans (le_add_of_nonneg_right hperiod))
  · refine h.retake hthread hlive (nodup_of_subperm (remove_subperm 0 s.heap) h.nodup)
      (fun other hmem => .inr (hsub other hmem)) rfl rfl rfl ?_
    exact fun r _ hmem => absurd hmem hout

theorem Consistent.take (h : s.Consistent) (hthread : s.thread = .due task) : (s.take task).Consistent := by
  have hknown : s.registered task ≠ none := h.hand task (by rw [inHand, hthread]; rfl)
  have hreading : s.reading = s.now := by rw [reading, hthread]
  rw [Timer.take]
  split
  · refine h.rethread (.refl _) ?_ ?_ ?_ ?_
    · exact fun other hother => by cases hother
    · exact fun other time hpeeked => by cases hpeeked
    · exact fun other hdue => by cases hdue
    · intro other r hr
      refine (h.account other r hr).frame rfl rfl id (le_refl _) hreading.le ?_ ?_ ?_ <;> simp [hthread]
  · rename_i first rest hheap
    by_cases hcancelled : (s.tasks task).cancelled = true
    · simp only [if_pos hcancelled]
      refine h.rethread (removeTask_subperm task s.heap) ?_ ?_ ?_ ?_
      · intro other hother
        cases hother
        exact hknown
      · exact fun other time hpeeked => by cases hpeeked
      · exact fun other hdue => by cases hdue
      · intro other r hr
        have haccount := h.account other r hr
        by_cases hother : other = task
        · subst hother
          exact haccount.cancelled hcancelled rfl rfl rfl rfl rfl (le_refl _) fun hstarting => by cases hstarting
        · have hsub := (@removeTask_subperm κ s.due _ task s.heap).subset
          refine haccount.frame rfl rfl (fun hmem => hsub hmem) (le_refl _) hreading.le ?_ ?_ ?_ <;>
            simp [hthread, Ne.symm hother]
    · have hlive : (s.tasks task).cancelled = false := Bool.eq_false_iff.mpr hcancelled
      have hhead := h.head task hthread hlive
      have hfirst : first = task := by
        rw [hheap, List.head?_cons] at hhead
        exact Option.some.inj hhead
      simp only [if_neg hcancelled, hfirst, ne_eq, not_true_eq_false, if_false]
      exact h.reschedule hthread hlive hhead

theorem Consistent.lastCheck (h : s.Consistent) (hthread : s.thread = .taken task) : (s.lastCheck task).Consistent := by
  have hknown : s.registered task ≠ none := h.hand task (by rw [inHand, hthread]; rfl)
  have hreading : s.reading = s.now := by rw [reading, hthread]
  rw [Timer.lastCheck]
  split_ifs with hcancelled
  · refine h.rethread (.refl _) ?_ ?_ ?_ ?_
    · exact fun other hother => by cases hother
    · exact fun other time hpeeked => by cases hpeeked
    · exact fun other hdue => by cases hdue
    · intro other r hr
      have haccount := h.account other r hr
      by_cases hother : other = task
      · subst hother
        exact haccount.cancelled hcancelled rfl rfl rfl rfl rfl (le_refl _) fun hstarting => by cases hstarting
      · refine haccount.frame rfl rfl id (le_refl _) hreading.le ?_ ?_ ?_ <;> simp [hthread, Ne.symm hother]
  · refine h.rethread (.refl _) ?_ ?_ ?_ ?_
    · intro other hother
      cases hother
      exact hknown
    · exact fun other time hpeeked => by cases hpeeked
    · exact fun other hdue => by cases hdue
    · intro other r hr
      have haccount := h.account other r hr
      by_cases hother : other = task
      · subst hother
        have hlive : (s.tasks other).cancelled = false := Bool.eq_false_iff.mpr hcancelled
        refine ⟨haccount.period_eq, haccount.rate_eq, haccount.period_valid, haccount.period_long,
          haccount.requested_le, haccount.first_pos, haccount.scheduled, haccount.lawful, ?_, ?_, ?_, ?_, ?_⟩
        · exact fun _ _ hidle => absurd (.inr rfl) hidle
        · intro _ hmem hlive
          obtain ⟨hpos, time, hstands, hfixed⟩ := haccount.following (.inl hthread) hmem hlive
          exact ⟨hpos, time, hstands.frame rfl hreading.le, hfixed⟩
        · exact fun hdue => by cases hdue
        · exact fun htaken => by cases htaken
        · exact fun _ => haccount.taken hthread hlive
      · refine haccount.frame rfl rfl id (le_refl _) hreading.le ?_ ?_ ?_ <;> simp [hthread, Ne.symm hother]

/-- Where a task with a fixed delay is about to start, its next time is still the one that the clock gives now. -/
def Prompt (s : Timer κ) : TimerThread κ → Prop
  | .starting task => 0 ≤ (s.tasks task).period → (s.tasks task).fixedRate = false →
      (s.tasks task).when = toInt64 (s.now + (s.tasks task).period)
  | _ => True

instance (s : Timer κ) : (thread : TimerThread κ) → Decidable (s.Prompt thread)
  | .starting _ => inferInstanceAs (Decidable (_ → _ → _))
  | .looping | .peeked _ _ | .due _ | .taken _ | .running _ | .ended => isTrue trivial

theorem Account.start (h : s.Account task r) (hthread : s.thread = .starting task)
    (hprompt : s.Prompt (.starting task)) :
    (s.start task).Account task r := by
  have hreading : s.reading = s.now := by rw [reading, hthread]
  obtain ⟨hnext, hle⟩ := h.starting hthread
  have hstarts : (s.start task).starts task = ⟨(s.tasks task).scheduledTime, s.now⟩ :: s.starts task :=
    Function.update_self task _ s.starts
  refine ⟨h.period_eq, h.rate_eq, h.period_valid, h.period_long, h.requested_le, h.first_pos, h.scheduled, ?_, ?_, ?_,
    ?_, ?_, ?_⟩
  · rw [hstarts]
    exact .cons _ h.lawful hnext hle
  · intro hmem hlive _
    obtain ⟨hpos, time, hstands, hfixed⟩ := h.following (.inr hthread) hmem hlive
    rw [hstarts]
    cases hrate : r.fixedRate with
    | true =>
      refine ⟨time, hstands.frame rfl hreading.le, (Registration.next_fixedRate hpos hrate).mpr ?_⟩
      have hsum := (Registration.next_fixedRate hpos hrate).mp hnext
      rw [hfixed hrate, hsum, length_cons]
      push_cast
      ring
    | false =>
      have hwhen := hprompt (by rw [h.period_eq]; exact hpos) (by rw [h.rate_eq]; exact hrate)
      rw [h.period_eq] at hwhen
      have hfirst : r.first ≤ s.now + r.period := hnext.first_le.trans (hle.trans (le_add_of_nonneg_right hpos))
      refine ⟨s.now + r.period, ⟨hwhen, ?_, hfirst⟩, (Registration.next_fixedDelay hpos hrate).mpr ⟨hfirst, ?_⟩⟩
      · have hlong := h.period_long
        have hnear : s.now + r.period - s.now < 9223372036854775808 := by omega
        exact hnear
      · intro last hlast
        rw [List.head?_cons, Option.mem_some_iff] at hlast
        rw [← hlast]
  · intro hpend
    cases hpend with
    | inl htaken => cases htaken
    | inr hstarting => cases hstarting
  · exact fun hdue => by cases hdue
  · exact fun htaken => by cases htaken
  · exact fun hstarting => by cases hstarting

theorem Consistent.start (h : s.Consistent) (hthread : s.thread = .starting task)
    (hprompt : s.Prompt (.starting task)) :
    (s.start task).Consistent := by
  have hknown : s.registered task ≠ none := h.hand task (by rw [inHand, hthread]; rfl)
  have hreading : s.reading = s.now := by rw [reading, hthread]
  refine ⟨h.clock, h.nodup, h.mem, ?_, ?_, ?_, ?_, ?_⟩
  · intro other hother
    cases hother
    exact hknown
  · exact fun other time hpeeked => by cases hpeeked
  · exact fun other hdue => by cases hdue
  · intro other r hr
    have haccount := h.account other r hr
    by_cases hother : other = task
    · subst hother
      exact haccount.start hthread hprompt
    · refine haccount.frame rfl (Function.update_of_ne hother _ s.starts) id (le_refl _) hreading.le ?_ ?_ ?_ <;>
        simp [Timer.start, hthread, Ne.symm hother]
  · intro other hother
    have hne : other ≠ task := fun heq => hknown (heq ▸ hother)
    exact (Function.update_of_ne hne _ s.starts).trans (h.fresh other hother)

theorem Consistent.turn (h : s.Consistent) (hprompt : s.Prompt s.thread) (hturn : s.turn = some s') : s'.Consistent := by
  rw [Timer.turn] at hturn
  cases hthread : s.thread with
  | looping =>
    rw [hthread] at hturn
    exact Option.some.inj hturn ▸ h.peek hthread
  | peeked task currentTime =>
    rw [hthread] at hturn
    exact Option.some.inj hturn ▸ h.checkTime hthread
  | due task =>
    rw [hthread] at hturn
    exact Option.some.inj hturn ▸ h.take hthread
  | taken task =>
    rw [hthread] at hturn
    exact Option.some.inj hturn ▸ h.lastCheck hthread
  | starting task =>
    rw [hthread] at hturn
    rw [hthread] at hprompt
    exact Option.some.inj hturn ▸ h.start hthread hprompt
  | running task =>
    rw [hthread] at hturn
    exact Option.some.inj hturn ▸ h.returned hthread
  | ended =>
    rw [hthread] at hturn
    cases hturn

/-! ### Runs -/

/-- What an event needs of the state before it. -/
def Orderly (s : Timer κ) : Event κ → Prop
  | .schedule _ first | .scheduleAtFixedDelay _ first _ | .scheduleAtFixedRate _ first _ => first.Regular s.now
  | .run => s.Prompt s.thread
  | .cancelTask _ | .cancel | .purge | .tick _ => True

theorem Consistent.register (h : s.Consistent) (hregular : first.Regular s.now)
    (hresult : ∀ s', result = .ok s' → first.valid = true ∧ (period = -1 ∨ 0 < period) ∧
      s.scheduleTask task first.toDelay period fixed = .ok s')
    (hstep : s.register task first period fixed result = some s') : s'.Consistent := by
  simp only [Timer.register] at hstep
  split_ifs at hstep with hpossible
  obtain ⟨hfree, hreading, hperiod⟩ := hpossible
  cases result with
  | error e => exact Option.some.inj hstep ▸ h
  | ok s1 =>
    obtain ⟨hvalid, hsign, hok⟩ := hresult s1 rfl
    obtain ⟨hdelay, hlong, hrequested⟩ := hregular.delay hreading hvalid
    exact Option.some.inj hstep ▸
      h.scheduleTask hfree hdelay hlong hregular.1 hrequested hsign hperiod.2 hok

theorem Consistent.step (h : s.Consistent) {e : Event κ} (horderly : s.Orderly e) (hs : s.step e = some s') :
    s'.Consistent := by
  cases e with
  | schedule task first =>
    refine h.register horderly (fun s1 hok => ?_) hs
    rw [schedule] at hok
    split_ifs at hok with hvalid
    exact ⟨hvalid, .inl rfl, hok⟩
  | scheduleAtFixedDelay task first period =>
    refine h.register horderly (fun s1 hok => ?_) hs
    rw [scheduleAtFixedDelay] at hok
    split_ifs at hok with hvalid hperiod
    exact ⟨hvalid, .inr (not_le.mp hperiod), hok⟩
  | scheduleAtFixedRate task first period =>
    refine h.register horderly (fun s1 hok => ?_) hs
    rw [scheduleAtFixedRate] at hok
    split_ifs at hok with hvalid hperiod
    exact ⟨hvalid, .inr (not_le.mp hperiod), hok⟩
  | cancelTask task => exact Option.some.inj hs ▸ h.cancelTask
  | cancel =>
    simp only [Timer.step] at hs
    split_ifs at hs with hmonitor
    exact Option.some.inj hs ▸ h.shrink (Bool.eq_false_iff.mpr hmonitor) nil_subperm
  | purge =>
    simp only [Timer.step] at hs
    split_ifs at hs with hmonitor
    exact Option.some.inj hs ▸
      h.shrink (Bool.eq_false_iff.mpr hmonitor) (deleteIfCancelled_subperm _ s.heap)
  | tick now =>
    simp only [Timer.step] at hs
    split_ifs at hs with hclock
    exact Option.some.inj hs ▸ h.tick hclock.1 hclock.2
  | run => exact h.turn horderly hs

/-! ### Tasks that are cancelled -/

/-- A task that is cancelled, and not behind the last check. -/
structure Dead (s : Timer κ) (task : κ) (starts : List Start) : Prop where
  cancelled : (s.tasks task).cancelled = true
  not_starting : s.thread ≠ .starting task
  starts_eq : s.starts task = starts

variable {starts : List Start}

theorem setTask_cancelled
    (hstate : (s.tasks other).cancelled = true → state.cancelled = true) (h : (s.tasks task).cancelled = true) :
    ((s.setTask other state).tasks task).cancelled = true := by
  by_cases hother : task = other
  · subst hother
    rw [setTask_self]
    exact hstate h
  · rw [setTask_other hother]
    exact h

theorem Dead.register (h : s.Dead task starts)
    (hresult : ∀ s', result = .ok s' → s.scheduleTask other first.toDelay period fixed = .ok s')
    (hstep : s.register other first period fixed result = some s') : s'.Dead task starts := by
  simp only [Timer.register] at hstep
  split_ifs at hstep
  cases result with
  | error e => exact Option.some.inj hstep ▸ h
  | ok s1 =>
    obtain ⟨-, -, rfl⟩ := scheduleTask_ok (hresult s1 rfl)
    rw [← Option.some.inj hstep]
    exact ⟨setTask_cancelled id h.cancelled, h.not_starting, h.starts_eq⟩

theorem Dead.turn (h : s.Dead task starts) (hturn : s.turn = some s') : s'.Dead task starts := by
  rw [Timer.turn] at hturn
  cases hthread : s.thread with
  | looping =>
    rw [hthread] at hturn
    rw [← Option.some.inj hturn, peek]
    split_ifs
    · exact ⟨h.cancelled, (fun hstarting => by cases hstarting), h.starts_eq⟩
    · split
      · exact h
      · exact ⟨h.cancelled, (fun hstarting => by cases hstarting), h.starts_eq⟩
  | peeked other currentTime =>
    rw [hthread] at hturn
    rw [← Option.some.inj hturn, checkTime]
    split_ifs <;> exact ⟨h.cancelled, (fun hstarting => by cases hstarting), h.starts_eq⟩
  | due other =>
    rw [hthread] at hturn
    rw [← Option.some.inj hturn, take]
    split
    · exact ⟨h.cancelled, (fun hstarting => by cases hstarting), h.starts_eq⟩
    · by_cases hcancelled : (s.tasks other).cancelled = true
      · simp only [if_pos hcancelled]
        exact ⟨h.cancelled, (fun hstarting => by cases hstarting), h.starts_eq⟩
      · simp only [if_neg hcancelled, reschedule]
        split_ifs <;>
          exact ⟨setTask_cancelled id h.cancelled, (fun hstarting => by cases hstarting), h.starts_eq⟩
  | taken other =>
    rw [hthread] at hturn
    rw [← Option.some.inj hturn, lastCheck]
    split_ifs with hcancelled
    · exact ⟨h.cancelled, (fun hstarting => by cases hstarting), h.starts_eq⟩
    · refine ⟨h.cancelled, fun hstarting => ?_, h.starts_eq⟩
      cases hstarting
      exact hcancelled h.cancelled
  | starting other =>
    rw [hthread] at hturn
    have hother : task ≠ other := fun heq => h.not_starting (heq ▸ hthread)
    rw [← Option.some.inj hturn]
    refine ⟨h.cancelled, (fun hstarting => by cases hstarting), ?_⟩
    exact (Function.update_of_ne hother _ s.starts).trans h.starts_eq
  | running other =>
    rw [hthread] at hturn
    rw [← Option.some.inj hturn]
    exact ⟨h.cancelled, (fun hstarting => by cases hstarting), h.starts_eq⟩
  | ended =>
    rw [hthread] at hturn
    cases hturn

theorem Dead.step (h : s.Dead task starts) {e : Event κ} (hs : s.step e = some s') : s'.Dead task starts := by
  cases e with
  | schedule other first =>
    refine h.register (fun s1 hok => ?_) hs
    rw [schedule] at hok
    split_ifs at hok
    exact hok
  | scheduleAtFixedDelay other first period =>
    refine h.register (fun s1 hok => ?_) hs
    rw [scheduleAtFixedDelay] at hok
    split_ifs at hok
    exact hok
  | scheduleAtFixedRate other first period =>
    refine h.register (fun s1 hok => ?_) hs
    rw [scheduleAtFixedRate] at hok
    split_ifs at hok
    exact hok
  | cancelTask other =>
    rw [← Option.some.inj hs]
    exact ⟨setTask_cancelled (fun _ => rfl) h.cancelled, h.not_starting, h.starts_eq⟩
  | cancel =>
    simp only [Timer.step] at hs
    split_ifs at hs
    rw [← Option.some.inj hs]
    exact ⟨h.cancelled, h.not_starting, h.starts_eq⟩
  | purge =>
    simp only [Timer.step] at hs
    split_ifs at hs
    rw [← Option.some.inj hs]
    exact ⟨h.cancelled, h.not_starting, h.starts_eq⟩
  | tick now =>
    simp only [Timer.step] at hs
    split_ifs at hs
    rw [← Option.some.inj hs]
    exact ⟨h.cancelled, h.not_starting, h.starts_eq⟩
  | run => exact h.turn hs

theorem Dead.run (h : s.Dead task starts) {events : List (Event κ)}
    (hrun : run Timer.step s events = some s') : s'.Dead task starts := by
  have hstep : ∀ (s : Timer κ) (e : Event κ) (s' : Timer κ), s.Dead task starts → True → s.step e = some s' →
      s'.Dead task starts := fun _ _ _ hdead _ hs => hdead.step hs
  exact invariant_run hstep h (.of_forall (fun _ _ _ => trivial) s) hrun

/-- In every state that orderly events lead to, all tasks have started as they were scheduled; and one that is
cancelled before the last check does not start any more, whatever the events. -/
theorem timer_safe {now : Int} (hnow : IsLong now) (events : List (Event κ))
    (hall : Always step Orderly (new now) events) (hrun : run step (new now) events = some s) :
    (∀ task, s.registered task = none → s.starts task = []) ∧
      (∀ task r, s.registered task = some r → r.Timely (s.starts task).reverse) ∧
      ∀ task, (s.tasks task).cancelled = true → s.thread ≠ .starting task → ∀ events' s', run step s events' = some s' →
        s'.starts task = s.starts task := by
  have h : s.Consistent :=
    invariant_run (fun _ _ _ h horderly hs => h.step horderly hs) (consistent_new hnow) hall hrun
  refine ⟨h.fresh, ?_, ?_⟩
  · intro task r hr
    have haccount := h.account task r hr
    exact haccount.lawful.timely haccount.requested_le
  · intro task hcancelled hthread events' s' hrun'
    have hdead : s.Dead task (s.starts task) := ⟨hcancelled, hthread, rfl⟩
    exact (hdead.run hrun').starts_eq

instance (now : Int) : (first : FirstTime) → Decidable (first.Regular now)
  | .afterDelay _ => inferInstanceAs (Decidable (_ ∧ True))
  | .atDate _ _ => inferInstanceAs (Decidable (_ ∧ _))

instance (s : Timer κ) : (e : Event κ) → Decidable (s.Orderly e)
  | .schedule _ first | .scheduleAtFixedDelay _ first _ | .scheduleAtFixedRate _ first _ =>
    inferInstanceAs (Decidable (first.Regular s.now))
  | .run => inferInstanceAs (Decidable (s.Prompt s.thread))
  | .cancelTask _ | .cancel | .purge | .tick _ => inferInstanceAs (Decidable True)

/-- A task at a fixed rate that is late, one with a fixed delay, and one that is cancelled while the others run. -/
def threeTasks : List (Event (Fin 3)) :=
  [.scheduleAtFixedRate 0 (.afterDelay 5) 10, .scheduleAtFixedDelay 1 (.atDate 112 90) 20, .schedule 2 (.afterDelay 30),
    .run, .run, .tick 127] ++ List.replicate 6 .run ++ [.cancelTask 2, .tick 128] ++ List.replicate 12 .run ++
    [.tick 140] ++ List.replicate 6 .run ++ [.purge]

theorem timer_safe_threeTasks :
    ∃ s : Timer (Fin 3), run step (new 100) threeTasks = some s ∧
      s.starts 0 = [⟨125, 140⟩, ⟨115, 128⟩, ⟨105, 127⟩] ∧ s.starts 1 = [⟨122, 128⟩] ∧ s.starts 2 = [] ∧
      (∀ task, s.registered task = none → s.starts task = []) ∧
      (∀ task r, s.registered task = some r → r.Timely (s.starts task).reverse) ∧
      ∀ task, (s.tasks task).cancelled = true → s.thread ≠ .starting task → ∀ events' s', run step s events' = some s' →
        s'.starts task = s.starts task := by
  have hnow : IsLong 100 := by decide
  exact ⟨_, rfl, by decide, by decide, by decide, timer_safe hnow threeTasks (by decide) rfl⟩

/-- The thread is held up between the reading from which the next time of a task with a fixed delay is counted and the
start of the task; and at the time `0` of the clock a task can be scheduled twice. -/
theorem timer_not_safe :
    (∃ (s : Timer Bool) (r : Registration), run step (new 100)
        ([.scheduleAtFixedDelay true (.afterDelay 0) 10] ++ List.replicate 4 .run ++ [.tick 150] ++
          List.replicate 7 .run) = some s ∧
      s.registered true = some r ∧ s.starts true = [⟨110, 150⟩, ⟨100, 150⟩] ∧ ¬ r.Timely (s.starts true).reverse) ∧
    ∃ (s : Timer Bool) (r : Registration), run step (new 0)
        ([.schedule true (.afterDelay 0)] ++ List.replicate 6 .run ++ [.schedule true (.afterDelay 0)] ++
          List.replicate 5 .run) = some s ∧
      s.registered true = some r ∧ s.starts true = [⟨0, 0⟩, ⟨0, 0⟩] ∧ ¬ r.Timely (s.starts true).reverse := by
  constructor
  · refine ⟨_, _, rfl, rfl, by decide, ?_⟩
    intro htimely
    exact absurd (htimely.fixed_delay (by decide) rfl) (by decide)
  · refine ⟨_, _, rfl, rfl, by decide, ?_⟩
    intro htimely
    exact absurd (htimely.one_shot (by decide)) (by decide)

end Timer

end ActiveMQCpp.Decaf
