import ActiveMQCpp.DecafTimerTaskHeap
import ActiveMQCpp.LibMachineInt

/-! `decaf::util::Timer`: the threads that schedule and cancel tasks, and the one that runs them. -/

namespace ActiveMQCpp.Decaf

open MachineInt

variable {κ : Type}

/-- A value of type `long long`. -/
def IsLong (x : Int) : Prop := -9223372036854775808 ≤ x ∧ x < 9223372036854775808

instance (x : Int) : Decidable (IsLong x) := inferInstanceAs (Decidable (_ ∧ _))

/-- A time of `0` is none, and a negative period that of a task which runs once. -/
structure TimerTask where
  fixedRate : Bool := false
  cancelled : Bool := false
  scheduledTime : Int := 0
  when : Int := 0
  period : Int := -1
  deriving DecidableEq

def TimerTask.isScheduled (task : TimerTask) : Bool := task.when > 0 || task.scheduledTime > 0

/-- Where the thread is in the loop of `run`: before it, with the first task of the heap and the time that it has
read, with a task that it has found due, past the monitor with a task that it may run, behind the last check of
that, and in the task. -/
inductive TimerThread (κ : Type) where
  | looping
  | peeked (task : κ) (currentTime : Int)
  | due (task : κ)
  | taken (task : κ)
  | starting (task : κ)
  | running (task : κ)
  | ended
  deriving DecidableEq

def TimerThread.holdsMonitor : TimerThread κ → Bool
  | .peeked _ _ | .due _ => true
  | _ => false

/-- What the caller asked for, and the time that the task was scheduled at. -/
structure Registration where
  requested : Int
  first : Int
  period : Int
  fixedRate : Bool
  deriving DecidableEq

/-- The scheduled time of an execution and the time at which it starts. -/
structure Start where
  scheduledTime : Int
  time : Int
  deriving DecidableEq

/-- The timer and its tasks at a time of the clock, and what has happened to every task: how it was scheduled and
its starts, the last one first. -/
structure Timer (κ : Type) where
  now : Int
  tasks : κ → TimerTask := fun _ => {}
  heap : List κ := []
  cancelled : Bool := false
  thread : TimerThread κ := .looping
  registered : κ → Option Registration := fun _ => none
  starts : κ → List Start := fun _ => []

inductive TimerException where
  | illegalArgumentException
  | illegalStateException
  deriving DecidableEq

/-- The time of the first execution: after a delay, or at a date, for which the clock is read first. -/
inductive FirstTime where
  | afterDelay (delay : Int)
  | atDate (date reading : Int)

namespace FirstTime

/-- The delay that the overloads of `schedule` pass on. -/
def toDelay : FirstTime → Int
  | .afterDelay delay => delay
  | .atDate date reading =>
    let delay := toInt64 (date - reading)
    if delay < 0 then 0 else delay

def valid : FirstTime → Bool
  | .afterDelay delay => 0 ≤ delay
  | .atDate date _ => 0 ≤ date

/-- The values are of type `long long`, and the clock has been read before now. -/
def possible (now : Int) : FirstTime → Prop
  | .afterDelay delay => IsLong delay
  | .atDate date reading => IsLong date ∧ IsLong reading ∧ reading ≤ now

instance (now : Int) : (first : FirstTime) → Decidable (first.possible now)
  | .afterDelay _ => inferInstanceAs (Decidable (IsLong _))
  | .atDate _ _ => inferInstanceAs (Decidable (_ ∧ _ ∧ _))

def requested (now : Int) : FirstTime → Int
  | .afterDelay delay => now + delay
  | .atDate date _ => date

end FirstTime

namespace Timer

def due (s : Timer κ) (task : κ) : Int := (s.tasks task).when

variable [DecidableEq κ]

def setTask (s : Timer κ) (task : κ) (state : TimerTask) : Timer κ :=
  { s with tasks := Function.update s.tasks task state }

/-- `insertTask`; the thread that is notified may wake up at any time. -/
def insertTask (s : Timer κ) (task : κ) : Timer κ := { s with heap := TimerTaskHeap.insert s.due task s.heap }

/-! ### Scheduling and cancelling -/

def scheduleTask (s : Timer κ) (task : κ) (delay period : Int) (fixed : Bool) : Except TimerException (Timer κ) :=
  if s.cancelled then .error .illegalStateException
  else
    let when := toInt64 (delay + s.now)
    if when < 0 then .error .illegalArgumentException
    else if (s.tasks task).isScheduled then .error .illegalStateException
    else if (s.tasks task).cancelled then .error .illegalStateException
    else .ok ((s.setTask task { s.tasks task with when, period, fixedRate := fixed }).insertTask task)

def schedule (s : Timer κ) (task : κ) (first : FirstTime) : Except TimerException (Timer κ) :=
  if first.valid then s.scheduleTask task first.toDelay (-1) false else .error .illegalArgumentException

def scheduleAtFixedDelay (s : Timer κ) (task : κ) (first : FirstTime) (period : Int) :
    Except TimerException (Timer κ) :=
  if ¬ first.valid then .error .illegalArgumentException
  else if period ≤ 0 then .error .illegalArgumentException
  else s.scheduleTask task first.toDelay period false

def scheduleAtFixedRate (s : Timer κ) (task : κ) (first : FirstTime) (period : Int) :
    Except TimerException (Timer κ) :=
  if ¬ first.valid then .error .illegalArgumentException
  else if period ≤ 0 then .error .illegalArgumentException
  else s.scheduleTask task first.toDelay period true

def cancelTask (s : Timer κ) (task : κ) : Bool × Timer κ :=
  let state := s.tasks task
  (!state.cancelled && state.when > 0, s.setTask task { state with cancelled := true })

def cancel (s : Timer κ) : Timer κ := { s with cancelled := true, heap := [] }

def purge (s : Timer κ) : Nat × Timer κ :=
  let (result, heap) := TimerTaskHeap.deleteIfCancelled s.due (fun task => (s.tasks task).cancelled) s.heap
  (result, { s with heap })

/-! ### The thread of the timer -/

/-- The monitor is entered. A `wait` may end at any time, and the loop starts again after it. -/
def peek (s : Timer κ) : Timer κ :=
  if s.cancelled then { s with thread := .ended }
  else
    match s.heap with
    | [] => s
    | task :: _ => { s with thread := .peeked task s.now }

/-- The first block with the lock of the task. The `continue` of a cancelled task leaves only this block, which is
a loop of the macro `synchronized`, and the time to sleep is still `0` behind it. -/
def checkTime (s : Timer κ) (task : κ) (currentTime : Int) : Timer κ :=
  if (s.tasks task).cancelled then
    { s with heap := TimerTaskHeap.remove s.due 0 s.heap, thread := .due task }
  else if toInt64 ((s.tasks task).when - currentTime) > 0 then { s with thread := .looping }
  else { s with thread := .due task }

/-- The task is taken from the heap, and inserted again for its next execution. -/
def reschedule (s : Timer κ) (task : κ) (pos : Option Nat) : Timer κ :=
  let state := s.tasks task
  let s := { s with
    heap := match pos with
      | some pos => TimerTaskHeap.remove s.due pos s.heap
      | none => s.heap
    thread := .taken task }
  if state.period ≥ 0 then
    let when := if state.fixedRate then toInt64 (state.when + state.period) else toInt64 (s.now + state.period)
    (s.setTask task { state with scheduledTime := state.when, when }).insertTask task
  else s.setTask task { state with scheduledTime := state.when, when := 0 }

/-- The second block with the lock of the task. An empty heap has no first task, and the exception for that ends
the thread. -/
def take (s : Timer κ) (task : κ) : Timer κ :=
  match s.heap with
  | [] => { s with thread := .ended }
  | first :: _ =>
    let pos := if s.due first ≠ s.due task then TimerTaskHeap.find task s.heap else some 0
    if (s.tasks task).cancelled then
      { s with heap := TimerTaskHeap.removeTask s.due task s.heap, thread := .taken task }
    else s.reschedule task pos

/-- The last check whether the task was cancelled. -/
def lastCheck (s : Timer κ) (task : κ) : Timer κ :=
  { s with thread := if (s.tasks task).cancelled then .looping else .starting task }

def start (s : Timer κ) (task : κ) : Timer κ :=
  { s with
    thread := .running task
    starts := Function.update s.starts task (⟨(s.tasks task).scheduledTime, s.now⟩ :: s.starts task) }

/-- What the thread does next in `run`. -/
def turn (s : Timer κ) : Option (Timer κ) :=
  match s.thread with
  | .looping => some s.peek
  | .peeked task currentTime => some (s.checkTime task currentTime)
  | .due task => some (s.take task)
  | .taken task => some (s.lastCheck task)
  | .starting task => some (s.start task)
  | .running _ => some { s with thread := .looping }
  | .ended => none

/-! ### Events -/

inductive Event (κ : Type) where
  | schedule (task : κ) (first : FirstTime)
  | scheduleAtFixedDelay (task : κ) (first : FirstTime) (period : Int)
  | scheduleAtFixedRate (task : κ) (first : FirstTime) (period : Int)
  | cancelTask (task : κ)
  | cancel
  | purge
  /-- The clock, which does not go back. -/
  | tick (now : Int)
  | run

/-- A call that schedules a task, which needs the monitor; one that throws has no effect. -/
def register (s : Timer κ) (task : κ) (first : FirstTime) (period : Int) (fixedRate : Bool)
    (result : Except TimerException (Timer κ)) : Option (Timer κ) :=
  if s.thread.holdsMonitor = false ∧ first.possible s.now ∧ IsLong period then
    match result with
    | .error _ => some s
    | .ok s' => some { s' with
        registered := Function.update s.registered task
          (some { requested := first.requested s.now, first := s'.due task, period, fixedRate }) }
  else none

def step (s : Timer κ) : Event κ → Option (Timer κ)
  | .schedule task first => s.register task first (-1) false (s.schedule task first)
  | .scheduleAtFixedDelay task first period =>
    s.register task first period false (s.scheduleAtFixedDelay task first period)
  | .scheduleAtFixedRate task first period =>
    s.register task first period true (s.scheduleAtFixedRate task first period)
  | .cancelTask task => some (s.cancelTask task).2
  | .cancel => if s.thread.holdsMonitor then none else some s.cancel
  | .purge => if s.thread.holdsMonitor then none else some s.purge.2
  | .tick now => if s.now ≤ now ∧ IsLong now then some { s with now } else none
  | .run => s.turn

end Timer

end ActiveMQCpp.Decaf
