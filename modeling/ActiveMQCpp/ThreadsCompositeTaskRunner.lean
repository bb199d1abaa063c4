import ActiveMQCpp.LibRoundRobin
import ActiveMQCpp.LibRuns

/-! `CompositeTaskRunner`: the rotation of the tasks in `iterate`, and the wakeups of the thread that calls it. -/

namespace ActiveMQCpp.Threads

open Runs RoundRobin List Option

variable {τ : Type}

/-- What the tasks say and do during one call of `iterate`. -/
structure Behaviour (τ : Type) where
  isPending : τ → Bool
  throws : τ → Bool

/-- The tasks that a call ran, its answer unless an exception leaves it, and the list of the tasks after it. -/
structure Iterated (τ : Type) where
  ran : List τ
  answer : Option Bool
  tasks : List τ

/-- The rounds of the loop that are left. The list is as long in every round. -/
def iterateLoop (behaviour : Behaviour τ) : Nat → List τ → Iterated τ
  | 0, tasks => ⟨[], some false, tasks⟩
  | _ + 1, [] => ⟨[], some false, []⟩
  | rounds + 1, task :: tasks =>
    if behaviour.isPending task then
      if behaviour.throws task then ⟨[task], none, tasks⟩ else ⟨[task], some true, tasks ++ [task]⟩
    else iterateLoop behaviour rounds (tasks ++ [task])

def iterate (behaviour : Behaviour τ) (tasks : List τ) : Iterated τ := iterateLoop behaviour tasks.length tasks

/-- Consecutive calls, with the tasks that they run. -/
def iterateTimes (behaviour : Behaviour τ) : Nat → List τ → List τ
  | 0, _ => []
  | n + 1, tasks => (iterate behaviour tasks).ran ++ iterateTimes behaviour n (iterate behaviour tasks).tasks

/-! ### The thread -/

/-- Where the thread is in the loop of `run`. The call of `iterate` holds the lock of the tasks. -/
inductive Position where
  | top
  | starting
  | iterating
  | checking
  | waiting
  | finished
  deriving DecidableEq

/-- `registered` and `unserved` are not fields of the source: the tasks that were added and not removed, and whether a
call of `wakeup` has not been followed by the beginning of an `iterate`. -/
structure TaskRunner (τ : Type) where
  tasks : List τ := []
  pending : Bool := false
  shutdown : Bool := false
  position : Position := .top
  registered : List τ := []
  unserved : Bool := false

inductive RunnerEvent (τ : Type) where
  | wakeup
  | shutdown
  | addTask (task : τ)
  | removeTask (task : τ)
  /-- The thread clears the pending flag. -/
  | clear
  | beginIterate
  | endIterate (behaviour : Behaviour τ)
  /-- The thread looks at the flags after a call that returned false. -/
  | check
  /-- The thread comes back from `wait` and looks at the flags. -/
  | resume

namespace TaskRunner

variable [DecidableEq τ]

def wakeup (s : TaskRunner τ) : TaskRunner τ :=
  if s.shutdown then s else { s with pending := true, unserved := true }

/-- The position after a call of `iterate`; an exception leaves the loop of `run`. -/
def afterIterate : Option Bool → Position
  | some true => .top
  | some false => .checking
  | none => .finished

def step (s : TaskRunner τ) : RunnerEvent τ → Option (TaskRunner τ)
  | .wakeup => some s.wakeup
  | .shutdown => some { s with shutdown := true, pending := true }
  | .addTask task =>
    if s.position = .iterating then none
    else some { s with tasks := s.tasks ++ [task], registered := s.registered ++ [task] }.wakeup
  | .removeTask task =>
    if s.position = .iterating then none
    else some { s with tasks := s.tasks.erase task, registered := s.registered.erase task }.wakeup
  | .clear =>
    if s.position = .top then
      some { s with pending := false, position := if s.shutdown then .finished else .starting }
    else none
  | .beginIterate => if s.position = .starting then some { s with position := .iterating, unserved := false } else none
  | .endIterate behaviour =>
    if s.position = .iterating then
      let result := iterate behaviour s.tasks
      some { s with tasks := result.tasks, position := afterIterate result.answer }
    else none
  | .check =>
    if s.position = .checking then
      some { s with position := if s.shutdown then .finished else if s.pending then .top else .waiting }
    else none
  | .resume =>
    if s.position = .waiting then
      some { s with position := if s.pending || s.shutdown then .top else .waiting }
    else none

end TaskRunner

/-! ### One call -/

variable {behaviour : Behaviour τ} {tasks : List τ}

theorem iterateLoop_eq (behaviour : Behaviour τ) (tasks passed : List τ) :
    iterateLoop behaviour tasks.length (tasks ++ passed) =
      match tasks.dropWhile (!behaviour.isPending ·) with
      | [] => ⟨[], some false, passed ++ tasks⟩
      | task :: rest =>
        if behaviour.throws task then ⟨[task], none, rest ++ passed ++ tasks.takeWhile (!behaviour.isPending ·)⟩
        else ⟨[task], some true, rest ++ passed ++ tasks.takeWhile (!behaviour.isPending ·) ++ [task]⟩ := by
  induction tasks generalizing passed with
  | nil =>
    rw [append_nil]
    rfl
  | cons task tasks ih =>
    rw [length_cons, cons_append, iterateLoop, dropWhile_cons, takeWhile_cons]
    cases behaviour.isPending task with
    | true =>
      simp only [if_true, Bool.not_true, Bool.false_eq_true, if_false, append_nil]
    | false =>
      simp only [Bool.false_eq_true, if_false, Bool.not_false, if_true]
      rw [append_assoc, ih]
      cases tasks.dropWhile (!behaviour.isPending ·) with
      | nil => simp
      | cons first rest => simp

/-- A call is a turn, in which a task that throws is dropped. -/
theorem iterate_eq (behaviour : Behaviour τ) (tasks : List τ) : iterate behaviour tasks =
      match turn behaviour.isPending (!behaviour.throws ·) tasks with
      | none => ⟨[], some false, tasks⟩
      | some (task, rest) => ⟨[task], if behaviour.throws task then none else some true, rest⟩ := by
  have hloop := iterateLoop_eq behaviour tasks []
  rw [append_nil] at hloop
  rw [iterate, hloop, turn]
  cases tasks.dropWhile (!behaviour.isPending ·) with
  | nil => rfl
  | cons task rest =>
    cases hthrows : behaviour.throws task with
    | true => simp [hthrows]
    | false => simp [hthrows]

/-- Consecutive calls serve the tasks that are pending all along. -/
theorem iterateTimes_eq (behaviour : Behaviour τ) (n : Nat) (tasks : List τ) :
    iterateTimes behaviour n tasks = served behaviour.isPending (!behaviour.throws ·) n tasks := by
  induction n generalizing tasks with
  | zero => rfl
  | succ n ih =>
    rw [iterateTimes, served, iterate_eq]
    cases hturn : turn behaviour.isPending (!behaviour.throws ·) tasks with
    | none =>
      have hidle : served behaviour.isPending (!behaviour.throws ·) n tasks = [] := by
        cases n with
        | zero => rfl
        | succ n => rw [served, hturn]
      exact (ih tasks).trans hidle
    | some result => exact congrArg (result.1 :: ·) (ih result.2)

/-- A call runs at most one task, which was pending, answers false only if none was, and keeps the tasks. -/
structure CallSound (behaviour : Behaviour τ) (tasks : List τ) : Prop where
  atMostOne : (iterate behaviour tasks).ran.length ≤ 1
  pending : ∀ task ∈ (iterate behaviour tasks).ran, task ∈ tasks ∧ behaviour.isPending task = true
  idle : (iterate behaviour tasks).answer = some false → ∀ task ∈ tasks, behaviour.isPending task = false
  members : (iterate behaviour tasks).tasks.Perm tasks

/-- The task that is first found pending does not throw. -/
def Calm (behaviour : Behaviour τ) (tasks : List τ) : Prop :=
  ∀ task ∈ tasks.find? behaviour.isPending, behaviour.throws task = false

theorem find_of_turn {keeps : τ → Bool} {rest : List τ} {task : τ}
    (h : turn behaviour.isPending keeps tasks = some (task, rest)) : tasks.find? behaviour.isPending = some task := by
  obtain ⟨others, hbefore, -⟩ := filter_of_turn h
  rw [← List.head?_filter, hbefore]
  rfl

theorem callSound_iff (behaviour : Behaviour τ) (tasks : List τ) : CallSound behaviour tasks ↔ Calm behaviour tasks := by
  have heq := iterate_eq behaviour tasks
  cases hturn : turn behaviour.isPending (!behaviour.throws ·) tasks with
  | none =>
    rw [hturn] at heq
    have hnone := turn_eq_none hturn
    constructor
    · intro _ task htask
      rw [List.find?_eq_none.mpr fun y hy => by rw [hnone y hy]; decide] at htask
      cases htask
    · intro _
      refine ⟨?_, ?_, fun _ => hnone, ?_⟩ <;> rw [heq]
      · exact Nat.zero_le 1
      · intro task htask
        cases htask
  | some result =>
    obtain ⟨task, rest⟩ := result
    rw [hturn] at heq
    dsimp only at heq
    have hfind := find_of_turn hturn
    constructor
    · rintro ⟨-, -, -, hperm⟩ task' htask'
      cases hfind.symm.trans htask'
      by_contra hthrows
      have hlength := length_of_turn hturn (by rw [Bool.of_not_eq_false hthrows]; rfl)
      rw [heq] at hperm
      exact absurd hperm.length_eq (by dsimp only; omega)
    · intro hcalm
      have hthrows := hcalm task hfind
      refine ⟨?_, ?_, ?_, ?_⟩ <;> rw [heq]
      · exact le_refl 1
      · intro task' htask'
        cases mem_singleton.mp htask'
        exact ⟨mem_of_find?_eq_some hfind, List.find?_some hfind⟩
      · intro hidle
        rw [hthrows] at hidle
        cases hidle
      · exact perm_of_turn hturn (by rw [hthrows]; rfl)

/-! ### Runs of the thread -/

theorem answer_of_calm (hcalm : Calm behaviour tasks) : (iterate behaviour tasks).answer ≠ none := by
  rw [iterate_eq]
  cases hturn : turn behaviour.isPending (!behaviour.throws ·) tasks with
  | none => exact some_ne_none false
  | some result =>
    obtain ⟨task, rest⟩ := result
    dsimp only
    rw [hcalm task (find_of_turn hturn)]
    exact some_ne_none true

namespace TaskRunner

variable {s : TaskRunner τ} {events : List (RunnerEvent τ)}

theorem afterIterate_of_ne {answer : Option Bool} (h : answer ≠ none) :
    afterIterate answer = .top ∨ afterIterate answer = .checking := by
  cases answer with
  | none => exact absurd rfl h
  | some answer =>
    cases answer with
    | true => exact .inl rfl
    | false => exact .inr rfl

/-- A call of `iterate` that ends is not left by an exception. -/
def Quiet (s : TaskRunner τ) : RunnerEvent τ → Prop
  | .endIterate behaviour => Calm behaviour s.tasks
  | _ => True

/-- The steps of the thread itself. -/
def isOwnStep : RunnerEvent τ → Bool
  | .clear | .beginIterate | .endIterate _ | .check | .resume => true
  | _ => false

/-- A wakeup that is not served yet is kept by the pending flag, unless the next thing to happen is a call. -/
structure Sound (s : TaskRunner τ) : Prop where
  members : s.tasks.Perm s.registered
  alive : s.shutdown = false → s.position ≠ .finished
  heard : s.unserved = true → s.shutdown = false → s.position = .starting ∨ s.pending = true

theorem sound_init : Sound ({} : TaskRunner τ) := ⟨List.Perm.refl _, fun _ => nofun, nofun⟩

theorem Sound.wakeup (h : Sound s) : Sound s.wakeup := by
  rw [TaskRunner.wakeup]
  split_ifs with hshutdown
  · exact h
  · exact ⟨h.members, h.alive, fun _ _ => .inr rfl⟩

/-- Away from a call that is about to begin it is the flag that keeps the wakeup. -/
theorem Sound.pending_of_ne (h : Sound s) (hposition : s.position ≠ .starting) (hunserved : s.unserved = true)
    (hopen : s.shutdown = false) : s.pending = true :=
  (h.heard hunserved hopen).resolve_left hposition

theorem wakeup_shutdown (s : TaskRunner τ) : s.wakeup.shutdown = s.shutdown := by
  rw [wakeup]
  split_ifs <;> rfl

theorem wakeup_position (s : TaskRunner τ) : s.wakeup.position = s.position := by
  rw [wakeup]
  split_ifs <;> rfl

theorem wakeup_unserved (s : TaskRunner τ) (h : s.unserved = true) : s.wakeup.unserved = true := by
  rw [wakeup]
  split_ifs
  · exact h
  · rfl

variable [DecidableEq τ] {s s' : TaskRunner τ} {e : RunnerEvent τ}

theorem sound_step (h : Sound s) (hquiet : Quiet s e) (hstep : step s e = some s') : Sound s' := by
  cases e with
  | wakeup =>
    cases hstep
    exact h.wakeup
  | shutdown =>
    cases hstep
    exact ⟨h.members, nofun, fun _ => nofun⟩
  | addTask task =>
    obtain ⟨-, heq⟩ := ite_none_left_eq_some.mp hstep
    cases heq
    have hadded : Sound { s with tasks := s.tasks ++ [task], registered := s.registered ++ [task] } :=
      ⟨h.members.append_right _, h.alive, h.heard⟩
    exact hadded.wakeup
  | removeTask task =>
    obtain ⟨-, heq⟩ := ite_none_left_eq_some.mp hstep
    cases heq
    have hremoved : Sound { s with tasks := s.tasks.erase task, registered := s.registered.erase task } :=
      ⟨h.members.erase task, h.alive, h.heard⟩
    exact hremoved.wakeup
  | clear =>
    obtain ⟨-, heq⟩ := ite_none_right_eq_some.mp hstep
    cases heq
    have hnext : s.shutdown = false → (if s.shutdown then Position.finished else .starting) = .starting :=
      fun hopen => if_neg (by rw [hopen]; decide)
    refine ⟨h.members, fun hopen => ?_, fun _ hopen => .inl (hnext hopen)⟩
    rw [hnext hopen]
    exact nofun
  | beginIterate =>
    obtain ⟨-, heq⟩ := ite_none_right_eq_some.mp hstep
    cases heq
    exact ⟨h.members, fun _ => nofun, nofun⟩
  | endIterate behaviour =>
    obtain ⟨hposition, heq⟩ := ite_none_right_eq_some.mp hstep
    cases heq
    have hsound := (callSound_iff behaviour s.tasks).mpr hquiet
    refine ⟨hsound.members.trans h.members, fun _ => ?_, fun hunserved hopen => .inr ?_⟩
    · obtain hafter | hafter := afterIterate_of_ne (answer_of_calm hquiet)
      · rw [hafter]
        exact nofun
      · rw [hafter]
        exact nofun
    · exact h.pending_of_ne (by rw [hposition]; exact nofun) hunserved hopen
  | check =>
    obtain ⟨hposition, heq⟩ := ite_none_right_eq_some.mp hstep
    cases heq
    refine ⟨h.members, fun hopen => ?_, fun hunserved hopen => .inr ?_⟩
    · rw [if_neg (by rw [hopen]; decide)]
      split_ifs
      · exact nofun
      · exact nofun
    · exact h.pending_of_ne (by rw [hposition]; exact nofun) hunserved hopen
  | resume =>
    obtain ⟨hposition, heq⟩ := ite_none_right_eq_some.mp hstep
    cases heq
    refine ⟨h.members, fun _ => ?_, fun hunserved hopen => .inr ?_⟩
    · split_ifs
      · exact nofun
      · exact nofun
    · exact h.pending_of_ne (by rw [hposition]; exact nofun) hunserved hopen

/-- How many steps of the thread are left before it begins a call when the pending flag is set. -/
def distance : Position → Nat
  | .starting => 1
  | .top => 2
  | .checking => 3
  | .waiting => 3
  | .iterating => 4
  | .finished => 0

theorem shutdown_step (hstep : step s e = some s') (hopen : s'.shutdown = false) : s.shutdown = false := by
  cases e with
  | wakeup =>
    cases hstep
    rwa [wakeup_shutdown] at hopen
  | shutdown =>
    cases hstep
    cases hopen
  | addTask | removeTask =>
    obtain ⟨-, heq⟩ := ite_none_left_eq_some.mp hstep
    cases heq
    rwa [wakeup_shutdown] at hopen
  | clear | beginIterate | endIterate | check | resume =>
    obtain ⟨-, heq⟩ := ite_none_right_eq_some.mp hstep
    cases heq
    exact hopen

/-- As long as a wakeup is not served, every step of the thread brings it nearer to a call, and no other step takes it
further away. -/
theorem distance_step (h : Sound s) (hunserved : s.unserved = true) (hquiet : Quiet s e) (hstep : step s e = some s')
    (hopen : s'.shutdown = false) :
    e = .beginIterate ∨ s'.unserved = true ∧
      distance s'.position + (if isOwnStep e then 1 else 0) ≤ distance s.position := by
  have hstart := shutdown_step hstep hopen
  cases e with
  | wakeup =>
    cases hstep
    exact .inr ⟨wakeup_unserved s hunserved, by rw [wakeup_position]; exact le_refl _⟩
  | shutdown =>
    cases hstep
    cases hopen
  | addTask | removeTask =>
    obtain ⟨-, heq⟩ := ite_none_left_eq_some.mp hstep
    cases heq
    exact .inr ⟨wakeup_unserved _ hunserved, by rw [wakeup_position]; exact le_refl _⟩
  | beginIterate => exact .inl rfl
  | clear =>
    obtain ⟨hposition, heq⟩ := ite_none_right_eq_some.mp hstep
    cases heq
    refine .inr ⟨hunserved, ?_⟩
    rw [hposition, if_neg (by rw [hstart]; decide)]
    exact (by decide : 1 + 1 ≤ 2)
  | endIterate behaviour =>
    obtain ⟨hposition, heq⟩ := ite_none_right_eq_some.mp hstep
    cases heq
    refine .inr ⟨hunserved, ?_⟩
    rw [hposition]
    obtain hafter | hafter := afterIterate_of_ne (answer_of_calm hquiet)
    · rw [hafter]
      exact (by decide : 2 + 1 ≤ 4)
    · rw [hafter]
      exact (by decide : 3 + 1 ≤ 4)
  | check =>
    obtain ⟨hposition, heq⟩ := ite_none_right_eq_some.mp hstep
    cases heq
    refine .inr ⟨hunserved, ?_⟩
    rw [hposition, if_neg (by rw [hstart]; decide),
      if_pos (h.pending_of_ne (by rw [hposition]; exact nofun) hunserved hstart)]
    exact (by decide : 2 + 1 ≤ 3)
  | resume =>
    obtain ⟨hposition, heq⟩ := ite_none_right_eq_some.mp hstep
    cases heq
    refine .inr ⟨hunserved, ?_⟩
    rw [hposition, h.pending_of_ne (by rw [hposition]; exact nofun) hunserved hstart]
    exact (by decide : 2 + 1 ≤ 3)

theorem shutdown_run (hrun : run step s events = some s') (hopen : s'.shutdown = false) : s.shutdown = false := by
  induction events generalizing s with
  | nil =>
    cases hrun
    exact hopen
  | cons e events ih =>
    obtain ⟨t, hstep, hrest⟩ := run_cons.mp hrun
    exact shutdown_step hstep (ih hrest)

/-- A run in which no call begins has not more steps of the thread than it was away from one. -/
theorem distance_run (h : Sound s) (hunserved : s.unserved = true)
    (hquiet : Always step Quiet s events) (hrun : run step s events = some s') (hopen : s'.shutdown = false)
    (hnone : .beginIterate ∉ events) :
    distance s'.position + events.countP isOwnStep ≤ distance s.position ∧ s'.position ≠ .finished := by
  induction events generalizing s with
  | nil =>
    cases hrun
    exact ⟨le_refl _, h.alive hopen⟩
  | cons e events ih =>
    obtain ⟨t, hstep, hrest⟩ := run_cons.mp hrun
    obtain ⟨hquiet, hquietRest⟩ := (always_cons hstep).mp hquiet
    obtain rfl | ⟨hstill, hle⟩ := distance_step h hunserved hquiet hstep (shutdown_run hrest hopen)
    · exact absurd mem_cons_self hnone
    · obtain ⟨hdistance, halive⟩ := ih (sound_step h hquiet hstep) hstill hquietRest hrest
        fun hmem => hnone (mem_cons_of_mem e hmem)
      refine ⟨?_, halive⟩
      rw [countP_cons]
      omega

/-- A wakeup that is not served yet leaves the thread able to go on, and its next four steps, whatever happens in
between, include the beginning of a call. -/
def NotLost (s : TaskRunner τ) : Prop :=
  s.unserved = true → s.shutdown = false →
    (∃ e s', isOwnStep e = true ∧ step s e = some s') ∧
    ∀ events s', Always step Quiet s events → run step s events = some s' → s'.shutdown = false →
      4 ≤ events.countP isOwnStep → .beginIterate ∈ events

theorem own_step (hposition : s.position ≠ .finished) : ∃ e s', isOwnStep e = true ∧ step s e = some s' := by
  cases hp : s.position with
  | top => exact ⟨.clear, _, rfl, if_pos hp⟩
  | starting => exact ⟨.beginIterate, _, rfl, if_pos hp⟩
  | iterating => exact ⟨.endIterate ⟨fun _ => false, fun _ => false⟩, _, rfl, if_pos hp⟩
  | checking => exact ⟨.check, _, rfl, if_pos hp⟩
  | waiting => exact ⟨.resume, _, rfl, if_pos hp⟩
  | finished => exact absurd hp hposition

theorem Sound.notLost (h : Sound s) : NotLost s := by
  intro hunserved hopen
  refine ⟨own_step (h.alive hopen), fun events s' hquiet hrun hopen' hfour => ?_⟩
  by_contra hnone
  obtain ⟨hle, halive⟩ := distance_run h hunserved hquiet hrun hopen' hnone
  have hmax : ∀ position, distance position ≤ 4 := by
    intro position
    cases position <;> decide
  have hpositive : 0 < distance s'.position := by
    cases hp : s'.position with
    | finished => exact absurd hp halive
    | _ => decide
  have := hmax s.position
  omega

end TaskRunner

open TaskRunner

/-- Every call is sound when the task it runs does not throw, a round of calls runs each task that stays pending once,
and in a run without exceptions the thread has the tasks that are registered and loses no wakeup. -/
theorem taskRunner_sound [DecidableEq τ] :
    (∀ (behaviour : Behaviour τ) (tasks : List τ), CallSound behaviour tasks ↔ Calm behaviour tasks) ∧
    (∀ (behaviour : Behaviour τ) (tasks : List τ),
      iterateTimes behaviour (tasks.filter behaviour.isPending).length tasks = tasks.filter behaviour.isPending) ∧
    ∀ events : List (RunnerEvent τ), Always step Quiet {} events →
      Throughout step (fun s => s.tasks.Perm s.registered ∧ NotLost s) {} events := by
  refine ⟨callSound_iff, fun behaviour tasks => ?_, fun events hquiet => ?_⟩
  · rw [iterateTimes_eq]
    exact served_round
  · exact hquiet.throughout (fun s e s' hs => sound_step hs) (fun s hs => ⟨hs.members, hs.notLost⟩) sound_init

/-- A wakeup between the clearing of the flag and the wait. -/
theorem taskRunner_wakes :
    Throughout step (fun s => s.tasks.Perm s.registered ∧ NotLost s) ({} : TaskRunner Nat)
      [.addTask 1, .clear, .beginIterate, .endIterate ⟨fun _ => false, fun _ => false⟩, .wakeup, .check] :=
  taskRunner_sound.2.2 _
    ⟨trivial, fun _ _ => ⟨trivial, fun _ _ => ⟨trivial, fun _ _ => ⟨fun _ _ => rfl, fun _ _ =>
      ⟨trivial, fun _ _ => ⟨trivial, fun _ _ => trivial⟩⟩⟩⟩⟩⟩

/-- The only task throws, and is not registered any more. -/
theorem task_lost : ¬ CallSound ⟨fun _ => true, fun _ => true⟩ [1] := by
  rintro ⟨-, -, -, hmembers⟩
  exact absurd hmembers.length_eq (by decide)

end ActiveMQCpp.Threads
