import ActiveMQCpp.LibRuns

/-! Closing a session. In an XA transaction the session is meant to stay open until the transaction has ended,
by a synchronization that closes it then. -/

namespace ActiveMQCpp.Core

open Runs

/-- `active` from `start` to `end`, when `isInXATransaction` holds, and `ended` until the transaction is
committed or rolled back. -/
inductive XAPhase where
  | none
  | active
  | ended
  deriving DecidableEq

/-- The parts of a session and its transaction context that closing depends on. `synchronizations` is the
number of close synchronizations that the context holds, `registrations` that of all it was ever given and
`disposals` the number of times the body of `dispose` has run. -/
structure ClosingSession where
  closed : Bool := false
  synchronizationRegistered : Bool := false
  phase : XAPhase := .none
  synchronizations : Nat := 0
  registrations : Nat := 0
  disposals : Nat := 0

namespace ClosingSession

variable {s : ClosingSession}

/-- The second value tells whether the call returns: the rollback at the end of `dispose` throws while the id
of an XA transaction is still set. -/
def dispose (s : ClosingSession) : ClosingSession × Bool :=
  if s.closed then (s, true)
  else ({ s with closed := true, disposals := s.disposals + 1 }, s.phase ≠ .active)

/-- With a `healthy` connection the broker is told. -/
def doClose (s : ClosingSession) (healthy : Bool) : ClosingSession × Bool :=
  let (s, returned) := s.dispose
  (s, returned && healthy)

/-- The flag is tested the wrong way round: the first call sets it, every later one registers. -/
def close (s : ClosingSession) (healthy : Bool) : ClosingSession :=
  if s.closed then s
  else if s.phase = .active then
    if s.synchronizationRegistered then
      { s with synchronizations := s.synchronizations + 1, registrations := s.registrations + 1 }
    else { s with synchronizationRegistered := true }
  else (s.doClose healthy).1

/-- The loop over the synchronizations; `afterCommit` and `afterRollback` of each do the same. -/
def notify (healthy : Bool) : Nat → ClosingSession → ClosingSession
  | 0, s => s
  | n + 1, s =>
    let (s, returned) := s.doClose healthy
    if returned then notify healthy n { s with synchronizationRegistered := false } else s

/-- The synchronizations are forgotten however the loop ends. -/
def complete (s : ClosingSession) (healthy : Bool) : ClosingSession :=
  { notify healthy s.synchronizations s with synchronizations := 0 }

inductive Event where
  | start
  | close (healthy : Bool)
  | «end»
  | commit (healthy : Bool)
  | rollback (succeeds healthy : Bool)

/-- One transaction at a time. A commit before the end is refused, and one that fails is treated as a
rollback; a rollback is not refused then, and one that fails changes nothing. -/
def step (s : ClosingSession) : Event → Option ClosingSession
  | .start => if s.phase = .none then some { s with phase := .active, synchronizations := 0 } else none
  | .close healthy => some (s.close healthy)
  | .end => if s.phase = .active then some { s with phase := .ended } else none
  | .commit healthy =>
    match s.phase with
    | .none => none
    | .active => some s
    | .ended => some { s.complete healthy with phase := .none }
  | .rollback succeeds healthy =>
    match s.phase with
    | .none => none
    | .active => some (if succeeds then s.complete healthy else s)
    | .ended => some (if succeeds then { s.complete healthy with phase := .none } else s)

/-! ### Calls -/

theorem doClose_of_closed (h : s.closed = true) (healthy : Bool) : s.doClose healthy = (s, healthy) := by
  simp [doClose, dispose, h]

theorem doClose_of_open (h : s.closed = false) (healthy : Bool) :
    (s.doClose healthy).1 = { s with closed := true, disposals := s.disposals + 1 } := by
  simp [doClose, dispose, h]

theorem notify_of_closed (h : s.closed = true) (healthy : Bool) (n : Nat) :
    ∃ registered, notify healthy n s = { s with synchronizationRegistered := registered } := by
  induction n generalizing s with
  | zero => exact ⟨s.synchronizationRegistered, rfl⟩
  | succ n ih =>
    rw [notify, doClose_of_closed h]
    cases healthy with
    | true =>
      obtain ⟨registered, hrest⟩ := ih (s := { s with synchronizationRegistered := false }) h
      exact ⟨registered, hrest⟩
    | false => exact ⟨s.synchronizationRegistered, rfl⟩

theorem complete_of_closed (h : s.closed = true) (healthy : Bool) :
    ∃ registered, s.complete healthy = { s with synchronizationRegistered := registered, synchronizations := 0 } := by
  obtain ⟨registered, hnotify⟩ := notify_of_closed h healthy s.synchronizations
  exact ⟨registered, by rw [complete, hnotify]⟩

theorem complete_of_none (h : s.synchronizations = 0) (healthy : Bool) : s.complete healthy = s := by
  rw [complete, h, notify, ← h]

theorem complete_of_one (hopen : s.closed = false) (h : s.synchronizations = 1) (healthy : Bool) :
    ∃ registered, s.complete healthy = { s with
      closed := true
      disposals := s.disposals + 1
      synchronizationRegistered := registered
      synchronizations := 0 } := by
  have hone : notify healthy 1 s = if (s.doClose healthy).2 then
      { (s.doClose healthy).1 with synchronizationRegistered := false } else (s.doClose healthy).1 := rfl
  rw [complete, h, hone, doClose_of_open hopen]
  split_ifs
  · exact ⟨false, rfl⟩
  · exact ⟨s.synchronizationRegistered, rfl⟩

theorem phase_doClose (s : ClosingSession) (healthy : Bool) : (s.doClose healthy).1.phase = s.phase := by
  cases h : s.closed with
  | true => rw [doClose_of_closed h]
  | false => rw [doClose_of_open h]

theorem phase_notify (healthy : Bool) (n : Nat) (s : ClosingSession) : (notify healthy n s).phase = s.phase := by
  induction n generalizing s with
  | zero => rfl
  | succ n ih =>
    rw [notify]
    dsimp only
    split_ifs
    · rw [ih]
      exact phase_doClose s healthy
    · exact phase_doClose s healthy

end ClosingSession

/-- A session together with what is expected of it: the number of times it has been closed in the current
transaction, and whether it should be gone by now. -/
structure Watched where
  session : ClosingSession := {}
  closes : Nat := 0
  due : Bool := false

namespace Watched

open ClosingSession

variable {w w' : Watched} {e : Event}
variable {healthy : Bool}

/-- A session that is closed in a transaction is due at the end of the transaction, any other at once. -/
def expect (w : Watched) : Event → Nat × Bool
  | .close _ =>
    if w.due then (w.closes, w.due)
    else
      match w.session.phase with
      | .none => (0, true)
      | .active => (w.closes + 1, false)
      | .ended => if w.closes = 0 then (0, true) else (w.closes, false)
  | .commit _ => if w.session.phase = .ended ∧ w.closes ≠ 0 then (0, true) else (w.closes, w.due)
  | .rollback succeeds _ => if succeeds ∧ w.closes ≠ 0 then (0, true) else (w.closes, w.due)
  | _ => (w.closes, w.due)

def step (w : Watched) (e : Event) : Option Watched :=
  (w.session.step e).map fun session => ⟨session, (w.expect e).1, (w.expect e).2⟩

/-- The session has been disposed of once if it is due, not at all before, and has registered at most once. -/
def Timely (w : Watched) : Prop :=
  w.session.disposals = (if w.due then 1 else 0) ∧ w.session.registrations ≤ 1

/-- A transaction in which the session is closed ends after the second time, and no third time comes before
that; between the end and the outcome of the transaction the session is not closed again. -/
def ClosedTwice (w : Watched) : Event → Prop
  | .close _ =>
    match w.session.phase with
    | .none => True
    | .active => w.closes < 2
    | .ended => w.closes = 0
  | .commit _ => w.session.phase = .ended → w.closes ≠ 1
  | .rollback succeeds _ => succeeds = true → w.closes ≠ 1
  | _ => True

/-! ### Runs -/

/-- How far an open session has come: it is untouched, or closed once without a synchronization, or closed
twice with one. -/
inductive Pending (s : ClosingSession) : Nat → Prop
  | untouched (hflag : s.synchronizationRegistered = false) (hnone : s.synchronizations = 0)
      (hnever : s.registrations = 0) : Pending s 0
  | once (hphase : s.phase ≠ .none) (hflag : s.synchronizationRegistered = true) (hnone : s.synchronizations = 0)
      (hnever : s.registrations = 0) : Pending s 1
  | twice (hphase : s.phase ≠ .none) (hflag : s.synchronizationRegistered = true) (hone : s.synchronizations = 1)
      (honce : s.registrations = 1) : Pending s 2

/-- A session that is due is gone, and one that is not is pending. -/
def Inv (w : Watched) : Prop :=
  if w.due then
    w.session.closed = true ∧ w.closes = 0 ∧ w.session.disposals = 1 ∧ w.session.registrations ≤ 1
  else w.session.closed = false ∧ w.session.disposals = 0 ∧ Pending w.session w.closes

theorem inv_of_due (hdue : w.due = true) : w.Inv ↔
    w.session.closed = true ∧ w.closes = 0 ∧ w.session.disposals = 1 ∧ w.session.registrations ≤ 1 := by
  rw [Inv, if_pos hdue]

theorem inv_of_not_due (hdue : w.due = false) : w.Inv ↔
    w.session.closed = false ∧ w.session.disposals = 0 ∧ Pending w.session w.closes := by
  rw [Inv, if_neg (by rw [hdue]; decide)]

theorem Pending.registrations_le {s : ClosingSession} {n : Nat} (h : Pending s n) : s.registrations ≤ 1 := by
  cases h <;> omega

theorem Inv.timely (h : w.Inv) : w.Timely := by
  cases hdue : w.due with
  | true =>
    obtain ⟨-, -, honce, hregistrations⟩ := (inv_of_due hdue).mp h
    exact ⟨by rw [hdue, if_pos rfl, honce], hregistrations⟩
  | false =>
    obtain ⟨-, hnever, hpending⟩ := (inv_of_not_due hdue).mp h
    exact ⟨by rw [hdue, if_neg (by decide), hnever], hpending.registrations_le⟩

theorem step_eq_some (h : w.step e = some w') :
    ∃ session, w.session.step e = some session ∧ w' = ⟨session, (w.expect e).1, (w.expect e).2⟩ := by
  obtain ⟨session, hsession, rfl⟩ := Option.map_eq_some_iff.mp h
  exact ⟨session, hsession, rfl⟩

theorem fine (hcondition : w.ClosedTwice e) (hinv : w'.Inv) :
    (w'.Timely ↔ w.ClosedTwice e) ∧ (w.ClosedTwice e → w'.Inv) :=
  ⟨iff_of_true hinv.timely hcondition, fun _ => hinv⟩

theorem broken (hcondition : ¬w.ClosedTwice e) (htimely : ¬w'.Timely) :
    (w'.Timely ↔ w.ClosedTwice e) ∧ (w.ClosedTwice e → w'.Inv) :=
  ⟨iff_of_false htimely hcondition, fun h => absurd h hcondition⟩

theorem step_close_due (hinv : w.Inv) (hdue : w.due = true) (h : w.step (.close healthy) = some w') :
    (w'.Timely ↔ w.ClosedTwice (.close healthy)) ∧ (w.ClosedTwice (.close healthy) → w'.Inv) := by
  obtain ⟨hclosed, hcloses, honce, hregistrations⟩ := (inv_of_due hdue).mp hinv
  obtain ⟨session, hsession, rfl⟩ := step_eq_some h
  have hsame : session = w.session := by
    rw [ClosingSession.step, close, if_pos hclosed] at hsession
    exact (Option.some.inj hsession).symm
  have hexpect : w.expect (.close healthy) = (w.closes, w.due) := by
    rw [expect, if_pos hdue]
  refine fine ?_ ?_
  · simp only [ClosedTwice]
    split
    · trivial
    · omega
    · exact hcloses
  · rw [hexpect, hsame]
    exact hinv

theorem step_close_open (hinv : w.Inv) (hdue : w.due = false) (h : w.step (.close healthy) = some w') :
    (w'.Timely ↔ w.ClosedTwice (.close healthy)) ∧ (w.ClosedTwice (.close healthy) → w'.Inv) := by
  obtain ⟨hclosed, hnever, hpending⟩ := (inv_of_not_due hdue).mp hinv
  obtain ⟨session, hsession, rfl⟩ := step_eq_some h
  rw [ClosingSession.step, Option.some.injEq] at hsession
  subst hsession
  have hgone : w.session.phase ≠ .active →
      w.session.close healthy = { w.session with closed := true, disposals := w.session.disposals + 1 } := by
    intro hphase
    rw [close, if_neg (by rw [hclosed]; decide), if_neg hphase, doClose_of_open hclosed]
  cases hphase : w.session.phase with
  | none =>
    have hexpect : w.expect (.close healthy) = (0, true) := by
      rw [expect, if_neg (by rw [hdue]; decide), hphase]
    refine fine (by simp only [ClosedTwice, hphase]) ?_
    rw [hexpect, hgone (by rw [hphase]; decide)]
    exact (inv_of_due rfl).mpr ⟨rfl, rfl, by rw [hnever], hpending.registrations_le⟩
  | active =>
    have hexpect : w.expect (.close healthy) = (w.closes + 1, false) := by
      rw [expect, if_neg (by rw [hdue]; decide), hphase]
    have hclose : w.session.close healthy = if w.session.synchronizationRegistered then
        { w.session with synchronizations := w.session.synchronizations + 1, registrations := w.session.registrations + 1 }
        else { w.session with synchronizationRegistered := true } := by
      rw [close, if_neg (by rw [hclosed]; decide), if_pos hphase]
    have hcondition : w.ClosedTwice (.close healthy) ↔ w.closes < 2 := by simp only [ClosedTwice, hphase]
    rw [hexpect, hclose]
    generalize hcloses : w.closes = n at hpending hcondition
    cases hpending with
    | untouched hflag hnone hregistrations =>
      refine fine (hcondition.mpr (by decide)) ?_
      rw [hflag, if_neg (by decide)]
      exact (inv_of_not_due rfl).mpr ⟨hclosed, hnever, .once (by rw [hphase]; decide) rfl hnone hregistrations⟩
    | once _ hflag hnone hregistrations =>
      refine fine (hcondition.mpr (by decide)) ?_
      rw [hflag, if_pos rfl]
      exact (inv_of_not_due rfl).mpr ⟨hclosed, hnever,
        .twice (by rw [hphase]; decide) hflag (by rw [hnone]) (by rw [hregistrations])⟩
    | twice _ hflag hone hregistrations =>
      refine broken (fun h => absurd (hcondition.mp h) (by decide)) ?_
      rw [hflag, if_pos rfl]
      rintro ⟨-, hle⟩
      have hle : w.session.registrations + 1 ≤ 1 := hle
      omega
  | ended =>
    have hcondition : w.ClosedTwice (.close healthy) ↔ w.closes = 0 := by simp only [ClosedTwice, hphase]
    have hexpect : w.expect (.close healthy) = if w.closes = 0 then (0, true) else (w.closes, false) := by
      rw [expect, if_neg (by rw [hdue]; decide), hphase]
    rw [hexpect, hgone (by rw [hphase]; decide)]
    by_cases hcloses : w.closes = 0
    · refine fine (hcondition.mpr hcloses) ?_
      rw [if_pos hcloses]
      exact (inv_of_due rfl).mpr ⟨rfl, rfl, by rw [hnever], hpending.registrations_le⟩
    · refine broken (fun h => hcloses (hcondition.mp h)) ?_
      rw [if_neg hcloses]
      rintro ⟨hdisposals, -⟩
      have hdisposals : w.session.disposals + 1 = 0 := hdisposals
      omega

theorem timely_complete (hinv : w.Inv) (healthy : Bool) (phase : XAPhase)
    (hcondition : w.ClosedTwice e ↔ w.closes ≠ 1)
    (hexpect : w.expect e = if w.closes ≠ 0 then (0, true) else (w.closes, w.due)) :
    let w' : Watched := ⟨{ w.session.complete healthy with phase := phase }, (w.expect e).1, (w.expect e).2⟩
    (w'.Timely ↔ w.ClosedTwice e) ∧ (w.ClosedTwice e → w'.Inv) := by
  intro w'
  cases hdue : w.due with
  | true =>
    obtain ⟨hclosed, hcloses, honce, hregistrations⟩ := (inv_of_due hdue).mp hinv
    obtain ⟨registered, hcomplete⟩ := complete_of_closed hclosed healthy
    refine fine (hcondition.mpr (by omega)) ?_
    have hw : w' = ⟨{ w.session.complete healthy with phase := phase }, w.closes, w.due⟩ := by
      show Watched.mk _ _ _ = _
      rw [hexpect, if_neg (by omega)]
    rw [hw, hcomplete]
    refine (inv_of_due ?_).mpr ⟨hclosed, hcloses, honce, hregistrations⟩
    exact hdue
  | false =>
    obtain ⟨hclosed, hnever, hpending⟩ := (inv_of_not_due hdue).mp hinv
    generalize hcloses : w.closes = n at hpending hcondition hexpect
    cases hpending with
    | untouched hflag hnone hregistrations =>
      have hw : w' = ⟨{ w.session.complete healthy with phase := phase }, 0, w.due⟩ := by
        show Watched.mk _ _ _ = _
        rw [hexpect, if_neg (by simp)]
      refine fine (hcondition.mpr (by decide)) ?_
      rw [hw, complete_of_none hnone]
      refine (inv_of_not_due ?_).mpr ⟨hclosed, hnever, .untouched hflag hnone hregistrations⟩
      exact hdue
    | once _ hflag hnone hregistrations =>
      have hw : w' = ⟨{ w.session.complete healthy with phase := phase }, 0, true⟩ := by
        show Watched.mk _ _ _ = _
        rw [hexpect, if_pos (by decide)]
      refine broken (fun h => hcondition.mp h rfl) ?_
      rw [hw, complete_of_none hnone]
      rintro ⟨hdisposals, -⟩
      have hdisposals : w.session.disposals = 1 := hdisposals
      omega
    | twice _ hflag hone hregistrations =>
      obtain ⟨registered, hcomplete⟩ := complete_of_one hclosed hone healthy
      have hw : w' = ⟨{ w.session.complete healthy with phase := phase }, 0, true⟩ := by
        show Watched.mk _ _ _ = _
        rw [hexpect, if_pos (by decide)]
      refine fine (hcondition.mpr (by decide)) ?_
      rw [hw, hcomplete]
      exact (inv_of_due rfl).mpr ⟨rfl, rfl, by show w.session.disposals + 1 = 1; omega,
        by show w.session.registrations ≤ 1; omega⟩

theorem inv_of_phase (hinv : w.Inv) (phase : XAPhase) (hphase : phase ≠ .none) :
    Inv ⟨{ w.session with phase := phase }, w.closes, w.due⟩ := by
  cases hdue : w.due with
  | true => exact (inv_of_due rfl).mpr ((inv_of_due hdue).mp hinv)
  | false =>
    obtain ⟨hclosed, hnever, hpending⟩ := (inv_of_not_due hdue).mp hinv
    refine (inv_of_not_due rfl).mpr ⟨hclosed, hnever, ?_⟩
    show Pending _ w.closes
    generalize w.closes = n at hpending ⊢
    cases hpending with
    | untouched hflag hnone hregistrations => exact .untouched hflag hnone hregistrations
    | once _ hflag hnone hregistrations => exact .once hphase hflag hnone hregistrations
    | twice _ hflag hone hregistrations => exact .twice hphase hflag hone hregistrations

theorem inv_start (hinv : w.Inv) (hphase : w.session.phase = .none) :
    Inv ⟨{ w.session with phase := .active, synchronizations := 0 }, w.closes, w.due⟩ := by
  cases hdue : w.due with
  | true => exact (inv_of_due rfl).mpr ((inv_of_due hdue).mp hinv)
  | false =>
    obtain ⟨hclosed, hnever, hpending⟩ := (inv_of_not_due hdue).mp hinv
    refine (inv_of_not_due rfl).mpr ⟨hclosed, hnever, ?_⟩
    show Pending _ w.closes
    generalize w.closes = n at hpending ⊢
    cases hpending with
    | untouched hflag hnone hregistrations => exact .untouched hflag rfl hregistrations
    | once hne => exact absurd hphase hne
    | twice hne => exact absurd hphase hne

theorem closes_of_none (hinv : w.Inv) (hphase : w.session.phase = .none) : w.closes = 0 := by
  cases hdue : w.due with
  | true => exact ((inv_of_due hdue).mp hinv).2.1
  | false =>
    obtain ⟨-, -, hpending⟩ := (inv_of_not_due hdue).mp hinv
    generalize w.closes = n at hpending
    cases hpending with
    | untouched => rfl
    | once hne => exact absurd hphase hne
    | twice hne => exact absurd hphase hne

theorem step_timely (w : Watched) (e : Event) (w' : Watched) (hinv : w.Inv) (h : w.step e = some w') :
    (w'.Timely ↔ w.ClosedTwice e) ∧ (w.ClosedTwice e → w'.Inv) := by
  cases e with
  | start =>
    obtain ⟨session, hsession, rfl⟩ := step_eq_some h
    rw [ClosingSession.step] at hsession
    split_ifs at hsession with hphase
    cases hsession
    exact fine trivial (inv_start hinv hphase)
  | close healthy =>
    cases hdue : w.due with
    | true => exact step_close_due hinv hdue h
    | false => exact step_close_open hinv hdue h
  | «end» =>
    obtain ⟨session, hsession, rfl⟩ := step_eq_some h
    rw [ClosingSession.step] at hsession
    split_ifs at hsession with hphase
    cases hsession
    exact fine trivial (inv_of_phase hinv .ended (by decide))
  | commit healthy =>
    obtain ⟨session, hsession, rfl⟩ := step_eq_some h
    rw [ClosingSession.step] at hsession
    cases hphase : w.session.phase with
    | none =>
      rw [hphase] at hsession
      cases hsession
    | active =>
      rw [hphase] at hsession
      cases hsession
      have hne : ¬w.session.phase = .ended := by rw [hphase]; decide
      refine fine (fun hended => absurd hended hne) ?_
      rw [expect, if_neg fun hboth => hne hboth.1]
      exact hinv
    | ended =>
      rw [hphase] at hsession
      cases hsession
      refine timely_complete hinv healthy .none ?_ ?_
      · rw [ClosedTwice]
        exact ⟨fun hcondition => hcondition hphase, fun hne _ => hne⟩
      · simp only [expect, hphase, true_and]
  | rollback succeeds healthy =>
    obtain ⟨session, hsession, rfl⟩ := step_eq_some h
    rw [ClosingSession.step] at hsession
    cases succeeds with
    | false =>
      have hsame : session = w.session := by
        cases hphase : w.session.phase <;> rw [hphase] at hsession <;> cases hsession <;> rfl
      refine fine (fun hfalse => absurd hfalse (by decide)) ?_
      rw [hsame, expect, if_neg (by simp)]
      exact hinv
    | true =>
      have hcondition : w.ClosedTwice (.rollback true healthy) ↔ w.closes ≠ 1 := by simp [ClosedTwice]
      have hexpect : w.expect (.rollback true healthy) = if w.closes ≠ 0 then (0, true) else (w.closes, w.due) := by
        simp [expect]
      cases hphase : w.session.phase with
      | none =>
        rw [hphase] at hsession
        cases hsession
      | active =>
        have hsame : session = { w.session.complete healthy with phase := .active } := by
          rw [hphase] at hsession
          cases hsession
          rw [← hphase, ← phase_notify healthy w.session.synchronizations w.session]
          rfl
        rw [hsame]
        exact timely_complete hinv healthy .active hcondition hexpect
      | ended =>
        rw [hphase] at hsession
        cases hsession
        exact timely_complete hinv healthy .none hcondition hexpect

/-- In every run, the session is disposed of once, in time, and registers at most once in all states reached,
exactly when every transaction in which it is closed sees it closed twice before it ends. -/
theorem timely_iff (events : List Event) :
    Throughout step Timely {} events ↔ Always step ClosedTwice {} events := by
  have hnew : Inv {} := (inv_of_not_due rfl).mpr ⟨rfl, rfl, .untouched rfl rfl rfl⟩
  refine throughout_iff step_timely ?_ hnew events
  intro w e hinv hnone
  rw [step, Option.map_eq_none_iff] at hnone
  cases e with
  | start => trivial
  | close healthy => cases hnone
  | «end» => trivial
  | commit healthy =>
    intro hphase
    rw [ClosingSession.step, hphase] at hnone
    cases hnone
  | rollback succeeds healthy =>
    intro _
    cases hphase : w.session.phase with
    | none =>
      rw [closes_of_none hinv hphase]
      decide
    | active =>
      rw [ClosingSession.step, hphase] at hnone
      cases hnone
    | ended =>
      rw [ClosingSession.step, hphase] at hnone
      cases hnone

/-- Closed once in a transaction, the session is still there when the transaction has been committed. -/
theorem closed_once_not_timely : ∃ w, run step {} [.start, .close true, .end, .commit true] = some w ∧
    w.due = true ∧ w.session.closed = false ∧ w.session.disposals = 0 ∧ ¬w.Timely := by
  refine ⟨_, rfl, rfl, rfl, rfl, ?_⟩
  rintro ⟨hdisposals, -⟩
  exact absurd hdisposals (by decide)

end Watched

end ActiveMQCpp.Core
