import ActiveMQCpp.LibRuns
import Mathlib.Data.List.Forall2

/-! Two machines that answer every event. One refines the other when related states give the same answer and
stay related; what the events have to meet for that is a condition on the first machine. -/

namespace ActiveMQCpp.Refinement

open Runs

variable {σ τ ε ρ : Type}

def answers (step : σ → ε → ρ × σ) : σ → List ε → List ρ
  | _, [] => []
  | s, e :: events => (step s e).1 :: answers step (step s e).2 events

def after (step : σ → ε → ρ × σ) : σ → List ε → σ
  | s, [] => s
  | s, e :: events => after step (step s e).2 events

/-- The machine as a transition function that refuses nothing. -/
def moves (step : σ → ε → ρ × σ) (s : σ) (e : ε) : Option σ := some (step s e).2

variable {step : σ → ε → ρ × σ} {spec : τ → ε → ρ × τ} {rel : σ → τ → Prop} {condition : σ → ε → Prop}
variable {s x : σ} {events : List ε} {t : τ} {i : Nat}

theorem always_moves {e : ε} : Always (moves step) condition s (e :: events) ↔
      condition s e ∧ Always (moves step) condition (step s e).2 events :=
  always_cons rfl

theorem invariant_after {inv : σ → Prop} (hstep : ∀ s e, inv s → condition s e → inv (step s e).2)
    (hs : inv s) (hall : Always (moves step) condition s events) : inv (after step s events) := by
  induction events generalizing s with
  | nil => exact hs
  | cons e events ih =>
    obtain ⟨hcondition, hrest⟩ := always_moves.mp hall
    exact ih (hstep s e hs hcondition) hrest

theorem rel_after (hstep : ∀ s t e, rel s t → condition s e → rel (step s e).2 (spec t e).2)
    (h : rel s t) (hall : Always (moves step) condition s events) :
    rel (after step s events) (after spec t events) := by
  induction events generalizing s t with
  | nil => exact h
  | cons e events ih =>
    obtain ⟨hcondition, hrest⟩ := always_moves.mp hall
    exact ih (hstep s t e h hcondition) hrest

theorem answers_eq (hstep : ∀ s t e, rel s t → condition s e → (step s e).1 = (spec t e).1 ∧ rel (step s e).2 (spec t e).2)
    (h : rel s t) (hall : Always (moves step) condition s events) :
    answers step s events = answers spec t events := by
  induction events generalizing s t with
  | nil => rfl
  | cons e events ih =>
    obtain ⟨hcondition, hrest⟩ := always_moves.mp hall
    obtain ⟨hanswer, hrel⟩ := hstep s t e h hcondition
    rw [answers, answers, hanswer, ih hrel hrest]

/-- A condition that is met exactly when the next answer is right is met throughout exactly when all answers are. -/
theorem answers_eq_iff (hstep : ∀ s t e, rel s t → ((step s e).1 = (spec t e).1 ↔ condition s e) ∧
      (condition s e → rel (step s e).2 (spec t e).2))
    (h : rel s t) (events : List ε) :
    answers step s events = answers spec t events ↔ Always (moves step) condition s events := by
  induction events generalizing s t with
  | nil => exact iff_of_true rfl trivial
  | cons e events ih =>
    obtain ⟨hanswer, hrel⟩ := hstep s t e h
    rw [always_moves, answers, answers, List.cons.injEq, hanswer]
    exact and_congr_right fun hcondition => ih (hrel hcondition)

/-- The answers are ones that a specification with choices allows. -/
def Accepts (choice : τ → ε → ρ → τ → Prop) : τ → List ε → List ρ → Prop
  | _, [], [] => True
  | t, e :: events, a :: rest => ∃ t', choice t e a t' ∧ Accepts choice t' events rest
  | _, _, _ => False

/-- A machine whose steps the specification can follow gives answers that it allows. -/
theorem accepts_answers {choice : τ → ε → ρ → τ → Prop}
    (hstep : ∀ s t e, rel s t → condition s e → ∃ t', choice t e (step s e).1 t' ∧ rel (step s e).2 t')
    (h : rel s t) (hall : Always (moves step) condition s events) :
    Accepts choice t events (answers step s events) := by
  induction events generalizing s t with
  | nil => trivial
  | cons e events ih =>
    obtain ⟨hcondition, hrest⟩ := always_moves.mp hall
    obtain ⟨t', hchoice, hrel⟩ := hstep s t e h hcondition
    exact ⟨t', hchoice, ih hrel hrest⟩

/-! ### Lists of related things -/

variable {r : σ → τ → Prop} {xs : List σ} {ys : List τ}
variable {y : τ}

theorem rel_getElem? (h : List.Forall₂ r xs ys) (i : Nat) : Option.Rel r xs[i]? ys[i]? := by
  induction h generalizing i with
  | nil => exact .none
  | cons hxy _ ih =>
    cases i with
    | zero => exact .some hxy
    | succ i => exact ih i

theorem rel_of_mem (h : List.Forall₂ r xs ys) (hx : x ∈ xs) : ∃ y ∈ ys, r x y := by
  obtain ⟨i, hi, rfl⟩ := List.getElem_of_mem hx
  have hrel := rel_getElem? h i
  rw [List.getElem?_eq_getElem hi] at hrel
  generalize hy : ys[i]? = other at hrel
  cases hrel with
  | some hxy => exact ⟨_, List.mem_of_getElem? hy, hxy⟩

theorem rel_of_getElem? (h : List.Forall₂ r xs ys) (hx : xs[i]? = some x) : ∃ y, ys[i]? = some y ∧ r x y := by
  have hrel := rel_getElem? h i
  rw [hx] at hrel
  generalize hy : ys[i]? = other at hrel
  cases hrel with
  | some hxy => exact ⟨_, rfl, hxy⟩

theorem getElem?_none_of_rel (h : List.Forall₂ r xs ys) (hx : xs[i]? = none) : ys[i]? = none := by
  rw [List.getElem?_eq_none_iff] at hx ⊢
  rwa [← h.length_eq]

theorem forall₂_set (h : List.Forall₂ r xs ys) (i : Nat) (hxy : r x y) :
    List.Forall₂ r (xs.set i x) (ys.set i y) := by
  induction h generalizing i with
  | nil => exact .nil
  | cons hhead htail ih =>
    cases i with
    | zero => exact .cons hxy htail
    | succ i => exact .cons hhead (ih i)

theorem set_of_getElem? (hx : xs[i]? = some x) : xs.set i x = xs := by
  obtain ⟨hi, rfl⟩ := List.getElem?_eq_some_iff.mp hx
  exact List.set_getElem_self hi

theorem forall₂_concat (h : List.Forall₂ r xs ys) (hxy : r x y) : List.Forall₂ r (xs ++ [x]) (ys ++ [y]) :=
  List.rel_append h (.cons hxy .nil)

end ActiveMQCpp.Refinement
