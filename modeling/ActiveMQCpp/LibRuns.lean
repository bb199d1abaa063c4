import Mathlib.Algebra.Order.Group.Nat

/-! Runs of a transition function that may refuse an event, and what whole runs inherit from their steps. -/

namespace ActiveMQCpp.Runs

variable {σ ε : Type}

def run (step : σ → ε → Option σ) : σ → List ε → Option σ
  | s, [] => some s
  | s, e :: events => (step s e).bind fun s' => run step s' events

/-- Every event of a run finds a state in which it meets the condition. -/
def Always (step : σ → ε → Option σ) (condition : σ → ε → Prop) : σ → List ε → Prop
  | _, [] => True
  | s, e :: events => condition s e ∧ ∀ s', step s e = some s' → Always step condition s' events

/-- Every state that the events lead to is a good one. -/
def Throughout (step : σ → ε → Option σ) (good : σ → Prop) : σ → List ε → Prop :=
  Always step fun s e => ∀ s', step s e = some s' → good s'

variable {step : σ → ε → Option σ} {condition : σ → ε → Prop}
variable {s t : σ} {e : ε} {events : List ε} {inv : σ → Prop}
variable {good : σ → Prop}

theorem run_cons : run step s (e :: events) = some t ↔ ∃ s', step s e = some s' ∧ run step s' events = some t :=
  Option.bind_eq_some_iff

theorem always_cons {s' : σ} (h : step s e = some s') :
    Always step condition s (e :: events) ↔ condition s e ∧ Always step condition s' events := by
  refine and_congr_right fun _ => ⟨fun hall => hall s' h, fun hone s'' hs'' => ?_⟩
  rw [h] at hs''
  exact Option.some.inj hs'' ▸ hone

theorem always_refused (h : step s e = none) : Always step condition s (e :: events) ↔ condition s e :=
  and_iff_left fun s' hs' => by rw [h] at hs'; cases hs'

instance decidableAlways [∀ s e, Decidable (condition s e)] :
    (s : σ) → (events : List ε) → Decidable (Always step condition s events)
  | _, [] => isTrue trivial
  | s, e :: events =>
    match h : step s e with
    | none => decidable_of_iff _ (always_refused h).symm
    | some s' =>
      have := decidableAlways s' events
      decidable_of_iff _ (always_cons h).symm

theorem Always.of_forall (h : ∀ s, ∀ e ∈ events, condition s e) (s : σ) : Always step condition s events := by
  induction events generalizing s with
  | nil => trivial
  | cons e events ih =>
    refine ⟨h s e List.mem_cons_self, fun s' _ => ?_⟩
    exact ih (fun s e he => h s e (List.mem_cons_of_mem _ he)) s'

/-- A condition on the events alone joins the one that is met. -/
theorem Always.and_mem {p : ε → Prop} (hall : Always step condition s events)
    (hp : ∀ e ∈ events, p e) : Always step (fun s e => condition s e ∧ p e) s events := by
  induction events generalizing s with
  | nil => trivial
  | cons e events ih =>
    obtain ⟨hcondition, hrest⟩ := hall
    refine ⟨⟨hcondition, hp e List.mem_cons_self⟩, fun s' hs' => ?_⟩
    exact ih (hrest s' hs') fun e' he' => hp e' (List.mem_cons_of_mem _ he')

theorem invariant_run {inv : σ → Prop} (hstep : ∀ s e s', inv s → condition s e → step s e = some s' → inv s')
    {s t : σ} {events : List ε} (hs : inv s) (hall : Always step condition s events)
    (hrun : run step s events = some t) : inv t := by
  induction events generalizing s with
  | nil => exact Option.some.inj hrun ▸ hs
  | cons e events ih =>
    obtain ⟨s', hs', hrest⟩ := run_cons.mp hrun
    obtain ⟨hcondition, hall⟩ := (always_cons hs').mp hall
    exact ih (hstep s e s' hs hcondition hs') hall hrest

theorem Always.throughout
    (hstep : ∀ s e s', inv s → condition s e → step s e = some s' → inv s') (hgood : ∀ s, inv s → good s)
    (hs : inv s) (hall : Always step condition s events) :
    Throughout step good s events := by
  induction events generalizing s with
  | nil => trivial
  | cons e events ih =>
    obtain ⟨hcondition, hrest⟩ := hall
    refine ⟨fun s' hs' => hgood s' (hstep s e s' hs hcondition hs'), fun s' hs' => ?_⟩
    exact ih (hstep s e s' hs hcondition hs') (hrest s' hs')

/-- Two conditions that agree wherever a run in which the second is met can lead are met by the same runs. -/
theorem always_congr {condition' : σ → ε → Prop} (hiff : ∀ s e, inv s → (condition' s e ↔ condition s e))
    (hstep : ∀ s e s', inv s → condition s e → step s e = some s' → inv s')
    (hs : inv s) (events : List ε) : Always step condition' s events ↔ Always step condition s events := by
  induction events generalizing s with
  | nil => exact Iff.rfl
  | cons e events ih =>
    cases hs' : step s e with
    | none =>
      rw [always_refused hs', always_refused hs']
      exact hiff s e hs
    | some s' =>
      rw [always_cons hs', always_cons hs', hiff s e hs]
      exact and_congr_right fun hcondition => ih (hstep s e s' hs hcondition hs')

/-- A condition that is met exactly by the steps to good states, as long as all steps so far met it, is met
throughout exactly by the runs through good states. -/
theorem throughout_iff
    (hstep : ∀ s e s', inv s → step s e = some s' → (good s' ↔ condition s e) ∧ (condition s e → inv s'))
    (hnone : ∀ s e, inv s → step s e = none → condition s e)
    (hs : inv s) (events : List ε) : Throughout step good s events ↔ Always step condition s events := by
  refine always_congr (fun s e hs => ?_) (fun s e s' hs hcondition hs' => (hstep s e s' hs hs').2 hcondition) hs events
  cases hs' : step s e with
  | none => simp [hnone s e hs hs']
  | some s' => simp [(hstep s e s' hs hs').1]

/-- A measure that the steps with the condition keep, and all others raise, is the same at the end of a run
exactly when every step meets the condition. -/
theorem measure_run {measure : σ → ℕ} (hstep : ∀ s e s', inv s → step s e = some s' → inv s' ∧
      (condition s e → measure s' = measure s) ∧ (¬condition s e → measure s < measure s'))
    (hs : inv s) (hrun : run step s events = some t) :
    inv t ∧ measure s ≤ measure t ∧ (measure t = measure s ↔ Always step condition s events) := by
  induction events generalizing s with
  | nil =>
    cases hrun
    exact ⟨hs, le_refl _, iff_of_true rfl trivial⟩
  | cons e events ih =>
    obtain ⟨s', hs', hrest⟩ := run_cons.mp hrun
    obtain ⟨hinv, hkeep, hraise⟩ := hstep s e s' hs hs'
    obtain ⟨ht, hle, hiff⟩ := ih hinv hrest
    rw [always_cons hs']
    by_cases hcondition : condition s e
    · rw [hkeep hcondition] at hle hiff
      exact ⟨ht, hle, hiff.trans (and_iff_right hcondition).symm⟩
    · have hlt := lt_of_lt_of_le (hraise hcondition) hle
      exact ⟨ht, hlt.le, iff_of_false hlt.ne' fun hall => hcondition hall.1⟩

/-! ### Runs that follow a specification -/

section Follow

variable {τ : Type} {rel : σ → τ → Prop} {spec : τ → ε → τ}

theorem run_follows (hstep : ∀ s t e, rel s t → condition s e → ∃ s', step s e = some s' ∧ rel s' (spec t e))
    {s : σ} {t : τ} (h : rel s t) {events : List ε} (hall : Always step condition s events) :
    ∃ s', run step s events = some s' ∧ rel s' (events.foldl spec t) := by
  induction events generalizing s t with
  | nil => exact ⟨s, rfl, h⟩
  | cons e events ih =>
    obtain ⟨s', hs', hrel⟩ := hstep s t e h hall.1
    obtain ⟨u, hrun, hu⟩ := ih hrel (hall.2 s' hs')
    exact ⟨u, run_cons.mpr ⟨s', hs', hrun⟩, hu⟩

end Follow

/-- Where a step without the condition is refused, every step of a run that ends meets it. -/
theorem always_of_run (hrefused : ∀ s e, ¬ condition s e → step s e = none)
    (hrun : run step s events = some t) : Always step condition s events := by
  induction events generalizing s with
  | nil => trivial
  | cons e events ih =>
    obtain ⟨s', hs', hrest⟩ := run_cons.mp hrun
    refine (always_cons hs').mpr ⟨?_, ih hrest⟩
    by_contra hnot
    rw [hrefused s e hnot] at hs'
    cases hs'

end ActiveMQCpp.Runs
