import ActiveMQCpp.LibStream

/-! Clean-up code: a sequence of steps, each of which may throw, under catch clauses that pick exceptions by
their class and keep the first one. Which steps throw is an oracle, and a log holds the steps that were
carried out. -/

namespace ActiveMQCpp.Cleanup

open Codec List

/-- An exception, with the step it comes from. -/
structure Thrown (κ ι : Type) where
  kind : κ
  origin : ι

structure Logged (σ ι : Type) where
  state : σ
  done : List ι := []

variable {κ ι σ : Type} (fails : ι → Bool)
variable {step : ι} {steps : List ι} {caught : κ → Bool} {kind : κ}

/-- Carry out a step. What it does to the state is done even when it throws. -/
def attempt (kind : κ) (effect : ι → σ → σ) (step : ι) : EStateM (Thrown κ ι) (Logged σ ι) Unit := fun l =>
  let l := { state := effect step l.state, done := l.done ++ [step] }
  if fails step then .error ⟨kind, step⟩ l else .ok () l

/-- A `catch` clause with an empty body. -/
def absorb (caught : κ → Bool) (m : EStateM (Thrown κ ι) (Logged σ ι) Unit) : EStateM (Thrown κ ι) (Logged σ ι) Unit :=
  fun l =>
    match m l with
    | .ok _ l' => .ok () l'
    | .error e l' => if caught e.kind then .ok () l' else .error e l'

/-- A `catch` clause that keeps the exception if it is the first. -/
def guarded (caught : κ → Bool) (m : EStateM (Thrown κ ι) (Logged σ ι) Unit) (first : Option (Thrown κ ι)) :
    EStateM (Thrown κ ι) (Logged σ ι) (Option (Thrown κ ι)) := fun l =>
  match m l with
  | .ok _ l' => .ok first l'
  | .error e l' => if caught e.kind then .ok (first.or (some e)) l' else .error e l'

section Clauses

variable {caught : κ → Bool} {m : EStateM (Thrown κ ι) (Logged σ ι) Unit} {first : Option (Thrown κ ι)}
  {e : Thrown κ ι} {l l' : Logged σ ι}

theorem guarded_ok (h : m l = .ok () l') : guarded caught m first l = .ok first l' := by
  rw [guarded, h]

theorem guarded_caught (h : m l = .error e l') (hcaught : caught e.kind = true) :
    guarded caught m first l = .ok (first.or (some e)) l' := by
  rw [guarded, h]
  exact if_pos hcaught

theorem guarded_uncaught (h : m l = .error e l') (hcaught : caught e.kind = false) :
    guarded caught m first l = .error e l' := by
  rw [guarded, h]
  exact if_neg (by rw [hcaught]; decide)

end Clauses

def upTo (steps : List ι) : List ι := steps.takeWhile (!fails ·) ++ (steps.find? fails).toList

theorem upTo_cons_of_fails (h : fails step = true) : upTo fails (step :: steps) = [step] := by
  simp [upTo, h]

theorem upTo_cons_of_not (h : fails step = false) : upTo fails (step :: steps) = step :: upTo fails steps := by
  simp [upTo, h]

theorem find_upTo (steps : List ι) : (upTo fails steps).find? fails = steps.find? fails := by
  induction steps with
  | nil => rfl
  | cons step steps ih =>
    cases h : fails step with
    | true => rw [upTo_cons_of_fails fails h, List.find?_cons_of_pos h, List.find?_cons_of_pos h]
    | false =>
      rw [upTo_cons_of_not fails h, List.find?_cons_of_neg (by rw [h]; decide), ih,
        List.find?_cons_of_neg (by rw [h]; decide)]

theorem mem_of_upTo (h : step ∈ upTo fails steps) : step ∈ steps := by
  rcases mem_append.mp h with h | h
  · exact takeWhile_subset _ h
  · exact mem_of_find?_eq_some (Option.mem_toList.mp h)

theorem upTo_complete (hnodup : steps.Nodup) : (∀ step ∈ steps, step ∈ upTo fails steps) ↔
      ∀ before step after, steps = before ++ step :: after → fails step = true → after = [] := by
  induction steps with
  | nil => simp
  | cons first steps ih =>
    obtain ⟨hfirst, hrest⟩ := nodup_cons.mp hnodup
    constructor
    · intro hall before step after hsteps hfails
      cases before with
      | nil =>
        obtain ⟨rfl, rfl⟩ := List.cons.inj hsteps
        refine eq_nil_iff_forall_not_mem.mpr fun other hother => ?_
        have hmem := hall other (mem_cons_of_mem _ hother)
        rw [upTo_cons_of_fails fails hfails, mem_singleton] at hmem
        exact hfirst (hmem ▸ hother)
      | cons head before =>
        have hsteps : steps = before ++ step :: after := (List.cons.inj hsteps).2
        cases hhead : fails first with
        | true =>
          have hmem := hall step (by rw [hsteps]; simp)
          rw [upTo_cons_of_fails fails hhead, mem_singleton] at hmem
          exact absurd (by rw [hsteps, ← hmem]; simp) hfirst
        | false =>
          refine (ih hrest).mp (fun other hother => ?_) before step after hsteps hfails
          have hmem := hall other (mem_cons_of_mem _ hother)
          rw [upTo_cons_of_not fails hhead] at hmem
          rcases mem_cons.mp hmem with rfl | hmem
          · exact absurd hother hfirst
          · exact hmem
    · intro hlast step hstep
      cases hhead : fails first with
      | true =>
        have hnil := hlast [] first steps rfl hhead
        rw [upTo_cons_of_fails fails hhead]
        rwa [hnil] at hstep
      | false =>
        rw [upTo_cons_of_not fails hhead]
        rcases mem_cons.mp hstep with rfl | hstep
        · exact mem_cons_self
        · refine mem_cons_of_mem _ ((ih hrest).mpr ?_ step hstep)
          intro before step after hsteps hfails
          exact hlast (first :: before) step after (by rw [hsteps]; rfl) hfails

theorem absorb_attempt (hcaught : caught kind = false) (effect : ι → σ → σ) (step : ι) :
    absorb caught (attempt fails kind effect step) = attempt fails kind effect step := by
  funext l
  cases h : fails step <;> simp [absorb, attempt, h, hcaught]

/-- A loop over steps stops at the first that throws. -/
theorem forM_attempt (kind : κ) (effect : ι → σ → σ) (steps : List ι) (l : Logged σ ι) :
    steps.forM (attempt fails kind effect) l =
      let l' : Logged σ ι :=
        ⟨(upTo fails steps).foldl (fun state step => effect step state) l.state, l.done ++ upTo fails steps⟩
      match steps.find? fails with
      | none => .ok () l'
      | some step => .error ⟨kind, step⟩ l' := by
  induction steps generalizing l with
  | nil => simp [upTo, forM_nil]
  | cons step steps ih =>
    rw [forM_eq_forM, forM_cons, ← forM_eq_forM]
    cases h : fails step with
    | true =>
      have hattempt : attempt fails kind effect step l
          = .error ⟨kind, step⟩ ⟨effect step l.state, l.done ++ [step]⟩ := by
        simp only [attempt, h, if_true]
      rw [bind_error hattempt, upTo_cons_of_fails fails h, List.find?_cons_of_pos h]
      rfl
    | false =>
      have hattempt : attempt fails kind effect step l = .ok () ⟨effect step l.state, l.done ++ [step]⟩ := by
        simp only [attempt, h, Bool.false_eq_true, if_false]
      rw [bind_ok hattempt, ih, upTo_cons_of_not fails h, List.find?_cons_of_neg (by rw [h]; decide)]
      simp only [foldl_cons, append_assoc, singleton_append]

/-- A clause that catches what the loop throws keeps the first exception. -/
theorem guarded_forM (hcaught : caught kind = true) (effect : ι → σ → σ) (steps : List ι)
    (first : Option (Thrown κ ι)) (l : Logged σ ι) :
    guarded caught (steps.forM (attempt fails kind effect)) first l =
      .ok (first.or ((steps.find? fails).map (⟨kind, ·⟩)))
        ⟨(upTo fails steps).foldl (fun state step => effect step state) l.state, l.done ++ upTo fails steps⟩ := by
  rw [guarded, forM_attempt]
  cases steps.find? fails with
  | none => simp
  | some step => simp [hcaught]

theorem guarded_attempt (hcaught : caught kind = true) (effect : ι → σ → σ) (step : ι)
    (first : Option (Thrown κ ι)) (l : Logged σ ι) :
    guarded caught (attempt fails kind effect step) first l =
      .ok (first.or (([step].find? fails).map (⟨kind, ·⟩))) ⟨effect step l.state, l.done ++ [step]⟩ := by
  cases h : fails step <;> simp [guarded, attempt, h, hcaught]

/-- What is kept comes from the first step of the log that throws. -/
def Kept (first : Option (Thrown κ ι)) (done : List ι) : Prop := first.map Thrown.origin = done.find? fails

variable {fails}

theorem Kept.append {first : Option (Thrown κ ι)} {done : List ι} (h : Kept fails first done) (kind : κ)
    (new : List ι) (hnew : new.find? fails = steps.find? fails) :
    Kept fails (first.or ((steps.find? fails).map (⟨kind, ·⟩))) (done ++ new) := by
  unfold Kept at h ⊢
  rw [List.find?_append, ← h, hnew, Option.map_or, Option.map_map]
  congr 1
  cases steps.find? fails <;> rfl

end ActiveMQCpp.Cleanup
