import Mathlib.Data.List.Basic

/-! Programs over a mutable state that may throw. `EStateM` keeps the state reached when an exception is thrown, as a
C++ program does. A program that only appends to an output is described by what it emits, a program that only consumes
an input by what it parses, and both compose. -/

namespace ActiveMQCpp.Codec

section Run

variable {ε σ τ α β : Type}
variable {m : EStateM ε σ α} {f : α → EStateM ε σ β} {s s'' s' : σ} {a : α} {e : ε}

def stateOf : EStateM.Result ε σ α → σ
  | .ok _ s => s
  | .error _ s => s

def returns : EStateM.Result ε σ α → Bool
  | .ok _ _ => true
  | .error _ _ => false

theorem eq_ok_of_returns {r : EStateM.Result ε σ α} (h : returns r = true) : ∃ a, r = .ok a (stateOf r) := by
  cases r with
  | ok a s => exact ⟨a, rfl⟩
  | error e s => cases h

theorem bind_eq_ok {b : β} : (m >>= f) s = .ok b s'' ↔ ∃ a s', m s = .ok a s' ∧ f a s' = .ok b s'' := by
  show EStateM.bind m f s = .ok b s'' ↔ _
  unfold EStateM.bind
  cases hm : m s with
  | ok a s' =>
    constructor
    · intro h
      exact ⟨a, s', rfl, h⟩
    · rintro ⟨a', t, heq, h⟩
      cases heq
      exact h
  | error e s' =>
    constructor
    · intro h
      cases h
    · rintro ⟨a', t, heq, -⟩
      cases heq

theorem except_bind_eq_ok {m : Except ε α} {f : α → Except ε β} {b : β} :
    (m >>= f) = .ok b ↔ ∃ a, m = .ok a ∧ f a = .ok b := by
  cases m with
  | ok a =>
    constructor
    · intro h
      exact ⟨a, rfl, h⟩
    · rintro ⟨a', heq, h⟩
      cases heq
      exact h
  | error e =>
    constructor
    · intro h
      cases h
    · rintro ⟨a', heq, -⟩
      cases heq

theorem bind_ok (h : m s = .ok a s') : (m >>= f) s = f a s' := by
  show EStateM.bind m f s = _
  rw [EStateM.bind, h]

theorem bind_error (h : m s = .error e s') : (m >>= f) s = .error e s' := by
  show EStateM.bind m f s = _
  rw [EStateM.bind, h]

theorem bind_run (m : EStateM ε σ α) (f : α → EStateM ε σ β) (s : σ) : (m >>= f) s = match m s with
      | .ok a s' => f a s'
      | .error e s' => .error e s' := by
  show EStateM.bind m f s = _
  rw [EStateM.bind]
  cases m s <;> rfl

theorem forM_cons_eq_ok {f : α → EStateM ε σ PUnit} {x : α} {xs : List α} :
    (x :: xs).forM f s = .ok ⟨⟩ s'' ↔ ∃ s', f x s = .ok ⟨⟩ s' ∧ xs.forM f s' = .ok ⟨⟩ s'' := by
  show (f x >>= fun _ => xs.forM f) s = _ ↔ _
  rw [bind_eq_ok]
  constructor
  · rintro ⟨⟨⟩, s', hx, hxs⟩
    exact ⟨s', hx, hxs⟩
  · rintro ⟨s', hx, hxs⟩
    exact ⟨⟨⟩, s', hx, hxs⟩

theorem forM_append_eq_ok {f : α → EStateM ε σ PUnit} {xs ys : List α} :
    (xs ++ ys).forM f s = .ok ⟨⟩ s'' ↔ ∃ s', xs.forM f s = .ok ⟨⟩ s' ∧ ys.forM f s' = .ok ⟨⟩ s'' := by
  induction xs generalizing s with
  | nil =>
    constructor
    · intro h
      exact ⟨s, rfl, h⟩
    · rintro ⟨s', hnil, h⟩
      cases hnil
      exact h
  | cons x xs ih =>
    rw [List.cons_append, forM_cons_eq_ok]
    constructor
    · rintro ⟨t, hx, hrest⟩
      obtain ⟨s', hxs, hys⟩ := ih.mp hrest
      exact ⟨s', forM_cons_eq_ok.mpr ⟨t, hx, hxs⟩, hys⟩
    · rintro ⟨s', hall, hys⟩
      obtain ⟨t, hx, hxs⟩ := forM_cons_eq_ok.mp hall
      exact ⟨t, hx, ih.mpr ⟨s', hxs, hys⟩⟩

@[simp] theorem pure_run (a : α) (s : σ) : (pure a : EStateM ε σ α) s = .ok a s := rfl

@[simp] theorem throw_run (e : ε) (s : σ) : (throw e : EStateM ε σ α) s = .error e s := rfl

@[simp] theorem get_run (s : σ) : (get : EStateM ε σ σ) s = .ok s s := rfl

@[simp] theorem set_run (s s' : σ) : (set s' : EStateM ε σ PUnit) s = .ok ⟨⟩ s' := rfl

@[simp] theorem modify_run (g : σ → σ) (s : σ) : (modify g : EStateM ε σ PUnit) s = .ok ⟨⟩ (g s) := rfl

theorem tryCatch_ok {handler : ε → EStateM ε σ α} (h : m s = .ok a s') : tryCatch m handler s = .ok a s' := by
  show EStateM.tryCatch m handler s = _
  rw [EStateM.tryCatch, h]

theorem tryCatch_error {handler : ε → EStateM ε σ α} (h : m s = .error e s') :
    tryCatch m handler s = handler e s' := by
  show EStateM.tryCatch m handler s = _
  rw [EStateM.tryCatch, h]
  rfl

theorem stateOf_bind_throw (m : EStateM ε σ α) (e : ε) (s : σ) :
    stateOf ((m >>= fun _ => (throw e : EStateM ε σ β)) s) = stateOf (m s) := by
  rw [bind_run]
  cases m s <;> rfl

def onFst (m : EStateM ε σ α) : EStateM ε (σ × τ) α := fun p =>
  match m p.1 with
  | .ok a s => .ok a (s, p.2)
  | .error e s => .error e (s, p.2)

def onSnd (m : EStateM ε τ α) : EStateM ε (σ × τ) α := fun p =>
  match m p.2 with
  | .ok a t => .ok a (p.1, t)
  | .error e t => .error e (p.1, t)

theorem onFst_ok (t : τ) (h : m s = .ok a s') : onFst m (s, t) = .ok a (s', t) := by
  simp only [onFst, h]

theorem onSnd_ok {m : EStateM ε τ α} {t t' : τ} (s : σ) (h : m t = .ok a t') : onSnd m (s, t) = .ok a (s, t') := by
  simp only [onSnd, h]

theorem onSnd_eq_ok {m : EStateM ε τ α} {p p' : σ × τ} : onSnd m p = .ok a p' ↔ m p.2 = .ok a p'.2 ∧ p'.1 = p.1 := by
  unfold onSnd
  cases m p.2 with
  | ok b t =>
    constructor
    · intro h
      cases h
      exact ⟨rfl, rfl⟩
    · rintro ⟨h, h1⟩
      cases h
      simp only [← h1]
  | error e t => simp

/-- Run a program and rewrite the exception it throws, as a chain of `catch` clauses that rethrow does. -/
def mapError (h : ε → ε) (m : EStateM ε σ α) : EStateM ε σ α := fun s =>
  match m s with
  | .ok a s' => .ok a s'
  | .error e s' => .error (h e) s'

theorem mapError_eq_ok {h : ε → ε} : mapError h m s = .ok a s' ↔ m s = .ok a s' := by
  unfold mapError
  cases m s <;> simp

theorem mapError_error {h : ε → ε} (hm : m s = .error e s') : mapError h m s = .error (h e) s' := by
  simp only [mapError, hm]

@[simp] theorem stateOf_mapError (h : ε → ε) (m : EStateM ε σ α) (s : σ) : stateOf (mapError h m s) = stateOf (m s) := by
  unfold mapError
  cases m s <;> rfl

/-- `if (p) throw e`. -/
def throwIf (p : Bool) (e : ε) : EStateM ε σ PUnit := if p then throw e else pure ⟨⟩

theorem throwIf_true {p : Bool} (h : p = true) : throwIf p e s = .error e s := by
  rw [throwIf, if_pos h]
  rfl

theorem throwIf_false {p : Bool} (h : p = false) : throwIf p e s = .ok ⟨⟩ s := by
  rw [throwIf, if_neg (by rw [h]; decide)]
  rfl

/-- However the program ends, this part of the state is as it was. -/
def Frames (part : σ → τ) (m : EStateM ε σ α) : Prop := ∀ s, part (stateOf (m s)) = part s

section Frames

variable {part : σ → τ}
variable {m : EStateM ε σ α}

theorem frames_pure (a : α) : Frames part (pure a : EStateM ε σ α) := fun _ => rfl

theorem frames_throw (e : ε) : Frames part (throw e : EStateM ε σ α) := fun _ => rfl

theorem frames_throwIf (p : Bool) (e : ε) : Frames part (throwIf p e : EStateM ε σ PUnit) := by
  cases p
  · exact frames_pure _
  · exact frames_throw e

theorem frames_get : Frames part (get : EStateM ε σ σ) := fun _ => rfl

theorem Frames.bind {f : α → EStateM ε σ β} (hm : Frames part m) (hf : ∀ a, Frames part (f a)) :
    Frames part (m >>= f) := by
  intro s
  have hs := hm s
  rw [bind_run]
  cases hrun : m s with
  | ok a s' =>
    rw [hrun] at hs
    exact (hf a s').trans hs
  | error e s' =>
    rw [hrun] at hs
    exact hs

theorem Frames.mapError {h : ε → ε} (hm : Frames part m) : Frames part (mapError h m) := by
  intro s
  have hs := hm s
  unfold Codec.mapError
  cases hrun : m s with
  | ok a s' =>
    rw [hrun] at hs
    exact hs
  | error e s' =>
    rw [hrun] at hs
    exact hs

/-- A program that throws leaves this part of the state as it was. -/
def Guards (part : σ → τ) (m : EStateM ε σ α) : Prop := ∀ s, returns (m s) = false → part (stateOf (m s)) = part s

theorem Frames.guards (hm : Frames part m) : Guards part m := fun s _ => hm s

theorem guards_modify (g : σ → σ) : Guards part (modify g : EStateM ε σ PUnit) := fun _ h => by cases h

theorem guards_throw (e : ε) : Guards part (throw e : EStateM ε σ α) := (frames_throw e).guards

theorem Frames.bind_guards {f : α → EStateM ε σ β} (hm : Frames part m)
    (hf : ∀ a, Guards part (f a)) : Guards part (m >>= f) := by
  intro s hthrows
  have hs := hm s
  rw [bind_run] at hthrows ⊢
  cases hrun : m s with
  | ok a s' =>
    rw [hrun] at hs hthrows
    exact (hf a s' hthrows).trans hs
  | error e s' =>
    rw [hrun] at hs
    exact hs

theorem Guards.ite {p : Prop} [Decidable p] {m' : EStateM ε σ α} (hm : Guards part m) (hm' : Guards part m') :
    Guards part (if p then m else m') := by
  split_ifs
  · exact hm
  · exact hm'

end Frames

end Run

section Codec

variable {ε β α γ : Type}
variable {m : EStateM ε (List β) α} {f : α → EStateM ε (List β) γ} {a : α} {c : γ} {bs : List β}

/-- The program returns `a` and appends exactly `bs` to the output. -/
def Emits (m : EStateM ε (List β) α) (a : α) (bs : List β) : Prop :=
  ∀ out, m out = .ok a (out ++ bs)

/-- The program returns `a` and consumes exactly `bs` of any input that starts with it. -/
def Parses (m : EStateM ε (List β) α) (bs : List β) (a : α) : Prop :=
  ∀ rest, m (bs ++ rest) = .ok a rest

theorem Emits.pure (a : α) : Emits (pure a : EStateM ε (List β) α) a [] := by
  intro out
  simp

theorem Emits.bind {cs : List β} (hm : Emits m a bs) (hf : Emits (f a) c cs) : Emits (m >>= f) c (bs ++ cs) := by
  intro out
  rw [bind_ok (hm out), hf, List.append_assoc]

theorem Emits.forM {f : α → EStateM ε (List β) PUnit} {g : α → List β} {xs : List α}
    (h : ∀ x ∈ xs, Emits (f x) ⟨⟩ (g x)) : Emits (xs.forM f) ⟨⟩ (xs.flatMap g) := by
  induction xs with
  | nil => exact Emits.pure _
  | cons x xs ih =>
    rw [List.flatMap_cons]
    exact (h x List.mem_cons_self).bind (ih fun y hy => h y (List.mem_cons_of_mem _ hy))

theorem Parses.pure (a : α) : Parses (pure a : EStateM ε (List β) α) [] a := by
  intro rest
  simp

theorem Parses.bind {cs : List β} (hm : Parses m bs a) (hf : Parses (f a) cs c) : Parses (m >>= f) (bs ++ cs) c := by
  intro rest
  rw [List.append_assoc, bind_ok (hm _), hf]

theorem Parses.bind_nil (hm : Parses m bs a) (hf : Parses (f a) [] c) : Parses (m >>= f) bs c := by
  have := hm.bind hf
  rwa [List.append_nil] at this

theorem Emits.mapError {h : ε → ε} (hm : Emits m a bs) : Emits (mapError h m) a bs :=
  fun out => mapError_eq_ok.mpr (hm out)

theorem Parses.mapError {h : ε → ε} (hm : Parses m bs a) : Parses (mapError h m) bs a :=
  fun rest => mapError_eq_ok.mpr (hm rest)

end Codec

end ActiveMQCpp.Codec
