import ActiveMQCpp.LibStream

/-! What a program does to its state, whether it returns or throws: a relation between the state before and the
state after, and an invariant as a case of it. -/

namespace ActiveMQCpp.Codec

variable {ε σ α β : Type}

/-- However the program ends, the state it ends in is related to the one it began in. -/
def Moves (R : σ → σ → Prop) (m : EStateM ε σ α) : Prop := ∀ s, R s (stateOf (m s))

section Moves

variable {R : σ → σ → Prop}
variable {m : EStateM ε σ α}
variable {f : α → EStateM ε σ β} {p : Prop}

theorem moves_pure [Std.Refl R] (a : α) : Moves R (pure a : EStateM ε σ α) := fun s => refl_of R s

theorem moves_throw [Std.Refl R] (e : ε) : Moves R (throw e : EStateM ε σ α) := fun s => refl_of R s

theorem moves_modify {f : σ → σ} (h : ∀ s, R s (f s)) : Moves R (modify f : EStateM ε σ PUnit) := h

/-- The two parts of a program may do different things to the state, and the first may be all of it. -/
theorem Moves.followedBy {S T : σ → σ → Prop} (hm : Moves R m)
    (hf : ∀ a, Moves S (f a)) (hfirst : ∀ s s', R s s' → T s s') (hboth : ∀ s s' s'', R s s' → S s' s'' → T s s'') :
    Moves T (m >>= f) := by
  intro s
  have hs := hm s
  rw [bind_run]
  cases hrun : m s with
  | ok a s' =>
    rw [hrun] at hs
    exact hboth _ _ _ hs (hf a s')
  | error e s' =>
    rw [hrun] at hs
    exact hfirst _ _ hs

theorem Moves.bind [IsTrans σ R] (hm : Moves R m) (hf : ∀ a, Moves R (f a)) : Moves R (m >>= f) :=
  hm.followedBy hf (fun _ _ h => h) fun _ _ _ h h' => trans_of R h h'

theorem moves_get_bind {f : σ → EStateM ε σ β} (hf : ∀ s, R s (stateOf (f s s))) : Moves R (get >>= f) := by
  intro s
  rw [bind_ok (get_run s)]
  exact hf s

theorem Moves.ite [Decidable p] {m' : EStateM ε σ α} (hm : Moves R m) (hm' : Moves R m') :
    Moves R (if p then m else m') := by
  split_ifs
  · exact hm
  · exact hm'

theorem moves_when [IsTrans σ R] [Decidable p] {m : EStateM ε σ PUnit} {f : PUnit → EStateM ε σ β}
    (hm : Moves R m) (hf : Moves R (f ⟨⟩)) : Moves R (if p then m >>= f else f ⟨⟩) := by
  split_ifs
  · exact hm.bind fun _ => hf
  · exact hf

end Moves

/-- However the program ends, what held before it holds after it. -/
def Keeps (inv : σ → Prop) (m : EStateM ε σ α) : Prop := ∀ s, inv s → inv (stateOf (m s))

section Keeps

variable {inv : σ → Prop}
variable {m : EStateM ε σ α} {p : Prop}

theorem keeps_pure (a : α) : Keeps inv (pure a : EStateM ε σ α) := fun _ h => h

theorem keeps_modify {f : σ → σ} (h : ∀ s, inv s → inv (f s)) : Keeps inv (modify f : EStateM ε σ PUnit) := h

theorem Keeps.bind {f : α → EStateM ε σ β} (hm : Keeps inv m) (hf : ∀ a, Keeps inv (f a)) : Keeps inv (m >>= f) := by
  intro s hs
  have hs' := hm s hs
  rw [bind_run]
  cases hrun : m s with
  | ok a s' =>
    rw [hrun] at hs'
    exact hf a s' hs'
  | error e s' =>
    rw [hrun] at hs'
    exact hs'

theorem keeps_get_bind {f : σ → EStateM ε σ β} (hf : ∀ s, inv s → inv (stateOf (f s s))) : Keeps inv (get >>= f) := by
  intro s hs
  rw [bind_ok (get_run s)]
  exact hf s hs

theorem Keeps.ite [Decidable p] {m' : EStateM ε σ α} (hm : Keeps inv m) (hm' : Keeps inv m') :
    Keeps inv (if p then m else m') := by
  split_ifs
  · exact hm
  · exact hm'

/-- A step that is taken on a condition only, and what follows it. -/
theorem keeps_when [Decidable p] {m : EStateM ε σ PUnit} {f : PUnit → EStateM ε σ β} (hm : Keeps inv m)
    (hf : Keeps inv (f ⟨⟩)) : Keeps inv (if p then m >>= f else f ⟨⟩) := by
  split_ifs
  · exact hm.bind fun _ => hf
  · exact hf

end Keeps

end ActiveMQCpp.Codec
