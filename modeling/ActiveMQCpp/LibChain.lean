import Mathlib.Data.List.Chain
import Mathlib.Data.List.Nodup

/-! Places that are linked in both directions, and what their links say about a list of them. -/

namespace ActiveMQCpp.Chain

open List

variable {ρ : Type}

/-- The links that can be read at a place. -/
structure Links (ρ : Type) where
  next : ρ → Option ρ
  prev : ρ → Option ρ

def Links.Linked (L : Links ρ) (a b : ρ) : Prop := L.next a = some b ∧ L.prev b = some a

/-- Every place of the list is linked to the one behind it, and that one back to it. -/
def Links.Chained (L : Links ρ) (places : List ρ) : Prop := places.IsChain L.Linked

variable {L L' : Links ρ} {places front back old new : List ρ} {a b : ρ} {i n : Nat}

theorem Links.Chained.linked (h : L.Chained places) (ha : places[i]? = some a) (hb : places[i + 1]? = some b) :
    L.Linked a b := by
  obtain ⟨hi, rfl⟩ := List.getElem?_eq_some_iff.mp ha
  obtain ⟨hi', rfl⟩ := List.getElem?_eq_some_iff.mp hb
  exact h.getElem i hi'

theorem chained_pair : L.Chained [a, b] ↔ L.Linked a b := isChain_pair

theorem chained_split : L.Chained (front ++ a :: back) ↔ L.Chained (front ++ [a]) ∧ L.Chained (a :: back) :=
  isChain_split

theorem Links.Chained.congr (h : L.Chained places) (hnext : ∀ u ∈ places.dropLast, L'.next u = L.next u)
    (hprev : ∀ u ∈ places.tail, L'.prev u = L.prev u) : L'.Chained places := by
  induction places with
  | nil => exact .nil
  | cons a places ih =>
    cases places with
    | nil => exact .singleton a
    | cons b places =>
      obtain ⟨⟨hab, hba⟩, hrest⟩ := isChain_cons_cons.mp h
      refine isChain_cons_cons.mpr ⟨⟨?_, ?_⟩, ih hrest (fun u hu => ?_) (fun u hu => ?_)⟩
      · rw [hnext a mem_cons_self, hab]
      · rw [hprev b mem_cons_self, hba]
      · exact hnext u (mem_cons_of_mem a hu)
      · exact hprev u (mem_cons_of_mem b hu)

theorem Links.Chained.splice (h : L.Chained (front ++ a :: (old ++ b :: back)))
    (hnew : L'.Chained (a :: (new ++ [b])))
    (hnext : ∀ u, u ∈ front ∨ u ∈ (b :: back).dropLast → L'.next u = L.next u)
    (hprev : ∀ u, u ∈ (front ++ [a]).tail ∨ u ∈ back → L'.prev u = L.prev u) :
    L'.Chained (front ++ a :: (new ++ b :: back)) := by
  obtain ⟨hfront, hrest⟩ := chained_split.mp h
  rw [← cons_append] at hrest
  have hback := (chained_split.mp hrest).2
  have hfront' : L'.Chained (front ++ [a]) := by
    apply hfront.congr
    · intro u hu
      rw [dropLast_concat] at hu
      exact hnext u (.inl hu)
    · exact fun u hu => hprev u (.inl hu)
  have hback' : L'.Chained (b :: back) := hback.congr (fun u hu => hnext u (.inr hu)) fun u hu => hprev u (.inr hu)
  refine chained_split.mpr ⟨hfront', ?_⟩
  rw [← cons_append]
  exact chained_split.mpr ⟨hnew, hback'⟩

/-- A chain that leaves no place twice and comes to no place twice; its last place may be its first. -/
structure Links.Path (L : Links ρ) (places : List ρ) : Prop where
  chained : L.Chained places
  leaves : places.dropLast.Nodup
  enters : places.tail.Nodup

theorem dropLast_middle (new : List ρ) : (front ++ a :: (new ++ b :: back)).dropLast = front ++ a :: (new ++ (b :: back).dropLast) := by
  rw [← cons_append, ← append_assoc, dropLast_append_of_ne_nil (cons_ne_nil b back),
    append_assoc, cons_append]

theorem tail_middle (new : List ρ) : (front ++ a :: (new ++ b :: back)).tail = (front ++ [a]).tail ++ (new ++ b :: back) := by
  cases front <;> simp

section Edit

variable {x : ρ}

theorem nodup_insert (h : (front ++ back).Nodup) (hx : x ∉ front ++ back) : (front ++ x :: back).Nodup := by
  rw [nodup_middle, nodup_cons]
  exact ⟨hx, h⟩

theorem nodup_remove (h : (front ++ x :: back).Nodup) : (front ++ back).Nodup ∧ x ∉ front ++ back := by
  rw [nodup_middle, nodup_cons] at h
  exact ⟨h.2, h.1⟩

theorem Links.Path.insert (h : L.Path (front ++ a :: b :: back)) (hx : x ∉ front ++ a :: b :: back)
    (hax : L'.Linked a x) (hxb : L'.Linked x b) (hnext : ∀ u, u ≠ a → u ≠ x → L'.next u = L.next u)
    (hprev : ∀ u, u ≠ b → u ≠ x → L'.prev u = L.prev u) : L'.Path (front ++ a :: x :: b :: back) := by
  have hleaves : (front ++ a :: (b :: back).dropLast).Nodup := dropLast_middle [] ▸ h.leaves
  have henters : ((front ++ [a]).tail ++ b :: back).Nodup := tail_middle [] ▸ h.enters
  have hlast : ∀ u ∈ (b :: back).dropLast, u ∈ b :: back := fun u hu => dropLast_subset _ hu
  have hfirst : ∀ u ∈ (front ++ [a]).tail, u ∈ front ++ [a] := fun u hu => mem_of_mem_tail hu
  have hold : L.Chained (front ++ a :: ([] ++ b :: back)) := h.chained
  have hnew : L'.Chained (a :: ([x] ++ [b])) := isChain_cons_cons.mpr ⟨hax, chained_pair.mpr hxb⟩
  refine ⟨hold.splice hnew ?_ ?_, ?_, ?_⟩
  · intro u hu
    apply hnext <;> grind
  · intro u hu
    apply hprev <;> grind
  · have hsplit : (front ++ a :: x :: b :: back).dropLast = (front ++ [a]) ++ x :: (b :: back).dropLast := by
      rw [append_assoc]
      exact dropLast_middle [x]
    rw [hsplit]
    apply nodup_insert
    · rwa [append_assoc]
    · grind
  · have hsplit : (front ++ a :: x :: b :: back).tail = (front ++ [a]).tail ++ x :: b :: back :=
      tail_middle [x]
    rw [hsplit]
    apply nodup_insert henters
    grind

theorem Links.Path.unlink (h : L.Path (front ++ a :: x :: b :: back)) (hab : L'.Linked a b)
    (hnext : ∀ u, u ≠ a → u ≠ x → L'.next u = L.next u) (hprev : ∀ u, u ≠ b → u ≠ x → L'.prev u = L.prev u) :
    L'.Path (front ++ a :: b :: back) := by
  have hleaves : (front ++ a :: ([x] ++ (b :: back).dropLast)).Nodup := dropLast_middle [x] ▸ h.leaves
  have henters : ((front ++ [a]).tail ++ ([x] ++ b :: back)).Nodup := tail_middle [x] ▸ h.enters
  have hold : L.Chained (front ++ a :: ([x] ++ b :: back)) := h.chained
  have hnew : L'.Chained (a :: ([] ++ [b])) := chained_pair.mpr hab
  refine ⟨hold.splice hnew ?_ ?_, ?_, ?_⟩
  · intro u hu
    apply hnext <;> grind
  · intro u hu
    apply hprev <;> grind
  · have hsplit : (front ++ a :: b :: back).dropLast = front ++ a :: (b :: back).dropLast :=
      dropLast_middle []
    rw [hsplit]
    rw [← singleton_append, ← append_assoc] at hleaves ⊢
    exact (nodup_remove hleaves).1
  · have hsplit : (front ++ a :: b :: back).tail = (front ++ [a]).tail ++ b :: back := tail_middle []
    rw [hsplit]
    exact (nodup_remove henters).1

end Edit

/-- A link followed a number of times. -/
def follow (link : ρ → Option ρ) : Nat → ρ → Option ρ
  | 0, a => some a
  | n + 1, a => (link a).bind (follow link n)

theorem Links.Chained.follow_next (h : L.Chained places) (ha : places[i]? = some a)
    (hb : places[i + n]? = some b) : follow L.next n a = some b := by
  induction n generalizing i a with
  | zero => exact ha.symm.trans hb
  | succ n ih =>
    have hlt := (List.getElem?_eq_some_iff.mp hb).1
    have hmiddle : places[i + 1]? = some places[i + 1] := List.getElem?_eq_getElem (by omega)
    rw [follow, (h.linked ha hmiddle).1, Option.bind_some]
    apply ih hmiddle
    rw [← hb]
    congr 1
    omega

theorem Links.Chained.follow_prev (h : L.Chained places) (ha : places[i + n]? = some a)
    (hb : places[i]? = some b) : follow L.prev n a = some b := by
  induction n generalizing a with
  | zero => exact ha.symm.trans hb
  | succ n ih =>
    have hlt := (List.getElem?_eq_some_iff.mp ha).1
    have hmiddle : places[i + n]? = some places[i + n] := List.getElem?_eq_getElem (by omega)
    rw [follow, (h.linked hmiddle ha).2, Option.bind_some]
    exact ih hmiddle

end ActiveMQCpp.Chain
