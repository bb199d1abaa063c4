import Mathlib.Algebra.Order.Group.Int
import Mathlib.Data.List.Basic

/-! Lists with opening and closing marks: the depth of a place, and the pieces between the separators that stand at depth
zero. -/

namespace ActiveMQCpp.Nesting

open List

/-- The marks of a nested list. -/
structure Marks (α : Type) where
  opening : α
  closing : α
  sep : α
  distinct : opening ≠ closing

variable {α : Type} [DecidableEq α] (m : Marks α)

def next (depth : Int) (c : α) : Int :=
  if c = m.opening then depth + 1 else if c = m.closing then depth - 1 else depth

def depthAfter (depth : Int) (xs : List α) : Int := xs.foldl (next m) depth

/-- The pieces of a list; `piece` is what has been read of the first. -/
def pieces : (depth : Int) → (piece : List α) → List α → List (List α)
  | _, piece, [] => [piece]
  | depth, piece, c :: xs =>
    if c = m.sep ∧ depth = 0 then piece :: pieces depth [] xs else pieces (next m depth c) (piece ++ [c]) xs

/-- No separator stands at depth zero. -/
def Whole (depth : Int) (xs : List α) : Prop := ∀ a b, xs = a ++ m.sep :: b → depthAfter m depth a ≠ 0

/-- The marks match, none closes below depth zero, and separators are inside. -/
structure Nested (xs : List α) : Prop where
  closed : depthAfter m 0 xs = 0
  nonneg : ∀ a b, xs = a ++ b → 0 ≤ depthAfter m 0 a
  inside : ∀ a b, xs = a ++ m.sep :: b → 0 < depthAfter m 0 a

variable {m} {depth : Int} {piece xs ys : List α}

theorem nested_iff : Nested m xs ↔ depthAfter m 0 xs = 0 ∧ ∀ n ≤ xs.length,
    0 ≤ depthAfter m 0 (xs.take n) ∧ (xs[n]? = some m.sep → 0 < depthAfter m 0 (xs.take n)) := by
  constructor
  · intro h
    refine ⟨h.closed, fun n _ => ⟨h.nonneg _ _ (take_append_drop n xs).symm, fun hsep => ?_⟩⟩
    obtain ⟨hn, hget⟩ := List.getElem?_eq_some_iff.mp hsep
    apply h.inside _ (xs.drop (n + 1))
    rw [← hget, ← drop_eq_getElem_cons, take_append_drop]
  · rintro ⟨hclosed, hplaces⟩
    refine ⟨hclosed, fun a b hab => ?_, fun a b hab => ?_⟩
    · have hplace := (hplaces a.length (by rw [hab, length_append]; exact Nat.le_add_right _ _)).1
      rw [hab, take_left] at hplace
      exact hplace
    · have hplace := (hplaces a.length (by rw [hab, length_append]; exact Nat.le_add_right _ _)).2
      rw [hab, take_left, List.getElem?_append_right le_rfl, Nat.sub_self] at hplace
      exact hplace rfl

instance (xs : List α) : Decidable (Nested m xs) := decidable_of_iff _ nested_iff.symm

/-- The opening marks are more than the closing ones by what the depth grows. -/
theorem depthAfter_eq_count (depth : Int) (xs : List α) :
    depthAfter m depth xs = depth + xs.count m.opening - xs.count m.closing := by
  induction xs generalizing depth with
  | nil => exact (by omega : depth = depth + (0 : Nat) - (0 : Nat))
  | cons c xs ih =>
    rw [depthAfter, foldl_cons, ← depthAfter, ih, next, count_cons, count_cons]
    simp only [beq_iff_eq]
    by_cases hopening : c = m.opening
    · rw [if_pos hopening, if_pos hopening, if_neg fun h => m.distinct (hopening.symm.trans h)]
      omega
    · by_cases hclosing : c = m.closing
      · rw [if_neg hopening, if_pos hclosing, if_neg hopening, if_pos hclosing]
        omega
      · rw [if_neg hopening, if_neg hclosing, if_neg hopening, if_neg hclosing]
        omega

theorem Nested.whole (h : Nested m xs) : Whole m 0 xs := fun a b hab => ne_of_gt (h.inside a b hab)

theorem Whole.tail {c : α} (h : Whole m depth (c :: xs)) : Whole m (next m depth c) xs := by
  intro a b hab
  exact h (c :: a) b (by rw [hab]; rfl)

theorem pieces_append (h : Whole m depth xs) (piece ys : List α) :
    pieces m depth piece (xs ++ ys) = pieces m (depthAfter m depth xs) (piece ++ xs) ys := by
  induction xs generalizing depth piece with
  | nil =>
    rw [append_nil]
    rfl
  | cons c xs ih =>
    have hhead : ¬ (c = m.sep ∧ depth = 0) := fun hsep => h [] xs (by rw [hsep.1]; rfl) hsep.2
    rw [cons_append, pieces, if_neg hhead, ih h.tail, append_assoc]
    rfl

theorem pieces_of_whole (h : Whole m depth xs) (piece : List α) : pieces m depth piece xs = [piece ++ xs] := by
  have happend := pieces_append h piece []
  rw [append_nil] at happend
  rw [happend]
  rfl

theorem pieces_sep (h : Nested m xs) (ys : List α) : pieces m 0 [] (xs ++ m.sep :: ys) = xs :: pieces m 0 [] ys := by
  rw [pieces_append h.whole, h.closed, pieces, if_pos ⟨rfl, rfl⟩]
  rfl

/-- Nested lists are the pieces of the list that joins them. -/
theorem pieces_intercalate {lists : List (List α)} (hne : lists ≠ []) (h : ∀ xs ∈ lists, Nested m xs) :
    pieces m 0 [] ([m.sep].intercalate lists) = lists := by
  induction lists with
  | nil => exact absurd rfl hne
  | cons xs lists ih =>
    have hxs := h xs mem_cons_self
    cases lists with
    | nil =>
      rw [intercalate_singleton, pieces_of_whole hxs.whole]
      rfl
    | cons ys lists =>
      have hrest := ih (cons_ne_nil ys lists) fun zs hzs => h zs (mem_cons_of_mem xs hzs)
      rw [intercalate_cons_cons, append_assoc, singleton_append, pieces_sep hxs, hrest]

theorem pieces_ne_nil (depth : Int) (piece xs : List α) : pieces m depth piece xs ≠ [] := by
  induction xs generalizing depth piece with
  | nil => exact cons_ne_nil _ _
  | cons c xs ih =>
    rw [pieces]
    split_ifs
    · exact cons_ne_nil _ _
    · exact ih _ _

/-- All that is not in a piece is a separator between two of them. -/
theorem length_pieces (depth : Int) (piece xs : List α) :
    (pieces m depth piece xs).flatten.length + (pieces m depth piece xs).length = piece.length + xs.length + 1 := by
  induction xs generalizing depth piece with
  | nil => rw [pieces, flatten_singleton, length_singleton, length_nil, Nat.add_zero]
  | cons c xs ih =>
    rw [pieces]
    split_ifs
    · have hrest := ih depth []
      rw [flatten_cons, length_append, length_cons, length_cons]
      rw [length_nil] at hrest
      omega
    · rw [ih, length_append, length_singleton, length_cons]
      omega

theorem whole_of_length (h : (pieces m depth piece xs).length = 1) : Whole m depth xs := by
  induction xs generalizing depth piece with
  | nil =>
    intro a b hab
    cases a <;> cases hab
  | cons c xs ih =>
    rw [pieces] at h
    split_ifs at h with hsep
    · rw [length_cons] at h
      exact absurd (eq_nil_of_length_eq_zero (Nat.succ.inj h)) (pieces_ne_nil _ _ _)
    · intro a b hab
      cases a with
      | nil =>
        obtain ⟨hc, -⟩ := List.cons.inj hab
        exact fun hzero => hsep ⟨hc, hzero⟩
      | cons d a =>
        obtain ⟨rfl, hrest⟩ := List.cons.inj hab
        exact ih h a b hrest

end ActiveMQCpp.Nesting
