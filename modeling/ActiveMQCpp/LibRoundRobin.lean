import Mathlib.Data.List.TakeWhile
import Mathlib.Data.List.Basic

/-! Turns of a round robin: the first element that is ready is served and goes to the end of the queue, behind those
that were passed over. An element may also be dropped when it has been served. -/

namespace ActiveMQCpp.RoundRobin

open List

variable {α : Type} (ready keeps : α → Bool)

/-- Whom a turn serves, and the queue after it. -/
def turn (xs : List α) : Option (α × List α) :=
  match xs.dropWhile (!ready ·) with
  | [] => none
  | x :: rest => some (x, rest ++ xs.takeWhile (!ready ·) ++ if keeps x then [x] else [])

/-- Whom `n` turns serve. -/
def served : Nat → List α → List α
  | 0, _ => []
  | n + 1, xs =>
    match turn ready keeps xs with
    | none => []
    | some (x, ys) => x :: served n ys

variable {ready keeps : α → Bool} {xs ys : List α} {x : α}

theorem turn_eq_none (h : turn ready keeps xs = none) : ∀ y ∈ xs, ready y = false := by
  rw [turn] at h
  cases hrest : xs.dropWhile (!ready ·) with
  | nil =>
    intro y hy
    have hall := dropWhile_eq_nil_iff.mp hrest y hy
    simpa using hall
  | cons x rest =>
    rw [hrest] at h
    cases h

theorem turn_eq_some (h : turn ready keeps xs = some (x, ys)) :
    ∃ front back, xs = front ++ x :: back ∧ (∀ y ∈ front, ready y = false) ∧ ready x = true ∧
      ys = back ++ front ++ if keeps x then [x] else [] := by
  rw [turn] at h
  cases hrest : xs.dropWhile (!ready ·) with
  | nil =>
    rw [hrest] at h
    cases h
  | cons x' rest =>
    rw [hrest] at h
    obtain ⟨rfl, rfl⟩ := Prod.mk.inj (Option.some.inj h)
    refine ⟨xs.takeWhile (!ready ·), rest, ?_, ?_, ?_, rfl⟩
    · rw [← hrest, takeWhile_append_dropWhile]
    · intro y hy
      simpa using mem_takeWhile_imp hy
    · have hne : xs.dropWhile (!ready ·) ≠ [] := by
        rw [hrest]
        exact cons_ne_nil _ _
      have hhead := head_dropWhile_not (!ready ·) hne
      simpa [hrest] using hhead

theorem perm_of_turn (h : turn ready keeps xs = some (x, ys)) (hkeep : keeps x = true) : ys.Perm xs := by
  obtain ⟨front, back, rfl, -, -, rfl⟩ := turn_eq_some h
  rw [if_pos hkeep, append_assoc]
  calc back ++ (front ++ [x]) |>.Perm (front ++ [x] ++ back) := perm_append_comm
    _ = front ++ x :: back := by rw [append_assoc]; rfl

theorem length_of_turn (h : turn ready keeps xs = some (x, ys)) (hdrop : keeps x = false) :
    ys.length + 1 = xs.length := by
  obtain ⟨front, back, rfl, -, -, rfl⟩ := turn_eq_some h
  rw [hdrop, if_neg Bool.false_ne_true, append_nil, length_append, length_append, length_cons]
  omega

theorem filter_of_turn (h : turn ready keeps xs = some (x, ys)) :
    ∃ others, xs.filter ready = x :: others ∧ ys.filter ready = others ++ if keeps x then [x] else [] := by
  obtain ⟨front, back, rfl, hfront, hready, rfl⟩ := turn_eq_some h
  have hnone : front.filter ready = [] := filter_eq_nil_iff.mpr fun y hy => by rw [hfront y hy]; decide
  refine ⟨back.filter ready, ?_, ?_⟩
  · rw [filter_append, hnone, filter_cons_of_pos hready]
    rfl
  · rw [filter_append, filter_append, hnone, append_nil]
    congr 1
    cases keeps x with
    | true => exact filter_cons_of_pos hready
    | false => rfl

/-- As long as there is one left, every turn serves another one, in their order. -/
theorem served_eq_take {n : Nat} (hle : n ≤ (xs.filter ready).length) :
    served ready keeps n xs = (xs.filter ready).take n := by
  induction n generalizing xs with
  | zero => rfl
  | succ n ih =>
    rw [served]
    cases hturn : turn ready keeps xs with
    | none =>
      have hnone : xs.filter ready = [] :=
        filter_eq_nil_iff.mpr fun y hy => by rw [turn_eq_none hturn y hy]; decide
      rw [hnone] at hle
      cases hle
    | some result =>
      obtain ⟨x, ys⟩ := result
      obtain ⟨others, hbefore, hafter⟩ := filter_of_turn hturn
      rw [hbefore, length_cons] at hle
      have hleft : n ≤ others.length := Nat.le_of_succ_le_succ hle
      have hqueue : n ≤ (ys.filter ready).length := by
        rw [hafter, length_append]
        exact hleft.trans (Nat.le_add_right _ _)
      rw [hbefore, take_succ_cons]
      dsimp only
      rw [ih hqueue, hafter, take_append_of_le_length hleft]

theorem served_round : served ready keeps (xs.filter ready).length xs = xs.filter ready := by
  rw [served_eq_take (le_refl _), take_length]

end ActiveMQCpp.RoundRobin
