import Mathlib.Data.List.Basic

/-! Buffers of a fixed length as lists, and copies that move one element after the other, between two buffers or
inside one. Inside one buffer such a copy reads what it has written when its target lies behind its source and
overlaps it. -/

namespace ActiveMQCpp.Buffer

open List

variable {α : Type}

/-- Elements from `srcPos` on go to `destPos` and the places behind it, in another buffer. -/
def copyAcross (src : List α) (srcPos : Nat) (dest : List α) (destPos : Nat) : Nat → List α
  | 0 => dest
  | n + 1 =>
    match src[srcPos + n]? with
    | some x => (copyAcross src srcPos dest destPos n).set (destPos + n) x
    | none => copyAcross src srcPos dest destPos n

/-- The same in one buffer: what is read is what the buffer holds by then. -/
def copyWithin (a : List α) (srcPos destPos : Nat) : Nat → List α
  | 0 => a
  | n + 1 =>
    match (copyWithin a srcPos destPos n)[srcPos + n]? with
    | some x => (copyWithin a srcPos destPos n).set (destPos + n) x
    | none => copyWithin a srcPos destPos n

/-- All of the new elements at once. -/
def overwrite (a : List α) (pos : Nat) (xs : List α) : List α := a.take pos ++ (xs ++ a.drop (pos + xs.length))

variable {a src dest xs : List α} {srcPos destPos pos n : Nat}
variable {front : List α}

theorem getElem?_overwrite (h : pos + xs.length ≤ a.length) (j : Nat) :
    (overwrite a pos xs)[j]? = if pos ≤ j ∧ j < pos + xs.length then xs[j - pos]? else a[j]? := by
  have hpos : (a.take pos).length = pos := length_take_of_le (by omega)
  rw [overwrite, List.getElem?_append, hpos]
  by_cases hfront : j < pos
  · rw [if_pos hfront, if_neg (by omega), List.getElem?_take_of_lt hfront]
  · rw [if_neg hfront, List.getElem?_append]
    by_cases hback : j < pos + xs.length
    · rw [if_pos (by omega), if_pos ⟨by omega, hback⟩]
    · rw [if_neg (by omega), if_neg (by omega), List.getElem?_drop]
      congr 1
      omega

theorem length_overwrite (h : pos + xs.length ≤ a.length) : (overwrite a pos xs).length = a.length := by
  rw [overwrite, length_append, length_append, length_take, length_drop]
  omega

theorem set_overwrite (h : pos + xs.length < a.length) (x : α) :
    (overwrite a pos xs).set (pos + xs.length) x = overwrite a pos (xs ++ [x]) := by
  have hle : pos + xs.length ≤ a.length := Nat.le_of_lt h
  apply ext_getElem?
  intro j
  rw [List.getElem?_set, length_overwrite hle, getElem?_overwrite hle,
    getElem?_overwrite (by rw [length_append, length_singleton]; omega), length_append,
    length_singleton]
  by_cases hlast : pos + xs.length = j
  · rw [if_pos hlast, if_pos (by omega), if_pos (by omega), List.getElem?_append_right (by omega)]
    have hzero : j - pos - xs.length = 0 := by omega
    rw [hzero]
    rfl
  · rw [if_neg hlast]
    by_cases hin : pos ≤ j ∧ j < pos + xs.length
    · rw [if_pos hin, if_pos (by omega), List.getElem?_append_left (by omega)]
    · rw [if_neg hin, if_neg (by omega)]

@[simp] theorem overwrite_nil : overwrite a pos [] = a := take_append_drop pos a

theorem take_succ_drop {x : α} (h : src[srcPos + n]? = some x) :
    (src.drop srcPos).take (n + 1) = (src.drop srcPos).take n ++ [x] := by
  rw [take_add_one, List.getElem?_drop, h]
  rfl

theorem copyAcross_eq (hsrc : srcPos + n ≤ src.length) (hdest : destPos + n ≤ dest.length) :
    copyAcross src srcPos dest destPos n = overwrite dest destPos ((src.drop srcPos).take n) := by
  induction n with
  | zero => exact overwrite_nil.symm
  | succ n ih =>
    have hread : src[srcPos + n]? = some src[srcPos + n] := List.getElem?_eq_getElem (by omega)
    have hlength : ((src.drop srcPos).take n).length = n := by
      rw [length_take, length_drop]
      omega
    have hroom : destPos + ((src.drop srcPos).take n).length < dest.length := by omega
    have hset := set_overwrite hroom src[srcPos + n]
    rw [copyAcross, hread, ih (by omega) (by omega), take_succ_drop hread]
    rw [hlength] at hset
    exact hset

/-- The copy inside a buffer is right when it goes to the front, or not onto its own source. -/
theorem copyWithin_eq (hapart : destPos ≤ srcPos ∨ srcPos + n ≤ destPos) (hsrc : srcPos + n ≤ a.length)
    (hdest : destPos + n ≤ a.length) :
    copyWithin a srcPos destPos n = overwrite a destPos ((a.drop srcPos).take n) := by
  induction n with
  | zero => exact overwrite_nil.symm
  | succ n ih =>
    have hread : a[srcPos + n]? = some a[srcPos + n] := List.getElem?_eq_getElem (by omega)
    have hlength : ((a.drop srcPos).take n).length = n := by
      rw [length_take, length_drop]
      omega
    have hcopied := ih (by omega) (by omega) (by omega)
    -- the place read next has not been written
    have hnext : (copyWithin a srcPos destPos n)[srcPos + n]? = some a[srcPos + n] := by
      rw [hcopied, getElem?_overwrite (by omega), hlength, if_neg (by omega), hread]
    have hroom : destPos + ((a.drop srcPos).take n).length < a.length := by omega
    have hset := set_overwrite hroom a[srcPos + n]
    rw [copyWithin, hnext, hcopied, take_succ_drop hread]
    rw [hlength] at hset
    exact hset

theorem overwrite_end {rest : List α} :
    overwrite (front ++ rest) front.length xs = (front ++ xs) ++ rest.drop xs.length := by
  rw [overwrite, take_left, drop_length_add_append, append_assoc]

theorem overwrite_front : overwrite a 0 xs = xs ++ a.drop xs.length := by
  rw [overwrite, take_zero, nil_append, Nat.zero_add]

theorem overwrite_gap {gap back : List α} (h : gap.length = xs.length) :
    overwrite (front ++ (gap ++ back)) front.length xs = front ++ (xs ++ back) := by
  rw [overwrite_end, ← h, drop_left, append_assoc]

end ActiveMQCpp.Buffer
