import Mathlib.Order.Lattice
import Mathlib.Data.List.Pairwise
import Mathlib.Data.List.TakeWhile

/-! A queue ordered by a key, the highest first, and its representation by one list for each key. -/

namespace ActiveMQCpp.Lanes

open List

variable {δ κ : Type}
variable {order : List κ} {lanes : κ → List δ}

def gather (order : List κ) (lanes : κ → List δ) : List δ := order.flatMap lanes

/-- Everything is in the list of its key. -/
def Filed (key : δ → κ) (lanes : κ → List δ) : Prop := ∀ k, ∀ d ∈ lanes k, key d = k

theorem mem_gather {e : δ} : e ∈ gather order lanes ↔ ∃ k ∈ order, e ∈ lanes k := mem_flatMap

theorem gather_of_find_none (hfind : order.find? (fun i => !(lanes i).isEmpty) = none) : gather order lanes = [] := by
  rw [List.find?_eq_none] at hfind
  refine flatMap_eq_nil_iff.mpr fun i hi => ?_
  simpa using hfind i hi

variable [LinearOrder κ]

/-- Behind everything with the same key. -/
def insertLast (key : δ → κ) (d : δ) (l : List δ) : List δ :=
  l.takeWhile (fun e => key d ≤ key e) ++ d :: l.dropWhile (fun e => key d ≤ key e)

/-- Ahead of everything with the same key. -/
def insertFirst (key : δ → κ) (d : δ) (l : List δ) : List δ :=
  l.takeWhile (fun e => key d < key e) ++ d :: l.dropWhile (fun e => key d < key e)

def Ordered (key : δ → κ) (l : List δ) : Prop := l.Pairwise fun d e => key e ≤ key d

variable {key : δ → κ} {d : δ} {l front back : List δ} {order : List κ} {lanes : κ → List δ}
variable {k : κ}

theorem insertLast_append (hfront : ∀ e ∈ front, key d ≤ key e) :
    insertLast key d (front ++ back) = front ++ insertLast key d back := by
  have hall : ∀ e ∈ front, decide (key d ≤ key e) = true := fun e he => decide_eq_true (hfront e he)
  rw [insertLast, takeWhile_append_of_pos hall, dropWhile_append_of_pos hall, append_assoc, insertLast]

theorem insertLast_of_lt (hback : ∀ e ∈ back, key e < key d) : insertLast key d back = d :: back := by
  cases back with
  | nil => rfl
  | cons e back =>
    have hfalse : ¬key d ≤ key e := not_le.mpr (hback e mem_cons_self)
    rw [insertLast, takeWhile_cons_of_neg (by simpa using hfalse), dropWhile_cons_of_neg (by simpa using hfalse),
      nil_append]

theorem insertFirst_append (hfront : ∀ e ∈ front, key d < key e) :
    insertFirst key d (front ++ back) = front ++ insertFirst key d back := by
  have hall : ∀ e ∈ front, decide (key d < key e) = true := fun e he => decide_eq_true (hfront e he)
  rw [insertFirst, takeWhile_append_of_pos hall, dropWhile_append_of_pos hall, append_assoc, insertFirst]

theorem insertFirst_of_le (hback : ∀ e ∈ back, key e ≤ key d) : insertFirst key d back = d :: back := by
  cases back with
  | nil => rfl
  | cons e back =>
    have hfalse : ¬key d < key e := not_lt.mpr (hback e mem_cons_self)
    rw [insertFirst, takeWhile_cons_of_neg (by simpa using hfalse), dropWhile_cons_of_neg (by simpa using hfalse),
      nil_append]

theorem insertLast_perm (key : δ → κ) (d : δ) (l : List δ) : (insertLast key d l).Perm (d :: l) := by
  refine perm_middle.trans ?_
  rw [takeWhile_append_dropWhile]

theorem insertFirst_perm (key : δ → κ) (d : δ) (l : List δ) : (insertFirst key d l).Perm (d :: l) := by
  refine perm_middle.trans ?_
  rw [takeWhile_append_dropWhile]

theorem gather_update_of_not_mem (h : k ∉ order) (lane : List δ) :
    gather order (Function.update lanes k lane) = gather order lanes := by
  have hmap : order.map (Function.update lanes k lane) = order.map lanes := by
    refine map_congr_left fun i hi => ?_
    rw [Function.update_of_ne]
    rintro rfl
    exact h hi
  rw [gather, gather, flatMap_def, flatMap_def, hmap]

theorem Filed.update {lane : List δ} (h : Filed key lanes) (hlane : ∀ e ∈ lane, key e = k) :
    Filed key (Function.update lanes k lane) := by
  intro i e he
  by_cases hi : i = k
  · subst hi
    rw [Function.update_self] at he
    exact hlane e he
  · rw [Function.update_of_ne hi] at he
    exact h i e he

/-- Keys behind a key of a falling order are lower. -/
theorem key_lt_of_gather (hfiled : Filed key lanes) (hall : ∀ i ∈ order, i < k) :
    ∀ e ∈ gather order lanes, key e < k := by
  intro e he
  obtain ⟨i, hi, hmem⟩ := mem_gather.mp he
  rw [hfiled i e hmem]
  exact hall i hi

theorem ordered_gather (hsorted : order.Pairwise (· > ·)) (hfiled : Filed key lanes) :
    Ordered key (gather order lanes) := by
  induction order with
  | nil => exact List.Pairwise.nil
  | cons k order ih =>
    obtain ⟨hfirst, hrest⟩ := pairwise_cons.mp hsorted
    refine pairwise_append.mpr ⟨?_, ih hrest, ?_⟩
    · refine pairwise_of_forall_mem_list fun d hd e he => ?_
      rw [hfiled k d hd, hfiled k e he]
    · intro d hd e he
      rw [hfiled k d hd]
      exact (key_lt_of_gather hfiled hfirst e he).le

theorem gather_append (hsorted : order.Pairwise (· > ·)) (hmem : key d ∈ order) (hfiled : Filed key lanes) :
    gather order (Function.update lanes (key d) (lanes (key d) ++ [d])) = insertLast key d (gather order lanes) := by
  induction order with
  | nil => cases hmem
  | cons k order ih =>
    obtain ⟨hfirst, hrest⟩ := pairwise_cons.mp hsorted
    have hcons : ∀ lanes : κ → List δ, gather (k :: order) lanes = lanes k ++ gather order lanes := fun _ => rfl
    rw [hcons, hcons]
    by_cases hk : key d = k
    · subst hk
      have hnot : key d ∉ order := fun h => lt_irrefl _ (hfirst _ h)
      have hlane : ∀ e ∈ lanes (key d), key d ≤ key e := fun e he => (hfiled _ e he).ge
      rw [Function.update_self, gather_update_of_not_mem hnot, insertLast_append hlane,
        insertLast_of_lt (key_lt_of_gather hfiled hfirst), append_assoc, singleton_append]
    · have hlater : key d ∈ order := (mem_cons.mp hmem).resolve_left hk
      have hlane : ∀ e ∈ lanes k, key d ≤ key e := by
        intro e he
        rw [hfiled k e he]
        exact (hfirst _ hlater).le
      rw [Function.update_of_ne (Ne.symm hk), ih hrest hlater, insertLast_append hlane]

theorem gather_cons (hsorted : order.Pairwise (· > ·)) (hmem : key d ∈ order) (hfiled : Filed key lanes) :
    gather order (Function.update lanes (key d) (d :: lanes (key d))) = insertFirst key d (gather order lanes) := by
  induction order with
  | nil => cases hmem
  | cons k order ih =>
    obtain ⟨hfirst, hrest⟩ := pairwise_cons.mp hsorted
    have hcons : ∀ lanes : κ → List δ, gather (k :: order) lanes = lanes k ++ gather order lanes := fun _ => rfl
    rw [hcons, hcons]
    by_cases hk : key d = k
    · subst hk
      have hnot : key d ∉ order := fun h => lt_irrefl _ (hfirst _ h)
      have hlane : ∀ e ∈ lanes (key d) ++ gather order lanes, key e ≤ key d := by
        intro e he
        rcases mem_append.mp he with hlane | hlater
        · exact (hfiled _ e hlane).le
        · exact (key_lt_of_gather hfiled hfirst e hlater).le
      rw [Function.update_self, gather_update_of_not_mem hnot, insertFirst_of_le hlane, cons_append]
    · have hlater : key d ∈ order := (mem_cons.mp hmem).resolve_left hk
      have hlane : ∀ e ∈ lanes k, key d < key e := by
        intro e he
        rw [hfiled k e he]
        exact hfirst _ hlater
      rw [Function.update_of_ne (Ne.symm hk), ih hrest hlater, insertFirst_append hlane]

/-- The first of the first list that is not empty is the first of all. -/
theorem gather_of_find {tail : List δ} (hnodup : order.Nodup)
    (hfind : order.find? (fun i => !(lanes i).isEmpty) = some k) (hlane : lanes k = d :: tail) :
    gather order lanes = d :: gather order (Function.update lanes k tail) := by
  induction order with
  | nil => cases hfind
  | cons i order ih =>
    obtain ⟨hnot, hrest⟩ := nodup_cons.mp hnodup
    have hcons : ∀ lanes : κ → List δ, gather (i :: order) lanes = lanes i ++ gather order lanes := fun _ => rfl
    rw [hcons, hcons]
    by_cases hempty : lanes i = []
    · rw [List.find?_cons_of_neg (by simp [hempty])] at hfind
      have hne : i ≠ k := by
        rintro rfl
        rw [hempty] at hlane
        cases hlane
      rw [Function.update_of_ne hne, hempty, nil_append, nil_append]
      exact ih hrest hfind
    · rw [List.find?_cons_of_pos (by simpa using hempty)] at hfind
      obtain rfl := Option.some.inj hfind
      rw [Function.update_self, gather_update_of_not_mem hnot, hlane, cons_append]

end ActiveMQCpp.Lanes
