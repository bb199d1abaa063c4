import Mathlib.Data.List.Perm.Subperm
import Mathlib.Data.List.Nodup

/-! Binary heaps in a list, for a comparison that need not tell all elements apart. The parent of the element at `i` is
at `(i - 1) / 2`. A heap that is ordered but for one element is put in order by moving that element up, or down. -/

namespace ActiveMQCpp.Heap

open List

variable {α : Type} (lt : α → α → Bool)

/-- A strict order whose complement is transitive. -/
structure StrictWeak : Prop where
  asymm : ∀ a b, lt a b = true → lt b a = false
  trans : ∀ a b c, lt b a = false → lt c b = false → lt c a = false

/-- Whether the element at `i` is less than the one at `j`. -/
def less (heap : List α) (i j : Nat) : Bool :=
  match heap[i]?, heap[j]? with
  | some a, some b => lt a b
  | _, _ => false

def swap (heap : List α) (i j : Nat) : List α :=
  match heap[i]?, heap[j]? with
  | some a, some b => (heap.set i b).set j a
  | _, _ => heap

/-- The element at `current` goes up, for so many turns, while it is less than its parent. -/
def siftUpFrom : (turns current : Nat) → List α → List α
  | 0, _, heap => heap
  | turns + 1, current, heap =>
    if current ≠ 0 ∧ less lt heap current ((current - 1) / 2) then
      siftUpFrom turns ((current - 1) / 2) (swap heap current ((current - 1) / 2))
    else heap

/-- The child that is not greater than the other one. -/
def smallerChild (heap : List α) (current : Nat) : Nat :=
  if 2 * current + 1 + 1 < heap.length ∧ less lt heap (2 * current + 1 + 1) (2 * current + 1) then 2 * current + 1 + 1
  else 2 * current + 1

/-- The element at `current` goes down, for so many turns, unless it is less than its children. -/
def siftDownFrom : (turns current : Nat) → List α → List α
  | 0, _, heap => heap
  | turns + 1, current, heap =>
    if 2 * current + 1 < heap.length then
      if less lt heap current (smallerChild lt heap current) then heap
      else siftDownFrom turns (smallerChild lt heap current) (swap heap current (smallerChild lt heap current))
    else heap

def siftUp (heap : List α) : List α := siftUpFrom lt heap.length (heap.length - 1) heap

def siftDown (pos : Nat) (heap : List α) : List α := siftDownFrom lt heap.length pos heap

def insert (x : α) (heap : List α) : List α := siftUp lt (heap ++ [x])

/-- The last element takes the place of another one, and goes down. -/
def removeAt (pos : Nat) (heap : List α) : List α :=
  match heap.getLast? with
  | some back => if pos < heap.length then siftDown lt pos (heap.set pos back).dropLast else heap
  | none => heap

def Ordered (heap : List α) : Prop := ∀ i, 0 < i → less lt heap i ((i - 1) / 2) = false

/-- The same but for the element at `i`, which may be less than its parent. -/
structure Almost (heap : List α) (i : Nat) : Prop where
  edges : ∀ j, 0 < j → j ≠ i → less lt heap j ((j - 1) / 2) = false
  around : 0 < i → ∀ c, 0 < c → (c - 1) / 2 = i → less lt heap c ((i - 1) / 2) = false

/-- The same but for the element at `i`, which may be greater than its children. -/
structure Sinking (heap : List α) (i : Nat) : Prop where
  edges : ∀ j, 0 < j → (j - 1) / 2 ≠ i → less lt heap j ((j - 1) / 2) = false
  around : 0 < i → ∀ c, 0 < c → (c - 1) / 2 = i → less lt heap c ((i - 1) / 2) = false

variable {lt}

/-! ### Comparisons -/

variable {heap : List α} {i j k : Nat}

theorem less_eq (hi : i < heap.length) (hj : j < heap.length) : less lt heap i j = lt heap[i] heap[j] := by
  rw [less, List.getElem?_eq_getElem hi, List.getElem?_eq_getElem hj]

theorem less_of_le_left (h : heap.length ≤ i) (j : Nat) : less lt heap i j = false := by
  rw [less, List.getElem?_eq_none h]

theorem less_of_le_right (i : Nat) (h : heap.length ≤ j) : less lt heap i j = false := by
  rw [less, List.getElem?_eq_none h]
  cases heap[i]? <;> rfl

theorem lt_length_of_less (h : less lt heap i j = true) : i < heap.length ∧ j < heap.length := by
  constructor
  · by_contra hi
    rw [less_of_le_left (Nat.not_lt.mp hi)] at h
    cases h
  · by_contra hj
    rw [less_of_le_right _ (Nat.not_lt.mp hj)] at h
    cases h

theorem less_congr {heap' : List α} {i' j' : Nat} (hi : heap'[i']? = heap[i]?) (hj : heap'[j']? = heap[j]?) :
    less lt heap' i' j' = less lt heap i j := by
  rw [less, less, hi, hj]

variable (hlt : StrictWeak lt)
variable {pos : Nat} {back : α}
include hlt

theorem less_asymm (h : less lt heap i j = true) : less lt heap j i = false := by
  obtain ⟨hi, hj⟩ := lt_length_of_less h
  rw [less_eq hi hj] at h
  rw [less_eq hj hi]
  exact hlt.asymm _ _ h

theorem less_irrefl (i : Nat) : less lt heap i i = false := by
  by_contra h
  rw [Bool.not_eq_false] at h
  exact absurd (less_asymm hlt h) (by simp [h])

theorem less_trans (hj : j < heap.length) (hij : less lt heap j i = false) (hjk : less lt heap k j = false) :
    less lt heap k i = false := by
  by_cases hi : i < heap.length
  · by_cases hk : k < heap.length
    · rw [less_eq hj hi] at hij
      rw [less_eq hk hj] at hjk
      rw [less_eq hk hi]
      exact hlt.trans _ _ _ hij hjk
    · exact less_of_le_left (Nat.not_lt.mp hk) _
  · exact less_of_le_right _ (Nat.not_lt.mp hi)

omit hlt

/-! ### Exchanging two elements -/

/-- Where the element at `k` was before the exchange. -/
def source (i j k : Nat) : Nat := if k = j then i else if k = i then j else k

@[simp] theorem length_swap (heap : List α) (i j : Nat) : (swap heap i j).length = heap.length := by
  rw [swap]
  split <;> simp

theorem getElem?_swap (hi : i < heap.length) (hj : j < heap.length) (k : Nat) :
    (swap heap i j)[k]? = heap[source i j k]? := by
  rw [swap, List.getElem?_eq_getElem hi, List.getElem?_eq_getElem hj, source]
  split_ifs with hkj hki
  · rw [hkj, List.getElem?_set_self (by simpa using hj), List.getElem?_eq_getElem hi]
  · rw [hki, List.getElem?_set_ne (by omega), List.getElem?_set_self hi, List.getElem?_eq_getElem hj]
  · rw [List.getElem?_set_ne (by omega), List.getElem?_set_ne (by omega)]

theorem less_swap (hi : i < heap.length) (hj : j < heap.length) (k l : Nat) :
    less lt (swap heap i j) k l = less lt heap (source i j k) (source i j l) :=
  less_congr (getElem?_swap hi hj k) (getElem?_swap hi hj l)

theorem swap_perm (heap : List α) (i j : Nat) : (swap heap i j).Perm heap := by
  rw [swap]
  split
  · rename_i a b hi hj
    obtain ⟨hi', rfl⟩ := List.getElem?_eq_some_iff.mp hi
    obtain ⟨hj', rfl⟩ := List.getElem?_eq_some_iff.mp hj
    exact set_set_perm hi' hj'
  · exact .refl heap

/-! ### Moving up -/

theorem siftUpFrom_perm (turns current : Nat) (heap : List α) : (siftUpFrom lt turns current heap).Perm heap := by
  induction turns generalizing current heap with
  | zero => exact .refl heap
  | succ turns ih =>
    rw [siftUpFrom]
    split_ifs
    · exact (ih _ _).trans (swap_perm heap _ _)
    · exact .refl heap

theorem Ordered.almost (hlt : StrictWeak lt) (h : Ordered lt heap) (i : Nat) : Almost lt heap i := by
  refine ⟨fun j hj _ => h j hj, fun hi c hc hparent => ?_⟩
  by_cases hc' : c < heap.length
  · apply less_trans hlt (j := i) (by omega) (h i hi)
    have hedge := h c hc
    rwa [hparent] at hedge
  · exact less_of_le_left (Nat.not_lt.mp hc') _

theorem Almost.ordered (h : Almost lt heap i) (hi : 0 < i → less lt heap i ((i - 1) / 2) = false) : Ordered lt heap := by
  intro j hj
  by_cases hji : j = i
  · exact hji ▸ hi (hji ▸ hj)
  · exact h.edges j hj hji

theorem Almost.up (hlt : StrictWeak lt) (h : Almost lt heap i) (hpos : 0 < i)
    (hless : less lt heap i ((i - 1) / 2) = true) : Almost lt (swap heap i ((i - 1) / 2)) ((i - 1) / 2) := by
  obtain ⟨hi, hp⟩ := lt_length_of_less hless
  generalize hparent : (i - 1) / 2 = p at hless hp h ⊢
  have hback := less_asymm hlt hless
  constructor
  · intro j hj hjp
    rw [less_swap hi hp, source, source, if_neg hjp]
    by_cases hji : j = i
    · subst hji
      rw [if_pos rfl, if_pos hparent]
      exact hback
    · have hedge := h.edges j hj hji
      rw [if_neg hji]
      split_ifs with hchildp hchildi
      · -- a child of the parent: the exception was less than the parent
        rw [hchildp] at hedge
        exact less_trans hlt hp hback hedge
      · have haround := h.around hpos j hj hchildi
        rwa [hparent] at haround
      · exact hedge
  · intro hppos c hc hcp
    have hcne : c ≠ p := by omega
    have hpp : (p - 1) / 2 ≠ p := by omega
    have hpi : (p - 1) / 2 ≠ i := by omega
    have hpedge := h.edges p hppos (by omega)
    rw [less_swap hi hp, source, source, if_neg hcne, if_neg hpp, if_neg hpi]
    split_ifs with hci
    · exact hpedge
    · have hedge := h.edges c hc hci
      rw [hcp] at hedge
      exact less_trans hlt hp hpedge hedge

theorem siftUpFrom_ordered (hlt : StrictWeak lt) {turns : Nat} (hturns : i ≤ turns) (h : Almost lt heap i) :
    Ordered lt (siftUpFrom lt turns i heap) := by
  induction turns generalizing i heap with
  | zero => exact h.ordered fun hpos => by omega
  | succ turns ih =>
    rw [siftUpFrom]
    split_ifs with hless
    · exact ih (by omega) (h.up hlt (by omega) hless.2)
    · apply h.ordered
      intro hpos
      rw [not_and, Bool.not_eq_true] at hless
      exact hless (by omega)

/-! ### Moving down -/

theorem siftDownFrom_perm (turns current : Nat) (heap : List α) : (siftDownFrom lt turns current heap).Perm heap := by
  induction turns generalizing current heap with
  | zero => exact .refl heap
  | succ turns ih =>
    rw [siftDownFrom]
    split_ifs
    · exact .refl heap
    · exact (ih _ _).trans (swap_perm heap _ _)
    · exact .refl heap

variable (lt) in
theorem smallerChild_parent (heap : List α) (i : Nat) :
    i < smallerChild lt heap i ∧ (smallerChild lt heap i - 1) / 2 = i := by
  rw [smallerChild]
  split_ifs <;> omega

variable (lt) in
theorem smallerChild_lt (h : 2 * i + 1 < heap.length) : smallerChild lt heap i < heap.length := by
  rw [smallerChild]
  split_ifs with hsecond
  · exact hsecond.1
  · exact h

theorem smallerChild_le (hlt : StrictWeak lt) {c : Nat} (hc : 0 < c) (hparent : (c - 1) / 2 = i) :
    less lt heap c (smallerChild lt heap i) = false := by
  have hchild : c = 2 * i + 1 ∨ c = 2 * i + 1 + 1 := by omega
  rw [smallerChild]
  split_ifs with hsecond
  · rcases hchild with rfl | rfl
    · exact less_asymm hlt hsecond.2
    · exact less_irrefl hlt _
  · rcases hchild with rfl | rfl
    · exact less_irrefl hlt _
    · by_cases hlength : 2 * i + 1 + 1 < heap.length
      · rw [not_and, Bool.not_eq_true] at hsecond
        exact hsecond hlength
      · exact less_of_le_left (Nat.not_lt.mp hlength) _

theorem Sinking.down (hlt : StrictWeak lt) (h : Sinking lt heap i) (hfirst : 2 * i + 1 < heap.length)
    (hless : less lt heap i (smallerChild lt heap i) = false) :
    Sinking lt (swap heap i (smallerChild lt heap i)) (smallerChild lt heap i) := by
  obtain ⟨hgt, hparent⟩ := smallerChild_parent lt heap i
  have hmlt := smallerChild_lt lt hfirst
  have hsmallest := fun c => @smallerChild_le α lt heap i hlt c
  generalize smallerChild lt heap i = m at hless hgt hparent hmlt hsmallest ⊢
  have hi : i < heap.length := by omega
  constructor
  · intro j hj hjm
    rw [less_swap hi hmlt, source, source, if_neg hjm]
    by_cases hjeq : j = m
    · subst hjeq
      rw [if_pos rfl, if_pos hparent]
      exact hless
    · by_cases hji : j = i
      · subst hji
        have hne : (j - 1) / 2 ≠ j := by omega
        rw [if_neg hjeq, if_pos rfl, if_neg hne]
        exact h.around hj m (by omega) hparent
      · rw [if_neg hjeq, if_neg hji]
        split_ifs with hchild
        · exact hsmallest j hj hchild
        · exact h.edges j hj hchild
  · intro hmpos c hc hcm
    have hcne : c ≠ m := by omega
    have hci : c ≠ i := by omega
    have him : i ≠ m := by omega
    rw [less_swap hi hmlt, source, source, if_neg hcne, if_neg hci, hparent, if_neg him, if_pos rfl]
    have hedge := h.edges c hc (by omega)
    rwa [hcm] at hedge

theorem Sinking.ordered (h : Sinking lt heap i)
    (hchildren : ∀ c, 0 < c → (c - 1) / 2 = i → less lt heap c i = false) : Ordered lt heap := by
  intro j hj
  by_cases hparent : (j - 1) / 2 = i
  · rw [hparent]
    exact hchildren j hj hparent
  · exact h.edges j hj hparent

theorem siftDownFrom_ordered (hlt : StrictWeak lt) {turns : Nat} (hturns : heap.length ≤ i + turns)
    (h : Sinking lt heap i) : Ordered lt (siftDownFrom lt turns i heap) := by
  induction turns generalizing i heap with
  | zero => exact h.ordered fun c hc hparent => less_of_le_left (by omega) _
  | succ turns ih =>
    have hgt := (smallerChild_parent lt heap i).1
    rw [siftDownFrom]
    split_ifs with hfirst hless
    · apply h.ordered
      intro c hc hparent
      exact less_trans hlt (smallerChild_lt lt hfirst) (less_asymm hlt hless) (smallerChild_le hlt hc hparent)
    · apply ih (by rw [length_swap]; omega)
      exact h.down hlt hfirst (Bool.eq_false_iff.mpr hless)
    · exact h.ordered fun c hc hparent => less_of_le_left (by omega) _

/-- An element that is less than its children stays. -/
theorem siftDownFrom_stays (turns : Nat) (h : less lt heap i (smallerChild lt heap i) = true) :
    siftDownFrom lt turns i heap = heap := by
  cases turns with
  | zero => rfl
  | succ turns =>
    rw [siftDownFrom]
    split_ifs <;> rfl

theorem siftDownFrom_leaf (turns : Nat) (h : heap.length ≤ 2 * i + 1) : siftDownFrom lt turns i heap = heap := by
  cases turns with
  | zero => rfl
  | succ turns => rw [siftDownFrom, if_neg (by omega)]

theorem siftDownFrom_below (turns : Nat) (h : k < i) : (siftDownFrom lt turns i heap)[k]? = heap[k]? := by
  induction turns generalizing i heap with
  | zero => rfl
  | succ turns ih =>
    have hgt := (smallerChild_parent lt heap i).1
    rw [siftDownFrom]
    split_ifs with hfirst
    · rfl
    · rw [ih (by omega), getElem?_swap (by omega) (smallerChild_lt lt hfirst), source, if_neg (by omega), if_neg (by omega)]
    · rfl

/-! ### Adding and removing -/

theorem append_almost {x : α} (h : Ordered lt heap) : Almost lt (heap ++ [x]) heap.length := by
  have hkept : ∀ k, k ≠ heap.length → (heap ++ [x])[k]? = heap[k]? := by
    intro k hk
    by_cases hlt : k < heap.length
    · exact List.getElem?_append_left hlt
    · rw [List.getElem?_eq_none (by simp; omega), List.getElem?_eq_none (by omega)]
  constructor
  · intro j hj hne
    by_cases hparent : (j - 1) / 2 = heap.length
    · exact less_of_le_left (by simp; omega) _
    · rw [less_congr (hkept j hne) (hkept _ hparent)]
      exact h j hj
  · intro _ c hc hparent
    exact less_of_le_left (by simp; omega) _

theorem insert_ordered (hlt : StrictWeak lt) (h : Ordered lt heap) (x : α) : Ordered lt (insert lt x heap) := by
  rw [insert, siftUp, length_append, length_singleton, Nat.add_sub_cancel]
  exact siftUpFrom_ordered hlt (by omega) (append_almost h)

theorem insert_perm (x : α) (heap : List α) : (insert lt x heap).Perm (x :: heap) :=
  (siftUpFrom_perm _ _ _).trans (perm_append_singleton x heap)

theorem removeAt_eq (hpos : pos < heap.length) (hback : heap.getLast? = some back) :
    removeAt lt pos heap = siftDown lt pos (heap.set pos back).dropLast := by
  rw [removeAt, hback]
  dsimp only
  rw [if_pos hpos]

/-- What stands in a heap whose last element has taken the place of another one. -/
theorem getElem?_replaced (hback : heap.getLast? = some back) (hpos : pos + 1 < heap.length) (k : Nat) :
    (heap.set pos back).dropLast[k]? =
      if k = pos then heap[heap.length - 1]? else if k + 1 < heap.length then heap[k]? else none := by
  rw [List.getLast?_eq_getElem?] at hback
  by_cases hk : k + 1 < heap.length
  · rw [List.getElem?_dropLast, if_pos (by simp; omega), if_pos hk]
    split_ifs with hkpos
    · rw [hkpos, List.getElem?_set_self (by omega), hback]
    · rw [List.getElem?_set_ne (by omega)]
  · rw [List.getElem?_dropLast, if_neg (by simp; omega), if_neg (by omega), if_neg hk]

theorem length_replaced (pos : Nat) (back : α) : (heap.set pos back).dropLast.length = heap.length - 1 := by
  rw [length_dropLast, length_set]

theorem less_replaced (hback : heap.getLast? = some back) (hpos : pos + 1 < heap.length)
    (hi : i + 1 < heap.length) (hj : j + 1 < heap.length) :
    less lt (heap.set pos back).dropLast i j =
      less lt heap (if i = pos then heap.length - 1 else i) (if j = pos then heap.length - 1 else j) := by
  apply less_congr
  · rw [getElem?_replaced hback hpos, if_pos hi]
    split_ifs <;> rfl
  · rw [getElem?_replaced hback hpos, if_pos hj]
    split_ifs <;> rfl

theorem exists_back (hpos : pos < heap.length) : ∃ back, heap.getLast? = some back := by
  cases hback : heap.getLast? with
  | none =>
    rw [List.getLast?_eq_none_iff.mp hback] at hpos
    cases hpos
  | some back => exact ⟨back, rfl⟩

variable (lt) in
/-- The last element may stand where another one stands: there is none other, or no parent, or the parent is not
greater. -/
def Fits (pos : Nat) (heap : List α) : Prop :=
  pos = 0 ∨ heap.length ≤ pos + 1 ∨ less lt heap (heap.length - 1) ((pos - 1) / 2) = false

/-- Around the place of the exception nothing is out of order but the element that is put there. -/
theorem Almost.replaced_edges (h : Almost lt heap pos) (hback : heap.getLast? = some back)
    (hpos : pos + 1 < heap.length) (hj : 0 < j) (hne : j ≠ pos) (hparent : (j - 1) / 2 ≠ pos) :
    less lt (heap.set pos back).dropLast j ((j - 1) / 2) = false := by
  by_cases hlength : j + 1 < heap.length
  · rw [less_replaced hback hpos hlength (by omega), if_neg hne, if_neg hparent]
    exact h.edges j hj hne
  · exact less_of_le_left (by rw [length_replaced]; omega) _

theorem Almost.replaced_around (h : Almost lt heap pos) (hback : heap.getLast? = some back)
    (hpos : pos + 1 < heap.length) (hpos0 : 0 < pos) {c : Nat} (hc : 0 < c) (hparent : (c - 1) / 2 = pos) :
    less lt (heap.set pos back).dropLast c ((pos - 1) / 2) = false := by
  by_cases hlength : c + 1 < heap.length
  · rw [less_replaced hback hpos hlength (by omega), if_neg (by omega), if_neg (by omega)]
    exact h.around hpos0 c hc hparent
  · exact less_of_le_left (by rw [length_replaced]; omega) _

theorem removeAt_last (hpos : pos + 1 = heap.length) : removeAt lt pos heap = heap.dropLast := by
  obtain ⟨back, hback⟩ := exists_back (show pos < heap.length by omega)
  rw [removeAt_eq (by omega) hback, siftDown, siftDownFrom_leaf _ (by rw [length_replaced]; omega)]
  apply ext_getElem?
  intro k
  rw [List.getElem?_dropLast, List.getElem?_dropLast, length_set]
  split_ifs with hk
  · rw [List.getElem?_set_ne (by omega)]
  · rfl

theorem dropLast_ordered (h : Almost lt heap pos) (hpos : pos + 1 = heap.length) : Ordered lt heap.dropLast := by
  intro j hj
  by_cases hlength : j + 1 < heap.length
  · have hkept : ∀ k, k + 1 < heap.length → heap.dropLast[k]? = heap[k]? := by
      intro k hk
      rw [List.getElem?_dropLast, if_pos (by omega)]
    rw [less_congr (hkept j hlength) (hkept _ (by omega))]
    exact h.edges j hj (by omega)
  · exact less_of_le_left (by rw [length_dropLast]; omega) _

theorem removeAt_ordered (hlt : StrictWeak lt) (h : Almost lt heap pos) (hpos : pos < heap.length)
    (hfits : Fits lt pos heap) : Ordered lt (removeAt lt pos heap) := by
  by_cases hlast : pos + 1 = heap.length
  · rw [removeAt_last hlast]
    exact dropLast_ordered h hlast
  · have hmiddle : pos + 1 < heap.length := by omega
    obtain ⟨back, hback⟩ := exists_back hpos
    rw [removeAt_eq hpos hback]
    apply siftDownFrom_ordered hlt (by omega)
    constructor
    · intro j hj hparent
      by_cases hjpos : j = pos
      · subst hjpos
        rw [less_replaced hback hmiddle hmiddle (by omega), if_pos rfl, if_neg hparent]
        rcases hfits with hzero | hend | hle
        · omega
        · omega
        · exact hle
      · exact h.replaced_edges hback hmiddle hj hjpos hparent
    · exact fun hpos0 c hc hparent => h.replaced_around hback hmiddle hpos0 hc hparent

/-- One whose last element does not fit leaves this element in the place, less than its parent. -/
theorem removeAt_unfit (hlt : StrictWeak lt) (h : Almost lt heap pos) (hfits : ¬ Fits lt pos heap) :
    Almost lt (removeAt lt pos heap) pos ∧ less lt (removeAt lt pos heap) pos ((pos - 1) / 2) = true ∧
      (removeAt lt pos heap)[pos]? = heap.getLast? := by
  rw [Fits, not_or, not_or, Bool.not_eq_false] at hfits
  obtain ⟨hpos0, hmiddle, hless⟩ := hfits
  rw [Nat.not_le] at hmiddle
  obtain ⟨back, hback⟩ := exists_back (show pos < heap.length by omega)
  have hparent : (pos - 1) / 2 ≠ pos := by omega
  have hroot : less lt (heap.set pos back).dropLast pos ((pos - 1) / 2) = true := by
    rw [less_replaced hback hmiddle hmiddle (by omega), if_pos rfl, if_neg hparent]
    exact hless
  have hchild : ∀ c, 0 < c → (c - 1) / 2 = pos → c + 1 < heap.length →
      less lt (heap.set pos back).dropLast pos c = true := by
    intro c hc hcpos hlength
    by_contra hge
    rw [Bool.not_eq_true] at hge
    have haround := h.replaced_around hback hmiddle (by omega) hc hcpos
    rw [less_trans hlt (by rw [length_replaced]; omega) haround hge] at hroot
    cases hroot
  have hstays : removeAt lt pos heap = (heap.set pos back).dropLast := by
    rw [removeAt_eq (by omega) hback, siftDown]
    by_cases hfirst : 2 * pos + 1 < (heap.set pos back).dropLast.length
    · obtain ⟨hgt, hparent⟩ := smallerChild_parent lt (heap.set pos back).dropLast pos
      have hmlt := smallerChild_lt lt hfirst
      rw [length_replaced] at hmlt
      exact siftDownFrom_stays _ (hchild _ (by omega) hparent (by omega))
    · exact siftDownFrom_leaf _ (by omega)
  rw [hstays]
  refine ⟨⟨?_, ?_⟩, hroot, ?_⟩
  · intro j hj hne
    by_cases hjpos : (j - 1) / 2 = pos
    · rw [hjpos]
      by_cases hlength : j + 1 < heap.length
      · exact less_asymm hlt (hchild j hj hjpos hlength)
      · exact less_of_le_left (by rw [length_replaced]; omega) _
    · exact h.replaced_edges hback hmiddle hj hne hjpos
  · exact fun hpos0 c hc hcpos => h.replaced_around hback hmiddle hpos0 hc hcpos
  · rw [getElem?_replaced hback hmiddle, if_pos rfl, List.getLast?_eq_getElem?]

theorem removeAt_beyond (h : heap.length ≤ pos) : removeAt lt pos heap = heap := by
  rw [removeAt]
  split
  · rw [if_neg (by omega)]
  · rfl

theorem removeAt_below (h : k < pos) : (removeAt lt pos heap)[k]? = heap[k]? := by
  by_cases hpos : pos < heap.length
  · obtain ⟨back, hback⟩ := exists_back hpos
    rw [removeAt_eq hpos hback, siftDown, siftDownFrom_below _ h, List.getElem?_dropLast, if_pos (by simp; omega),
      List.getElem?_set_ne (by omega)]
  · rw [removeAt_beyond (by omega)]

/-- A removal keeps the order of the heap exactly when the last element fits. -/
theorem ordered_removeAt_iff (hlt : StrictWeak lt) (h : Ordered lt heap) (pos : Nat) :
    Ordered lt (removeAt lt pos heap) ↔ Fits lt pos heap := by
  constructor
  · intro hordered
    by_contra hfits
    obtain ⟨-, hless, -⟩ := removeAt_unfit hlt (h.almost hlt pos) hfits
    have hpos0 : 0 < pos := by
      rw [Fits, not_or] at hfits
      omega
    rw [hordered pos hpos0] at hless
    cases hless
  · intro hfits
    by_cases hpos : pos < heap.length
    · exact removeAt_ordered hlt (h.almost hlt pos) hpos hfits
    · rwa [removeAt_beyond (by omega)]

theorem removeAt_perm (pos : Nat) (heap : List α) : (removeAt lt pos heap).Perm (heap.eraseIdx pos) := by
  rcases eq_nil_or_concat heap with rfl | ⟨front, back, rfl⟩
  · exact .refl _
  rw [concat_eq_append, removeAt, List.getLast?_concat]
  simp only [length_append, length_singleton]
  by_cases hpos : pos < front.length
  · rw [if_pos (Nat.lt_succ_of_lt hpos), set_append_left _ _ hpos, dropLast_concat,
      eraseIdx_append_of_lt_length hpos]
    have hset := set_perm_cons_eraseIdx hpos back
    exact (siftDownFrom_perm _ _ _).trans (hset.trans (perm_append_singleton back _).symm)
  by_cases hback : pos = front.length
  · subst hback
    rw [if_pos (Nat.lt_succ_self _), set_append_right _ _ (Nat.le_refl _), Nat.sub_self, set_cons_zero,
      dropLast_concat, eraseIdx_append_of_length_le (Nat.le_refl _), Nat.sub_self, eraseIdx_cons_zero,
      append_nil]
    exact siftDownFrom_perm _ _ _
  · rw [if_neg (by omega), eraseIdx_of_length_le (by rw [length_append, length_singleton]; omega)]

theorem Ordered.less_root (hlt : StrictWeak lt) (h : Ordered lt heap) (i : Nat) : less lt heap i 0 = false := by
  induction i using Nat.strongRecOn with
  | ind i ih =>
    by_cases hi : 0 < i
    · by_cases hlength : i < heap.length
      · exact less_trans hlt (by omega) (ih _ (by omega)) (h i hi)
      · exact less_of_le_left (by omega) _
    · obtain rfl : i = 0 := by omega
      exact less_irrefl hlt 0

theorem Ordered.head_le (hlt : StrictWeak lt) (h : Ordered lt heap) {first x : α} (hfirst : heap.head? = some first)
    (hx : x ∈ heap) : lt x first = false := by
  obtain ⟨i, hi, rfl⟩ := getElem_of_mem hx
  have hless := h.less_root hlt i
  rw [List.head?_eq_getElem?] at hfirst
  rwa [less, List.getElem?_eq_getElem hi, hfirst] at hless

end ActiveMQCpp.Heap
