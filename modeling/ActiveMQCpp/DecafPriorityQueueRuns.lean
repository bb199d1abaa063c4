import ActiveMQCpp.DecafPriorityQueue

/-! The operations on a `PriorityQueue`, its iterator among them, in any order. `remove` of the iterator takes the element
behind the one that `next` returned, and no removal moves the last element up. -/

namespace ActiveMQCpp.Decaf.PriorityQueue

open Runs Heap List

variable {ε : Type}

/-- `PriorityQueueIterator`, with the elements it has returned and those that were there when it began. -/
structure PriorityQueueIterator (ε : Type) where
  position : Nat := 0
  allowRemove : Bool := false
  returned : List ε := []
  all : List ε

/-- A queue and its iterator, which no other change of the queue outlives. -/
structure Traversed (ε : Type) where
  queue : PriorityQueue ε
  iterator : Option (PriorityQueueIterator ε) := none

inductive Operation (ε : Type) where
  | offer (value : ε)
  | poll
  | peek
  | remove (value : ε)
  | clear
  | assign (source : PriorityQueue ε)
  | assignCollection (source : List ε)
  | assignSelf
  | iterator
  | next
  | iteratorRemove

/-- `next`; where there is no element it throws. -/
def PriorityQueueIterator.next (q : PriorityQueue ε) (i : PriorityQueueIterator ε) : PriorityQueueIterator ε :=
  match q.elements[i.position]? with
  | some element => { i with position := i.position + 1, allowRemove := true, returned := i.returned ++ [element] }
  | none => i

def PriorityQueueIterator.back (i : PriorityQueueIterator ε) : PriorityQueueIterator ε :=
  { i with position := i.position - 1, allowRemove := false }

def PriorityQueueIterator.remove (q : PriorityQueue ε) (i : PriorityQueueIterator ε) : Option (Traversed ε) :=
  if i.allowRemove then
    (q.removeAt i.position).map fun queue => { queue, iterator := some i.back }
  else some { queue := q, iterator := some i }

section

variable (enlarged : Nat → Nat) (less : Comparator ε)

/-- An operation; none where the array is written behind its end. -/
def step (s : Traversed ε) : Operation ε → Option (Traversed ε)
  | .offer value => some { queue := s.queue.offer value }
  | .poll => some ((s.queue.poll.map fun result => { queue := result.2 }).getD s)
  | .peek => some s
  | .remove value => some { queue := (s.queue.remove value).2 }
  | .clear => some { queue := s.queue.clear }
  | .assign source => (getFromPriorityQueue enlarged source s.queue).map fun queue => { queue }
  | .assignCollection source => some { queue := s.queue.getFromCollection enlarged less source }
  | .assignSelf => some { queue := s.queue.getFromSelf enlarged }
  | .iterator => some { s with iterator := some { all := s.queue.elements } }
  | .next => some { s with iterator := s.iterator.map fun i => i.next s.queue }
  | .iteratorRemove => match s.iterator with
      | some i => i.remove s.queue
      | none => some s

end

def Least (q : PriorityQueue ε) (x : ε) : Prop := x ∈ q.elements ∧ ∀ y ∈ q.elements, q.comparator.compare x y ≤ 0

/-- What an operation has to do with the elements. -/
def Effect (s : Traversed ε) (s' : Traversed ε) : Operation ε → Prop
  | .offer value => s'.queue.elements.Perm (value :: s.queue.elements)
  | .poll => match s.queue.poll with
      | some (result, _) => Least s.queue result ∧ s.queue.elements.Perm (result :: s'.queue.elements)
      | none => s.queue.elements = [] ∧ s' = s
  | .peek => s' = s ∧ match s.queue.peek with
      | some result => Least s.queue result
      | none => s.queue.elements = []
  | .remove value => if (s.queue.remove value).1 then
        ∃ x, s.queue.comparator.compare value x = 0 ∧ s.queue.elements.Perm (x :: s'.queue.elements)
      else (∀ x ∈ s.queue.elements, s.queue.comparator.compare value x ≠ 0) ∧ s'.queue = s.queue
  | .clear => s'.queue.elements = []
  | .assign source => s'.queue.elements.Perm source.elements ∧ s'.queue.comparator = source.comparator
  | .assignCollection source => s'.queue.elements.Perm source
  | .assignSelf => s'.queue.elements.Perm s.queue.elements
  | .iterator => s'.queue = s.queue
  | .next => s'.queue = s.queue
  | .iteratorRemove => match s.iterator with
      | some i => if i.allowRemove then
            ∃ last, i.returned.getLast? = some last ∧ s.queue.elements.Perm (last :: s'.queue.elements)
          else s' = s
      | none => s' = s

/-- What the iterator has returned and what it still will return are the elements that were there when it began. -/
def VisitsAll (s : Traversed ε) : Prop :=
  ∀ i ∈ s.iterator, (i.returned ++ s.queue.elements.drop i.position).Perm i.all

/-- The operation has its effect, and leaves the queue in order and the iterator right. -/
def Right (enlarged : Nat → Nat) (less : Comparator ε) (s : Traversed ε) (operation : Operation ε) : Prop :=
  ∃ s', step enlarged less s operation = some s' ∧ Effect s s' operation ∧ s'.queue.InOrder ∧ VisitsAll s'

/-- The last element fits where one is removed, a queue that is copied is in order, and not the queue itself unless it
is empty. The iterator removes the last element, with a slot behind it, or one that is equal to the one behind it. -/
def Sound (s : Traversed ε) : Operation ε → Prop
  | .remove value => ∀ index ∈ s.queue.targetIndex value, Heap.Fits s.queue.comparator.lt index s.queue.elements
  | .assign source => source.InOrder
  | .assignSelf => s.queue.elements = []
  | .iteratorRemove => ∀ i ∈ s.iterator, i.allowRemove = true →
      (i.position = s.queue.elements.length ∧ i.position < s.queue.capacity) ∨
      (i.position < s.queue.elements.length ∧ s.queue.elements[i.position]? = s.queue.elements[i.position - 1]? ∧
        Heap.Fits s.queue.comparator.lt i.position s.queue.elements)
  | _ => True

/-- The iterator stands in the queue, behind the element it has returned last. -/
structure Placed (s : Traversed ε) (i : PriorityQueueIterator ε) : Prop where
  position : i.position ≤ s.queue.elements.length
  last : i.allowRemove = true → 0 < i.position ∧ i.returned.getLast? = s.queue.elements[i.position - 1]?

structure Inv (s : Traversed ε) : Prop where
  inOrder : s.queue.InOrder
  visitsAll : VisitsAll s
  placed : ∀ i ∈ s.iterator, Placed s i

/-! ### Without the iterator -/

variable {q : PriorityQueue ε} {x : ε} {s : Traversed ε}

theorem inv_of_queue (h : q.InOrder) : Inv { queue := q } :=
  ⟨h, fun i hi => (by cases hi), fun i hi => (by cases hi)⟩

variable {index : Nat} {value : ε} {operation : Operation ε}

theorem removeAt_perm_cons (hx : q.elements[index]? = some x) :
    q.elements.Perm (x :: Heap.removeAt q.comparator.lt index q.elements) := by
  obtain ⟨hlt, rfl⟩ := List.getElem?_eq_some_iff.mp hx
  have hrest : (Heap.removeAt q.comparator.lt index q.elements).Perm (q.elements.eraseIdx index) :=
    removeAt_perm index q.elements
  exact (getElem_cons_eraseIdx_perm hlt).symm.trans (hrest.symm.cons _)

theorem least_of_peek (h : q.InOrder) (hx : q.peek = some x) : Least q x :=
  ⟨mem_of_mem_head? hx, fun _ hy => peek_least h hx hy⟩

theorem poll_right (h : q.InOrder) {q' : PriorityQueue ε} (hpoll : q.poll = some (x, q')) :
    Least q x ∧ q.elements.Perm (x :: q'.elements) ∧ q'.InOrder := by
  obtain ⟨first, hfirst, heq⟩ := Option.map_eq_some_iff.mp hpoll
  cases heq
  refine ⟨least_of_peek h hfirst, ?_, ?_⟩
  · apply removeAt_perm_cons
    rw [← hfirst, peek, List.head?_eq_getElem?]
  · exact (ordered_removeAt_iff q.comparator.lt_weak h 0).mpr (.inl rfl)

theorem remove_some (h : q.targetIndex value = some index) :
    (∃ x, q.elements[index]? = some x ∧ q.comparator.compare value x = 0) ∧
      q.remove value = (true, { q with elements := Heap.removeAt q.comparator.lt index q.elements }) := by
  obtain ⟨hlt, hzero, -⟩ := List.findIdx?_eq_some_iff_getElem.mp h
  refine ⟨⟨_, List.getElem?_eq_getElem hlt, of_decide_eq_true hzero⟩, ?_⟩
  rw [remove, h]

theorem remove_none (h : q.targetIndex value = none) :
    (∀ x ∈ q.elements, q.comparator.compare value x ≠ 0) ∧ q.remove value = (false, q) := by
  refine ⟨fun x hx => ?_, by rw [remove, h]⟩
  exact of_decide_eq_false (List.findIdx?_eq_none_iff.mp h x hx)

/-! ### The iterator -/

theorem getElem?_drop_cons {elements : List ε} {position : Nat} (hx : elements[position]? = some x) :
    elements.drop position = x :: elements.drop (position + 1) := by
  obtain ⟨hlt, rfl⟩ := List.getElem?_eq_some_iff.mp hx
  exact drop_eq_getElem_cons hlt

theorem next_inv (h : Inv s) : Inv { s with iterator := s.iterator.map fun i => i.next s.queue } := by
  have hnext : ∀ i ∈ s.iterator, ((i.next s.queue).returned ++ s.queue.elements.drop (i.next s.queue).position).Perm i.all ∧
      (i.next s.queue).all = i.all ∧ Placed s (i.next s.queue) := by
    intro i hi
    have hplaced := h.placed i hi
    have hvisits := h.visitsAll i hi
    rw [PriorityQueueIterator.next]
    cases hx : s.queue.elements[i.position]? with
    | none => exact ⟨hvisits, rfl, hplaced⟩
    | some x =>
      have hlt := (List.getElem?_eq_some_iff.mp hx).1
      rw [getElem?_drop_cons hx] at hvisits
      refine ⟨?_, rfl, hlt, fun _ => ⟨Nat.succ_pos _, ?_⟩⟩
      · rwa [append_assoc, singleton_append]
      · rw [List.getLast?_concat, Nat.add_sub_cancel, hx]
  refine ⟨h.inOrder, fun i hi => ?_, fun i hi => ?_⟩
  · obtain ⟨j, hj, rfl⟩ := Option.map_eq_some_iff.mp hi
    obtain ⟨hperm, hall, -⟩ := hnext j hj
    rw [hall]
    exact hperm
  · obtain ⟨j, hj, rfl⟩ := Option.map_eq_some_iff.mp hi
    obtain ⟨-, -, hposition, hlast⟩ := hnext j hj
    exact ⟨hposition, hlast⟩

theorem eq_of_perm_cons {xs ys zs : List ε} {y : ε} (hx : xs.Perm (x :: zs)) (hy : ys.Perm (y :: zs)) (h : xs.Perm ys) :
    x = y := by
  have hcons : (x :: zs).Perm (y :: zs) := (hx.symm.trans h).trans hy
  have hmultiset : x ::ₘ (zs : Multiset ε) = y ::ₘ (zs : Multiset ε) := Quotient.sound hcons
  exact (Multiset.cons_inj_left _).mp hmultiset

section Remove

variable {q : PriorityQueue ε} {i : PriorityQueueIterator ε}

theorem remove_end (hlast : i.allowRemove = true) (hend : i.position = q.elements.length)
    (hcapacity : i.position < q.capacity) :
    i.remove q = some ⟨{ q with elements := q.elements.dropLast }, some i.back⟩ := by
  rw [PriorityQueueIterator.remove, if_pos hlast, removeAt, if_neg (by omega), if_pos hcapacity]
  rfl

theorem remove_inside (hlast : i.allowRemove = true) (hinside : i.position < q.elements.length) : i.remove q =
      some ⟨{ q with elements := Heap.removeAt q.comparator.lt i.position q.elements }, some i.back⟩ := by
  rw [PriorityQueueIterator.remove, if_pos hlast, removeAt, if_pos hinside]
  rfl

theorem remove_undefined (hlast : i.allowRemove = true) (hend : q.elements.length ≤ i.position)
    (hcapacity : q.capacity ≤ i.position) : i.remove q = none := by
  rw [PriorityQueueIterator.remove, if_pos hlast, removeAt, if_neg (by omega), if_neg (by omega)]
  rfl

theorem drop_removeAt {lt : ε → ε → Bool} {elements : List ε} {position : Nat} {x : ε} (hpos : 0 < position)
    (hx : elements[position]? = some x) (hsame : elements[position - 1]? = some x) :
    ((Heap.removeAt lt position elements).drop (position - 1)).Perm (elements.drop position) := by
  have hplace : (Heap.removeAt lt position elements)[position - 1]? = some x := by
    rw [removeAt_below (by omega), hsame]
  have hprefix : (Heap.removeAt lt position elements).take position = (elements.eraseIdx position).take position := by
    apply ext_getElem?
    intro k
    rw [List.getElem?_take, List.getElem?_take]
    split_ifs with hk
    · rw [removeAt_below hk, List.getElem?_eraseIdx_of_lt hk]
    · rfl
  have hrest : ((Heap.removeAt lt position elements).drop position).Perm ((elements.eraseIdx position).drop position) := by
    have hall : (Heap.removeAt lt position elements).Perm (elements.eraseIdx position) :=
      removeAt_perm position elements
    rw [← List.take_append_drop position (Heap.removeAt lt position elements),
      ← take_append_drop position (elements.eraseIdx position), hprefix] at hall
    exact (perm_append_left_iff _).mp hall
  have herase : (elements.eraseIdx position).drop position = elements.drop (position + 1) := by
    apply ext_getElem?
    intro k
    rw [List.getElem?_drop, List.getElem?_drop, List.getElem?_eraseIdx_of_ge (by omega)]
    congr 1
    omega
  have hback : position - 1 + 1 = position := by omega
  rw [getElem?_drop_cons hplace, hback, getElem?_drop_cons hx, ← herase]
  exact hrest.cons x

variable {s : Traversed ε} {i : PriorityQueueIterator ε}

theorem remove_right (h : Inv s) (hi : s.iterator = some i)
    (hlast : i.allowRemove = true) (hsound : Sound s .iteratorRemove) :
    ∃ s', i.remove s.queue = some s' ∧
      (∃ last, i.returned.getLast? = some last ∧ s.queue.elements.Perm (last :: s'.queue.elements)) ∧ Inv s' := by
  obtain ⟨hle, hplaced⟩ := h.placed i hi
  obtain ⟨hpos, hreturned⟩ := hplaced hlast
  have hvisits := h.visitsAll i hi
  have hbefore : i.position - 1 < s.queue.elements.length := by omega
  rw [List.getElem?_eq_getElem hbefore] at hreturned
  rcases hsound i hi hlast with ⟨hend, hcapacity⟩ | ⟨hinside, hequal, hfits⟩
  · have hempty : s.queue.elements.drop i.position = [] := drop_eq_nil_of_le (by omega)
    refine ⟨_, remove_end hlast hend hcapacity, ⟨_, hreturned, ?_⟩, ?_, ?_, ?_⟩
    · have hne : s.queue.elements ≠ [] := ne_nil_of_length_pos (by omega)
      have hgetLast : s.queue.elements[i.position - 1] = s.queue.elements.getLast hne := by
        rw [getLast_eq_getElem]
        congr 1
        omega
      rw [hgetLast]
      have happend := perm_append_singleton (s.queue.elements.getLast hne) s.queue.elements.dropLast
      rwa [dropLast_append_getLast] at happend
    · exact dropLast_ordered (h.inOrder.almost s.queue.comparator.lt_weak (i.position - 1)) (by omega)
    · intro j hj
      cases hj
      have hnothing : s.queue.elements.dropLast.drop (i.position - 1) = [] :=
        drop_eq_nil_of_le (by rw [length_dropLast]; omega)
      rw [hempty] at hvisits
      show (i.returned ++ s.queue.elements.dropLast.drop (i.position - 1)).Perm i.all
      rw [hnothing]
      exact hvisits
    · intro j hj
      cases hj
      refine ⟨?_, fun hfalse => absurd hfalse Bool.false_ne_true⟩
      show i.position - 1 ≤ s.queue.elements.dropLast.length
      rw [length_dropLast]
      omega
  · have hx := List.getElem?_eq_getElem hinside
    rw [hx, List.getElem?_eq_getElem hbefore] at hequal
    rw [← hequal] at hreturned
    have hsame : s.queue.elements[i.position - 1]? = some s.queue.elements[i.position] := by
      rw [List.getElem?_eq_getElem hbefore, ← hequal]
    refine ⟨_, remove_inside hlast hinside, ⟨_, hreturned, removeAt_perm_cons hx⟩, ?_, ?_, ?_⟩
    · exact (ordered_removeAt_iff s.queue.comparator.lt_weak h.inOrder _).mpr hfits
    · intro j hj
      cases hj
      exact ((drop_removeAt hpos hx hsame).append_left i.returned).trans hvisits
    · intro j hj
      cases hj
      refine ⟨?_, fun hfalse => absurd hfalse Bool.false_ne_true⟩
      have hlength := (removeAt_perm_cons hx).length_eq
      rw [length_cons] at hlength
      show i.position - 1 ≤ (Heap.removeAt s.queue.comparator.lt i.position s.queue.elements).length
      omega

theorem sound_of_remove {s' : Traversed ε} (h : Inv s) (hi : s.iterator = some i)
    (hlast : i.allowRemove = true) (hremove : i.remove s.queue = some s')
    (heffect : ∃ last, i.returned.getLast? = some last ∧ s.queue.elements.Perm (last :: s'.queue.elements))
    (horder : s'.queue.InOrder) : Sound s .iteratorRemove := by
  intro j hj hlast'
  rw [hi] at hj
  cases hj
  obtain ⟨hle, hplaced⟩ := h.placed i hi
  obtain ⟨hpos, hreturned⟩ := hplaced hlast
  by_cases hinside : i.position < s.queue.elements.length
  · rw [remove_inside hlast hinside] at hremove
    cases hremove
    obtain ⟨last, hgetLast, hperm⟩ := heffect
    have hx := List.getElem?_eq_getElem hinside
    have hequal : s.queue.elements[i.position] = last := eq_of_perm_cons (removeAt_perm_cons hx) hperm (.refl _)
    refine .inr ⟨hinside, ?_, ?_⟩
    · rw [hx, hequal, ← hgetLast, hreturned]
    · exact (ordered_removeAt_iff s.queue.comparator.lt_weak h.inOrder _).mp horder
  · by_cases hcapacity : i.position < s.queue.capacity
    · exact .inl ⟨by omega, hcapacity⟩
    · rw [remove_undefined hlast (by omega) (by omega)] at hremove
      cases hremove

end Remove

/-! ### Runs -/

variable {enlarged : Nat → Nat} {less : Comparator ε}

theorem getFromPriorityQueue_eq (henlarged : ∀ n, n ≤ enlarged n) (source q : PriorityQueue ε) :
    ∃ capacity, getFromPriorityQueue enlarged source q =
      some { elements := source.elements, capacity, comparator := source.comparator } := by
  have hcapacity : source.elements.length ≤ (q.initCapacity enlarged source.elements.length).capacity := by
    rw [initCapacity]
    dsimp only
    split_ifs with hzero
    · omega
    · exact henlarged _
  exact ⟨_, if_pos hcapacity⟩

theorem step_right (henlarged : ∀ n, n ≤ enlarged n) (h : Inv s) (hsound : Sound s operation) :
    ∃ s', step enlarged less s operation = some s' ∧ Effect s s' operation ∧ Inv s' := by
  cases operation with
  | offer value => exact ⟨_, rfl, offer_perm value s.queue, inv_of_queue (offer_inOrder h.inOrder value)⟩
  | poll =>
    refine ⟨_, rfl, ?_⟩
    cases hpoll : s.queue.poll with
    | none =>
      have hempty : s.queue.elements = [] := List.head?_eq_none_iff.mp (Option.map_eq_none_iff.mp hpoll)
      simp only [Effect, hpoll]
      exact ⟨⟨hempty, rfl⟩, h⟩
    | some result =>
      obtain ⟨x, q'⟩ := result
      obtain ⟨hleast, hperm, horder⟩ := poll_right h.inOrder hpoll
      simp only [Effect, hpoll]
      exact ⟨⟨hleast, hperm⟩, inv_of_queue horder⟩
  | peek =>
    refine ⟨s, rfl, ⟨rfl, ?_⟩, h⟩
    cases hpeek : s.queue.peek with
    | none => exact List.head?_eq_none_iff.mp hpeek
    | some x => exact least_of_peek h.inOrder hpeek
  | remove value =>
    refine ⟨_, rfl, ?_⟩
    rw [Effect]
    cases hindex : s.queue.targetIndex value with
    | none =>
      obtain ⟨hnone, hremove⟩ := remove_none hindex
      rw [hremove, if_neg Bool.false_ne_true]
      exact ⟨⟨hnone, rfl⟩, inv_of_queue h.inOrder⟩
    | some index =>
      obtain ⟨⟨x, hx, hzero⟩, hremove⟩ := remove_some hindex
      rw [hremove, if_pos rfl]
      refine ⟨⟨x, hzero, removeAt_perm_cons hx⟩, inv_of_queue ?_⟩
      exact (ordered_removeAt_iff s.queue.comparator.lt_weak h.inOrder index).mpr (hsound index hindex)
  | clear => exact ⟨_, rfl, rfl, inv_of_queue (empty_inOrder rfl)⟩
  | assign source =>
    obtain ⟨capacity, hcopy⟩ := getFromPriorityQueue_eq henlarged source s.queue
    refine ⟨{ queue := ⟨source.elements, capacity, source.comparator⟩ }, ?_, ⟨.refl _, rfl⟩, inv_of_queue ?_⟩
    · rw [step, hcopy]
      rfl
    · exact hsound
  | assignCollection source =>
    exact ⟨_, rfl, getFromCollection_perm enlarged less source s.queue,
      inv_of_queue (getFromCollection_inOrder enlarged less source s.queue)⟩
  | assignSelf =>
    have hempty : s.queue.elements = [] := hsound
    refine ⟨_, rfl, ?_, inv_of_queue (empty_inOrder rfl)⟩
    rw [Effect, hempty]
    exact .refl _
  | iterator =>
    refine ⟨_, rfl, rfl, h.inOrder, fun i hi => ?_, fun i hi => ?_⟩
    · cases hi
      exact .refl _
    · cases hi
      exact ⟨Nat.zero_le _, fun hfalse => absurd hfalse Bool.false_ne_true⟩
  | next => exact ⟨_, rfl, rfl, next_inv h⟩
  | iteratorRemove =>
    simp only [step, Effect]
    cases hi : s.iterator with
    | none => exact ⟨s, rfl, rfl, h⟩
    | some i =>
      dsimp only
      by_cases hlast : i.allowRemove = true
      · simp only [if_pos hlast]
        exact remove_right h hi hlast hsound
      · simp only [if_neg hlast]
        refine ⟨s, ?_, rfl, h⟩
        rw [PriorityQueueIterator.remove, if_neg hlast, ← hi]

theorem right_iff (henlarged : ∀ n, n ≤ enlarged n) (h : Inv s) :
    Right enlarged less s operation ↔ Sound s operation := by
  constructor
  · rintro ⟨s', hstep, heffect, horder, -⟩
    cases operation with
    | remove value =>
      intro index hindex
      obtain ⟨-, hremove⟩ := remove_some hindex
      cases hstep
      rw [hremove] at horder
      exact (ordered_removeAt_iff s.queue.comparator.lt_weak h.inOrder index).mp horder
    | assign source =>
      obtain ⟨capacity, hcopy⟩ := getFromPriorityQueue_eq henlarged source s.queue
      rw [step, hcopy] at hstep
      cases hstep
      exact horder
    | assignSelf =>
      cases hstep
      exact (nil_perm.mp heffect)
    | iteratorRemove =>
      intro i hi hlast
      simp only [step, Effect] at hstep heffect
      rw [Option.mem_def] at hi
      rw [hi] at hstep heffect
      dsimp only at hstep heffect
      rw [if_pos hlast] at heffect
      exact sound_of_remove h hi hlast hstep heffect horder i hi hlast
    | _ => trivial
  · intro hsound
    obtain ⟨s', hstep, heffect, hinv⟩ : ∃ s', step enlarged less s operation = some s' ∧ Effect s s' operation ∧ Inv s' :=
      step_right henlarged h hsound
    exact ⟨s', hstep, heffect, hinv.inOrder, hinv.visitsAll⟩

/-- Every operation of a run does what it should exactly when all of them are sound. -/
theorem right_run_iff (henlarged : ∀ n, n ≤ enlarged n) (initialCapacity : Nat) (comparator : Comparator ε)
    (operations : List (Operation ε)) :
    Always (step enlarged less) (Right enlarged less) { queue := create initialCapacity comparator } operations ↔
      Always (step enlarged less) Sound { queue := create initialCapacity comparator } operations := by
  have hiff : ∀ (s : Traversed ε) operation, Inv s → (Right enlarged less s operation ↔ Sound s operation) :=
    fun s operation h => right_iff henlarged h
  have hempty : Inv { queue := create initialCapacity comparator } := inv_of_queue (empty_inOrder rfl)
  have hstep : ∀ (s : Traversed ε) operation s', Inv s → Sound s operation → step enlarged less s operation = some s' →
      Inv s' := by
    intro s operation s' h hsound hs'
    obtain ⟨t, ht, -, hinv⟩ : ∃ t, step enlarged less s operation = some t ∧ Effect s t operation ∧ Inv t :=
      step_right henlarged h hsound
    rw [ht] at hs'
    exact Option.some.inj hs' ▸ hinv
  exact always_congr hiff hstep hempty operations

/-- `Less<int>`. -/
def lessInt : Comparator Int where
  compare o1 o2 := if o1 > o2 then 1 else if o1 < o2 then -1 else 0
  swap a b := by split_ifs <;> omega
  trans a b c := by split_ifs <;> omega

theorem right_run_iff_offer :
    Always (step (fun n => n + n / 10 + 1) lessInt) (Right (fun n => n + n / 10 + 1) lessInt)
        { queue := create 11 lessInt } [.offer 1, .poll] ↔
      Always (step (fun n => n + n / 10 + 1) lessInt) Sound { queue := create 11 lessInt } [.offer 1, .poll] :=
  right_run_iff (fun n => by omega) 11 lessInt [.offer 1, .poll]

/-- The iterator has returned 1 and takes out 2. After 11 is removed and two elements are polled, the first element is 10
although 2 is there. -/
theorem removal_misses :
    (∃ s, run (step id lessInt) { queue := create 11 lessInt } [.offer 1, .offer 2, .iterator, .next, .iteratorRemove] = some s ∧
      s.queue.elements = [1] ∧ s.iterator.map PriorityQueueIterator.returned = some [1]) ∧
    ∃ s, run (step id lessInt) { queue := create 11 lessInt } [.offer 0, .offer 10, .offer 1, .offer 11, .offer 12,
        .offer 20, .offer 2, .remove 11, .poll, .poll] = some s ∧ s.queue.peek = some 10 ∧ 2 ∈ s.queue.elements :=
  ⟨⟨_, rfl, rfl, rfl⟩, ⟨_, rfl, rfl, by decide⟩⟩

end ActiveMQCpp.Decaf.PriorityQueue
