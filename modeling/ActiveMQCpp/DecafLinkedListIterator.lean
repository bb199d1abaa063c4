import ActiveMQCpp.DecafLinkedListNodes

/-! The iterators of a `LinkedList`: where they stand among the nodes, what their operations do to the list, and the
loops that remove elements with them. -/

namespace ActiveMQCpp.Decaf

open Refinement Chain AnyIterator List SequenceCursor

open LinkedList (places exists_place place_lt places_zero places_succ places_last Represents)

/-- An iterator stands where a cursor does, and remembers the same element. -/
structure LinkedListIterator.At (addresses : List Nat) (it : LinkedListIterator) (c : SequenceCursor) : Prop where
  current : (places addresses)[c.position]? = some it.current
  inside : c.position ≤ addresses.length
  index : it.index = c.position - 1
  last : match c.last with
    | none => it.lastReturned = .null
    | some j => j < addresses.length ∧ (places addresses)[j + 1]? = some it.lastReturned ∧
        (j = c.position ∨ j + 1 = c.position)

structure ReverseIterator.At (addresses : List Nat) (it : ReverseIterator) (c : SequenceCursor) : Prop where
  current : (places addresses)[c.position + 1]? = some it.current
  inside : c.position ≤ addresses.length
  last : c.last = if it.canRemove then some c.position else none
  removable : it.canRemove → c.position < addresses.length

namespace AnyIterator

def constant : AnyIterator → Bool
  | .list it => it.constant
  | .reverse it => it.constant

def descending : AnyIterator → Bool
  | .list _ => false
  | .reverse _ => true

def expectedModCount : AnyIterator → Nat
  | .list it => it.expectedModCount
  | .reverse it => it.expectedModCount

def current : AnyIterator → NodeRef
  | .list it => it.current
  | .reverse it => it.current

def At (addresses : List Nat) : AnyIterator → SequenceCursor → Prop
  | .list it => it.At addresses
  | .reverse it => it.At addresses

/-- An iterator and its cursor. Nothing is known of where a stale iterator stands. -/
structure Follows {ε : Type} (l : LinkedList ε) (addresses : List Nat) (it : AnyIterator) (c : SequenceCursor) :
    Prop where
  constant : it.constant = c.constant
  descending : it.descending = c.descending
  stale : c.stale = true → it.expectedModCount < l.modCount
  fresh : c.stale = false → it.expectedModCount = l.modCount ∧ it.At addresses c

end AnyIterator

section Iterators

variable {ε : Type} {l l' : LinkedList ε} {addresses : List Nat} {xs : List ε} {c : SequenceCursor} {value : ε}
variable {it : LinkedListIterator} {j : Nat}

theorem LinkedListIterator.modified_fresh (h : it.expectedModCount = l.modCount) : it.modified l = false := by
  rw [modified, h]
  simp

theorem LinkedListIterator.next_agrees (h : Represents l addresses xs)
    (hat : it.At addresses c) (hcount : it.expectedModCount = l.modCount) :
    (it.next l).1 = (c.forward xs).1 ∧ (it.next l).2.At addresses (c.forward xs).2 ∧
      (it.next l).2.constant = it.constant ∧ (it.next l).2.expectedModCount = it.expectedModCount := by
  have hlength := h.length_eq
  have hinside := hat.inside
  obtain ⟨r, hr⟩ := exists_place addresses (show c.position + 1 < addresses.length + 2 by omega)
  rw [next, modified_fresh hcount, h.next_eq hat.current hr, forward]
  cases hvalue : xs[c.position]? with
  | none =>
    have hend : c.position = addresses.length := by
      have hge := List.getElem?_eq_none_iff.mp hvalue
      omega
    rw [hend] at hr
    cases hr.symm.trans places_last
    exact ⟨rfl, hat, rfl, rfl⟩
  | some value =>
    have hlt := (List.getElem?_eq_some_iff.mp hvalue).1
    have hne : r ≠ .tail := by
      rintro rfl
      have hplace := h.place_inj hr places_last
      omega
    simp only [Bool.false_eq_true, if_false, if_neg hne, h.valueAt_eq hr hvalue]
    refine ⟨trivial, ⟨hr, ?_, ?_, ?_⟩, trivial, trivial⟩
    · show c.position + 1 ≤ addresses.length
      omega
    · show it.index + 1 = ((c.position + 1 : Nat) : Int) - 1
      rw [hat.index]
      omega
    · exact ⟨by omega, hr, .inr rfl⟩

theorem LinkedListIterator.hasNext_agrees (h : Represents l addresses xs)
    (hat : it.At addresses c) : it.hasNext l = .bool (c.position < xs.length) := by
  have hlength := h.length_eq
  have hinside := hat.inside
  obtain ⟨r, hr⟩ := exists_place addresses (show c.position + 1 < addresses.length + 2 by omega)
  rw [hasNext, h.next_eq hat.current hr]
  refine congrArg ListAnswer.bool (decide_eq_decide.mpr ?_)
  constructor
  · intro hne
    by_contra hge
    rw [show c.position = addresses.length by omega] at hr
    exact hne (Option.some.inj (hr.symm.trans places_last))
  · rintro hlt rfl
    have hplace := h.place_inj hr places_last
    omega

theorem LinkedListIterator.hasPrevious_agrees (h : Represents l addresses xs)
    (hat : it.At addresses c) : it.hasPrevious = decide (0 < c.position) := by
  rw [hasPrevious]
  refine decide_eq_decide.mpr ?_
  constructor
  · intro hne
    by_contra hzero
    have hcurrent := hat.current
    rw [show c.position = 0 by omega] at hcurrent
    exact hne (Option.some.inj (hcurrent.symm.trans places_zero))
  · rintro hpos heq
    have hplace := h.place_inj hat.current (heq ▸ places_zero)
    omega

theorem LinkedListIterator.previous_agrees (h : Represents l addresses xs)
    (hat : it.At addresses c) (hcount : it.expectedModCount = l.modCount) :
    ((it.previous l).1 = (c.backward xs).1 ∨ c.position = 0 ∧ (it.previous l).1 = .illegalStateException) ∧
      (it.previous l).2.At addresses (c.backward xs).2 ∧
      (it.previous l).2.constant = it.constant ∧ (it.previous l).2.expectedModCount = it.expectedModCount := by
  have hlength := h.length_eq
  have hinside := hat.inside
  have hcurrent := hat.current
  rw [previous, modified_fresh hcount, backward]
  cases hposition : c.position with
  | zero =>
    rw [hposition] at hcurrent
    rw [← Option.some.inj (places_zero.symm.trans hcurrent)]
    exact ⟨.inr ⟨rfl, rfl⟩, hat, rfl, rfl⟩
  | succ position =>
    rw [hposition] at hcurrent hinside
    have hvalue : xs[position]? = some xs[position] := List.getElem?_eq_getElem (by omega)
    obtain ⟨r, hr⟩ := exists_place addresses (show position < addresses.length + 2 by omega)
    have hne : it.current ≠ .head := by
      intro heq
      have hplace := h.place_inj hcurrent (heq ▸ places_zero)
      omega
    simp only [Bool.false_eq_true, if_false, if_neg hne, h.prev_eq hr hcurrent, h.valueAt_eq hcurrent hvalue, hvalue]
    refine ⟨.inl trivial, ⟨hr, ?_, ?_, ?_⟩, trivial, trivial⟩
    · show position ≤ addresses.length
      omega
    · show it.index - 1 = (position : Int) - 1
      rw [hat.index, hposition]
      omega
    · exact ⟨by omega, hcurrent, .inl rfl⟩

theorem ReverseIterator.modified_fresh {it : ReverseIterator} (h : it.expectedModCount = l.modCount) :
    it.modified l = false := by
  rw [modified, h]
  simp

theorem ReverseIterator.hasNext_agrees {it : ReverseIterator} (h : Represents l addresses xs)
    (hat : it.At addresses c) : it.hasNext l = .bool (0 < c.position) := by
  have hinside := hat.inside
  obtain ⟨r, hr⟩ := exists_place addresses (show c.position < addresses.length + 2 by omega)
  rw [hasNext, h.prev_eq hr hat.current]
  refine congrArg ListAnswer.bool (decide_eq_decide.mpr ?_)
  constructor
  · intro hne
    by_contra hzero
    rw [show c.position = 0 by omega] at hr
    exact hne (Option.some.inj (hr.symm.trans places_zero))
  · rintro hpos rfl
    have hplace := h.place_inj hr places_zero
    omega

theorem ReverseIterator.next_agrees {it : ReverseIterator} (h : Represents l addresses xs)
    (hat : it.At addresses c) (hcount : it.expectedModCount = l.modCount) :
    (it.next l).1 = (c.backward xs).1 ∧ (it.next l).2.At addresses (c.backward xs).2 ∧
      (it.next l).2.constant = it.constant ∧ (it.next l).2.expectedModCount = it.expectedModCount := by
  have hlength := h.length_eq
  have hinside := hat.inside
  have hcurrent := hat.current
  obtain ⟨r, hr⟩ := exists_place addresses (show c.position < addresses.length + 2 by omega)
  rw [next, modified_fresh hcount, h.prev_eq hr hat.current, backward]
  cases hposition : c.position with
  | zero =>
    rw [hposition] at hr
    rw [← Option.some.inj (places_zero.symm.trans hr)]
    exact ⟨rfl, hat, rfl, rfl⟩
  | succ position =>
    rw [hposition] at hr hinside
    have hvalue : xs[position]? = some xs[position] := List.getElem?_eq_getElem (by omega)
    have hne : r ≠ .head := by
      rintro rfl
      have hplace := h.place_inj hr places_zero
      omega
    simp only [Bool.false_eq_true, if_false, if_neg hne, h.valueAt_eq hr hvalue, hvalue]
    refine ⟨trivial, ⟨hr, ?_, rfl, fun _ => ?_⟩, trivial, trivial⟩
    · show position ≤ addresses.length
      omega
    · show position < addresses.length
      omega

/-- Where a cursor is after its last element has been removed. -/
def SequenceCursor.removed (c : SequenceCursor) (j : Nat) : SequenceCursor :=
  { c with position := if j < c.position then c.position - 1 else c.position, last := none }

theorem LinkedListIterator.remove_none (hat : it.At addresses c)
    (hcount : it.expectedModCount = l.modCount) (hconstant : it.constant = false) (hlast : c.last = none) :
    it.remove l = (.illegalStateException, it, l) := by
  have hreturned := hat.last
  rw [hlast] at hreturned
  rw [remove, hconstant, modified_fresh hcount, hreturned]
  rfl

theorem LinkedListIterator.remove_some (h : Represents l addresses xs)
    (hat : it.At addresses c) (hcount : it.expectedModCount = l.modCount) (hconstant : it.constant = false)
    (hlast : c.last = some j) :
    ∃ it' l', it.remove l = (.done, it', l') ∧ Represents l' (addresses.eraseIdx j) (xs.eraseIdx j) ∧
      l'.modCount = l.modCount + 1 ∧ it'.At (addresses.eraseIdx j) (c.removed j) ∧
      it'.constant = it.constant ∧ it'.expectedModCount = l'.modCount := by
  have hreturned := hat.last
  rw [hlast] at hreturned
  obtain ⟨hj, hold, hposition⟩ := hreturned
  obtain ⟨previous, hprevious⟩ := exists_place addresses (show j < addresses.length + 2 by omega)
  obtain ⟨following, hnext⟩ := exists_place addresses (show j + 2 < addresses.length + 2 by omega)
  obtain ⟨l', hl', hrepresents, hcount'⟩ := h.takeOut hprevious hold hnext
  have hne : it.lastReturned ≠ .null := by
    rw [← Option.some.inj ((places_succ hj).symm.trans hold)]
    exact fun heq => by cases heq
  have hindex : (if it.current = it.lastReturned then it.index - 1 else it.index) = (j : Int) - 1 := by
    rw [hat.index]
    split_ifs with hsame
    · have hplace := h.place_inj hat.current (hsame ▸ hold)
      omega
    · obtain rfl | hbehind := hposition
      · rfl
      · rw [hbehind] at hold
        exact absurd (Option.some.inj (hat.current.symm.trans hold)) hsame
  have hremoved : (c.removed j).position = j := by
    rw [removed]
    dsimp only
    split_ifs <;> omega
  refine ⟨{ it with current := previous, lastReturned := .null, index := (j : Int) - 1,
                    expectedModCount := it.expectedModCount + 1 }, l', ?_, hrepresents, hcount', ⟨?_, ?_, ?_, rfl⟩, rfl, ?_⟩
  · rw [remove, hconstant, modified_fresh hcount, if_neg Bool.false_ne_true, if_neg Bool.false_ne_true, if_neg hne]
    simp only [h.next_eq hold hnext, h.prev_eq hprevious hold, Option.bind_eq_bind, Option.bind_some, hindex, hl']
    rfl
  · rw [hremoved, LinkedList.place_erase_before hj le_rfl]
    exact hprevious
  · rw [hremoved, length_eraseIdx_of_lt hj]
    omega
  · rw [hremoved]
  · show it.expectedModCount + 1 = l'.modCount
    rw [hcount, hcount']

theorem LinkedListIterator.add_agrees (h : Represents l addresses xs)
    (hat : it.At addresses c) (hcount : it.expectedModCount = l.modCount) (hconstant : it.constant = false)
    (hfits : l.listSize + 1 < 2 ^ 31) (e : ε) :
    ∃ it' l' addresses', it.add l e = (.done, it', l') ∧
      Represents l' addresses' (xs.take c.position ++ e :: xs.drop c.position) ∧ l'.modCount = l.modCount + 1 ∧
      it'.At addresses' { c with position := c.position + 1, last := none } ∧
      it'.constant = it.constant ∧ it'.expectedModCount = l'.modCount := by
  have hinside := hat.inside
  obtain ⟨following, hnext⟩ := exists_place addresses (show c.position + 1 < addresses.length + 2 by omega)
  obtain ⟨l', hl', hrepresents, hcount'⟩ := h.putIn hat.current hnext e hfits
  refine ⟨{ it with current := .node l.allocated, lastReturned := .null, index := it.index + 1,
                    expectedModCount := it.expectedModCount + 1 }, l', _, ?_, hrepresents, hcount',
    ⟨LinkedList.place_insert hinside, ?_, ?_, rfl⟩, rfl, ?_⟩
  · rw [add, hconstant, modified_fresh hcount, if_neg Bool.false_ne_true, if_neg Bool.false_ne_true]
    simp only [h.next_eq hat.current hnext, Option.bind_eq_bind, Option.bind_some, hl']
    rfl
  · show c.position + 1 ≤ _
    rw [length_append, length_cons, length_take_of_le hinside]
    omega
  · show it.index + 1 = ((c.position + 1 : Nat) : Int) - 1
    rw [hat.index]
    omega
  · show it.expectedModCount + 1 = l'.modCount
    rw [hcount, hcount']

theorem LinkedListIterator.set_none (hat : it.At addresses c)
    (hcount : it.expectedModCount = l.modCount) (hconstant : it.constant = false) (hlast : c.last = none) (e : ε) :
    it.set l e = (.illegalStateException, l) := by
  have hreturned := hat.last
  rw [hlast] at hreturned
  rw [set, hconstant, modified_fresh hcount, hreturned]
  rfl

theorem LinkedListIterator.set_some (h : Represents l addresses xs)
    (hat : it.At addresses c) (hcount : it.expectedModCount = l.modCount) (hconstant : it.constant = false)
    (hlast : c.last = some j) (e : ε) :
    ∃ l', it.set l e = (.done, l') ∧ Represents l' addresses (xs.set j e) ∧ l'.modCount = l.modCount := by
  have hlength := h.length_eq
  have hreturned := hat.last
  rw [hlast] at hreturned
  obtain ⟨hj, hold, -⟩ := hreturned
  obtain ⟨l', hl', hrepresents, hcount'⟩ := h.setValue hold (by omega) e
  have hne : it.lastReturned ≠ .null := by
    rw [← Option.some.inj ((places_succ hj).symm.trans hold)]
    exact fun heq => by cases heq
  refine ⟨l', ?_, hrepresents, hcount'⟩
  rw [set, hconstant, modified_fresh hcount, if_neg Bool.false_ne_true, if_neg Bool.false_ne_true, if_neg hne, hl']

theorem ReverseIterator.remove_none {it : ReverseIterator} (hat : it.At addresses c)
    (hcount : it.expectedModCount = l.modCount) (hconstant : it.constant = false) (hlast : c.last = none) :
    it.remove l = (.illegalStateException, it, l) := by
  have hcan : it.canRemove = false := by
    cases hcan : it.canRemove with
    | false => rfl
    | true =>
      have hsome := hat.last
      rw [hcan, if_pos rfl, hlast] at hsome
      cases hsome
  rw [remove, hconstant, modified_fresh hcount, hcan]
  rfl

theorem ReverseIterator.remove_some {it : ReverseIterator} (h : Represents l addresses xs)
    (hat : it.At addresses c) (hcount : it.expectedModCount = l.modCount) (hconstant : it.constant = false)
    (hlast : c.last = some j) :
    ∃ it' l', it.remove l = (.done, it', l') ∧ Represents l' (addresses.eraseIdx j) (xs.eraseIdx j) ∧
      l'.modCount = l.modCount + 1 ∧ it'.At (addresses.eraseIdx j) (c.removed j) ∧
      it'.constant = it.constant ∧ it'.expectedModCount = l'.modCount := by
  have hsome := hat.last
  have hcan : it.canRemove = true := by
    cases hcan : it.canRemove with
    | true => rfl
    | false =>
      rw [hcan, if_neg Bool.false_ne_true, hlast] at hsome
      cases hsome
  rw [hcan, if_pos rfl, hlast, Option.some.injEq] at hsome
  subst hsome
  have hj := hat.removable hcan
  obtain ⟨previous, hprevious⟩ := exists_place addresses (show c.position < addresses.length + 2 by omega)
  obtain ⟨following, hnext⟩ := exists_place addresses (show c.position + 2 < addresses.length + 2 by omega)
  obtain ⟨l', hl', hrepresents, hcount'⟩ := h.takeOut hprevious hat.current hnext
  have hremoved : (c.removed c.position).position = c.position := by
    rw [removed]
    dsimp only
    rw [if_neg (lt_irrefl _)]
  refine ⟨{ it with current := following, canRemove := false, expectedModCount := it.expectedModCount + 1 }, l', ?_,
    hrepresents, hcount', ⟨?_, ?_, rfl, fun hfalse => by cases hfalse⟩, rfl, ?_⟩
  · rw [remove, hconstant, modified_fresh hcount, if_neg Bool.false_ne_true, if_neg Bool.false_ne_true, hcan]
    simp only [h.next_eq hat.current hnext, h.prev_eq hprevious hat.current, Option.bind_eq_bind, Option.bind_some, hl']
    rfl
  · rw [hremoved, LinkedList.place_erase_behind hj]
    exact hnext
  · rw [hremoved, length_eraseIdx_of_lt hj]
    omega
  · show it.expectedModCount + 1 = l'.modCount
    rw [hcount, hcount']

namespace AnyIterator

variable {it : AnyIterator}

theorem hasNext_agrees (h : Represents l addresses xs) (hf : it.Follows l addresses c) (hfresh : c.stale = false) :
    it.hasNext l = .bool (c.hasNext xs) := by
  obtain ⟨hcount, hat⟩ := hf.fresh hfresh
  have hdescending := hf.descending
  rw [SequenceCursor.hasNext]
  cases it with
  | list it =>
    rw [← hdescending]
    exact it.hasNext_agrees h hat
  | reverse it =>
    rw [← hdescending]
    exact it.hasNext_agrees h hat

omit c in
theorem forward_kept {xs : List ε} (c : SequenceCursor) :
    (c.forward xs).2.constant = c.constant ∧ (c.forward xs).2.descending = c.descending ∧
      (c.forward xs).2.stale = c.stale := by
  rw [forward]
  cases xs[c.position]? <;> exact ⟨rfl, rfl, rfl⟩

theorem backward_kept {xs : List ε} (c : SequenceCursor) :
    (c.backward xs).2.constant = c.constant ∧ (c.backward xs).2.descending = c.descending ∧
      (c.backward xs).2.stale = c.stale := by
  rw [backward]
  cases c.position with
  | zero => exact ⟨rfl, rfl, rfl⟩
  | succ position =>
    dsimp only
    cases xs[position]? <;> exact ⟨rfl, rfl, rfl⟩

theorem Follows.moved {it' : AnyIterator} {c' : SequenceCursor} {addresses' : List Nat}
    (hf : it.Follows l addresses c) (hfresh : c.stale = false) (hat : it'.At addresses' c')
    (hdescending : it'.descending = it.descending) (hconstant : it'.constant = it.constant)
    (hcount : it'.expectedModCount = l'.modCount)
    (hkept : c'.constant = c.constant ∧ c'.descending = c.descending ∧ c'.stale = c.stale) :
    it'.Follows l' addresses' c' where
  constant := by rw [hconstant, hkept.1, hf.constant]
  descending := by rw [hdescending, hkept.2.1, hf.descending]
  stale := fun hstale => by
    rw [hkept.2.2, hfresh] at hstale
    cases hstale
  fresh := fun _ => ⟨hcount, hat⟩

theorem next_agrees (h : Represents l addresses xs) (hf : it.Follows l addresses c) (hfresh : c.stale = false) :
    (it.next l).1 = (c.next xs).1 ∧ (it.next l).2.Follows l addresses (c.next xs).2 := by
  obtain ⟨hcount, hat⟩ := hf.fresh hfresh
  have hdescending := hf.descending
  rw [SequenceCursor.next]
  cases it with
  | list it =>
    obtain ⟨hanswer, hat', hconstant, hcount'⟩ := it.next_agrees h hat hcount
    rw [← hdescending]
    exact ⟨hanswer, hf.moved hfresh hat' rfl hconstant (hcount'.trans hcount) (forward_kept c)⟩
  | reverse it =>
    obtain ⟨hanswer, hat', hconstant, hcount'⟩ := it.next_agrees h hat hcount
    rw [← hdescending]
    exact ⟨hanswer, hf.moved hfresh hat' rfl hconstant (hcount'.trans hcount) (backward_kept c)⟩

theorem remove_none (hf : it.Follows l addresses c) (hfresh : c.stale = false) (hconstant : c.constant = false)
    (hlast : c.last = none) : it.remove l = (.illegalStateException, it, l) := by
  obtain ⟨hcount, hat⟩ := hf.fresh hfresh
  have hsame := hf.constant.trans hconstant
  cases it with
  | list it => rw [remove, it.remove_none hat hcount hsame hlast]
  | reverse it => rw [remove, it.remove_none hat hcount hsame hlast]

theorem remove_some {j : Nat} (h : Represents l addresses xs) (hf : it.Follows l addresses c)
    (hfresh : c.stale = false) (hconstant : c.constant = false) (hlast : c.last = some j) :
    ∃ it' l' addresses', it.remove l = (.done, it', l') ∧ Represents l' addresses' (xs.eraseIdx j) ∧
      l.modCount < l'.modCount ∧ it'.Follows l' addresses' (c.removed j) := by
  obtain ⟨hcount, hat⟩ := hf.fresh hfresh
  have hsame := hf.constant.trans hconstant
  cases it with
  | list it =>
    obtain ⟨it', l', hremove, hrepresents, hcount', hat', hconstant', hexpected⟩ :=
      it.remove_some h hat hcount hsame hlast
    refine ⟨.list it', l', _, by rw [remove, hremove], hrepresents, by omega, ?_⟩
    exact hf.moved hfresh hat' rfl hconstant' hexpected ⟨rfl, rfl, rfl⟩
  | reverse it =>
    obtain ⟨it', l', hremove, hrepresents, hcount', hat', hconstant', hexpected⟩ :=
      it.remove_some h hat hcount hsame hlast
    refine ⟨.reverse it', l', _, by rw [remove, hremove], hrepresents, by omega, ?_⟩
    exact hf.moved hfresh hat' rfl hconstant' hexpected ⟨rfl, rfl, rfl⟩

end AnyIterator

theorem LinkedListIterator.new_follows (h : Represents l addresses xs) (constant : Bool) {index : Int}
    (hlow : 0 ≤ index) (hhigh : index ≤ xs.length) :
    ∃ it, LinkedListIterator.new l constant index = some (some it) ∧
      (list it).Follows l addresses
        { constant := constant, descending := false, position := index.toNat } := by
  have hlength := h.length_eq
  have hsize := h.size
  obtain ⟨r, hr⟩ := exists_place addresses (show index.toNat < addresses.length + 2 by omega)
  refine ⟨{ constant := constant, current := r, index := index - 1, expectedModCount := l.modCount }, ?_,
    ⟨rfl, rfl, fun hstale => (by cases hstale), fun _ => ⟨rfl, hr, ?_, ?_, rfl⟩⟩⟩
  · rw [new, if_neg (by omega), LinkedList.before_eq h hlow hhigh hr]
    rfl
  · show index.toNat ≤ addresses.length
    omega
  · show index - 1 = (index.toNat : Int) - 1
    omega

theorem LinkedListIterator.new_none (h : Represents l addresses xs) (constant : Bool) {index : Int}
    (hout : ¬(0 ≤ index ∧ index ≤ xs.length)) : LinkedListIterator.new l constant index = none := by
  have hsize := h.size
  rw [new, if_pos (by omega)]

theorem ReverseIterator.new_follows (h : Represents l addresses xs) (constant : Bool) :
    (reverse { constant := constant, expectedModCount := l.modCount }).Follows l addresses
      { constant := constant, descending := true, position := xs.length } := by
  have hlength := h.length_eq
  refine ⟨rfl, rfl, fun hstale => (by cases hstale), fun _ => ⟨rfl, ?_, ?_, rfl, fun hfalse => (by cases hfalse)⟩⟩
  · show (places addresses)[xs.length + 1]? = some .tail
    rw [← hlength]
    exact places_last
  · show xs.length ≤ addresses.length
    omega

/-! ### Removal by iterators -/

namespace LinkedList

variable {once : Bool} {test : ε → LinkedList ε → Option Bool} {P : ε → Bool} {it : AnyIterator} {fuel : Nat}
  {result : Bool}
variable {rest : List ε}

def kept (once : Bool) (P : ε → Bool) (rest : List ε) : List ε :=
  if once then rest.eraseP P else rest.filter fun v => !P v

/-- A test of the elements that the list has. -/
def Tests (test : ε → LinkedList ε → Option Bool) (P : ε → Bool) : Prop :=
  ∀ {l : LinkedList ε} {addresses : List Nat} {xs : List ε} {value : ε},
    Represents l addresses xs → value ∈ xs → test value l = some (P value)

theorem kept_cons_of_not (h : P value = false) : kept once P (value :: rest) = value :: kept once P rest := by
  rw [kept, kept]
  split_ifs
  · rw [eraseP_cons_of_neg (by simp [h])]
  · rw [filter_cons_of_pos (by simp [h])]

theorem kept_cons_of (h : P value = true) :
    kept once P (value :: rest) = if once then rest else kept once P rest := by
  rw [kept, kept]
  split_ifs
  · rw [eraseP_cons_of_pos h]
  · rw [filter_cons_of_neg (by simp [h])]

theorem eraseIdx_middle {front back : List ε} : (front ++ value :: back).eraseIdx front.length = front ++ back := by
  rw [eraseIdx_append_of_length_le le_rfl, Nat.sub_self]
  rfl

theorem hasNext_forward {before : List ε} (h : Represents l addresses (before ++ rest))
    (hf : it.Follows l addresses c) (hfresh : c.stale = false) (hdescending : c.descending = false)
    (hposition : c.position = before.length) : it.hasNext l = .bool (!rest.isEmpty) := by
  rw [AnyIterator.hasNext_agrees h hf hfresh, SequenceCursor.hasNext, hdescending, if_neg Bool.false_ne_true,
    hposition, List.length_append]
  cases rest <;> simp

theorem sweep_forward (once result : Bool) (htest : Tests test P) {before : List ε} (h : Represents l addresses (before ++ rest))
    (hf : it.Follows l addresses c) (hfresh : c.stale = false) (hconstant : c.constant = false)
    (hdescending : c.descending = false) (hposition : c.position = before.length) (hfuel : rest.length < fuel) :
    ∃ l' addresses', l.sweep once test fuel it result = (.bool (result || rest.any P), l') ∧
      Represents l' addresses' (before ++ kept once P rest) ∧
      if rest.any P then l.modCount < l'.modCount else l' = l := by
  induction rest generalizing l addresses before c fuel result it with
  | nil =>
    obtain ⟨fuel, rfl⟩ : ∃ k, fuel = k + 1 := ⟨fuel - 1, by omega⟩
    refine ⟨l, addresses, ?_, ?_, ?_⟩
    · rw [sweep, hasNext_forward h hf hfresh hdescending hposition, any_nil, Bool.or_false]
      rfl
    · cases once <;> exact h
    · rfl
  | cons value rest ih =>
    obtain ⟨fuel, rfl⟩ : ∃ k, fuel = k + 1 := ⟨fuel - 1, by omega⟩
    rw [length_cons] at hfuel
    obtain ⟨hanswer, hf'⟩ := next_agrees h hf hfresh
    have hvalue : (before ++ value :: rest)[c.position]? = some value := by
      rw [hposition, List.getElem?_append_right le_rfl, Nat.sub_self]
      rfl
    rw [SequenceCursor.next, hdescending, if_neg Bool.false_ne_true, SequenceCursor.forward, hvalue] at hanswer hf'
    generalize hit' : (it.next l).2 = it' at hf'
    have hstep : it.next l = (.value value, it') := Prod.ext hanswer hit'
    have hpasses := htest h (show value ∈ before ++ value :: rest by simp)
    rw [sweep, hasNext_forward h hf hfresh hdescending hposition]
    simp only [isEmpty_cons, Bool.not_false, hstep, hpasses]
    cases hP : P value with
    | false =>
      have hsplit : before ++ value :: rest = before ++ [value] ++ rest := by
        rw [append_assoc, singleton_append]
      rw [hsplit] at h
      have hlong : c.position + 1 = (before ++ [value]).length := by
        rw [hposition, length_append, length_singleton]
      obtain ⟨l', addresses', hsweep, hrepresents, hcount⟩ :=
        ih result h hf' hfresh hconstant hdescending hlong (show rest.length < fuel by omega)
      refine ⟨l', addresses', ?_, ?_, ?_⟩
      · rw [hsweep, any_cons, hP, Bool.false_or]
      · rw [kept_cons_of_not hP]
        rwa [append_assoc, singleton_append] at hrepresents
      · rwa [any_cons, hP, Bool.false_or]
    | true =>
      obtain ⟨it'', l', addresses', hremove, hrepresents, hless, hf''⟩ :=
        remove_some h hf' hfresh hconstant rfl
      rw [hposition, eraseIdx_middle] at hrepresents
      rw [hposition] at hf''
      simp only [hremove, any_cons, hP, Bool.true_or, Bool.or_true, if_true]
      cases once with
      | true =>
        refine ⟨l', addresses', rfl, ?_, hless⟩
        rwa [kept_cons_of hP, if_pos rfl]
      | false =>
        have hback : ({ c with position := before.length + 1, last := some before.length }.removed
            before.length).position = before.length := by
          rw [removed]
          dsimp only
          rw [if_pos (Nat.lt_succ_self _), Nat.add_sub_cancel]
        obtain ⟨l'', addresses'', hsweep, hrepresents', hcount⟩ :=
          ih true hrepresents hf'' hfresh hconstant hdescending hback (show rest.length < fuel by omega)
        refine ⟨l'', addresses'', ?_, ?_, ?_⟩
        · rw [if_neg Bool.false_ne_true, hsweep, Bool.true_or]
        · rwa [kept_cons_of hP, if_neg Bool.false_ne_true]
        · split_ifs at hcount
          · exact hless.trans hcount
          · rwa [hcount]

theorem sweep_backward (result : Bool) (htest : Tests test P) {behind : List ε}
    (h : Represents l addresses (rest.reverse ++ behind)) (hf : it.Follows l addresses c) (hfresh : c.stale = false)
    (hconstant : c.constant = false) (hdescending : c.descending = true) (hposition : c.position = rest.length)
    (hfuel : rest.length < fuel) :
    ∃ l' addresses', l.sweep true test fuel it result = (.bool (result || rest.any P), l') ∧
      Represents l' addresses' ((rest.eraseP P).reverse ++ behind) ∧
      if rest.any P then l.modCount < l'.modCount else l' = l := by
  induction rest generalizing l addresses behind c fuel it with
  | nil =>
    obtain ⟨fuel, rfl⟩ : ∃ k, fuel = k + 1 := ⟨fuel - 1, by omega⟩
    have hnext := hasNext_agrees h hf hfresh
    rw [SequenceCursor.hasNext, hdescending, if_pos rfl, hposition] at hnext
    refine ⟨l, addresses, ?_, h, rfl⟩
    rw [sweep, hnext, any_nil, Bool.or_false]
    rfl
  | cons value rest ih =>
    obtain ⟨fuel, rfl⟩ : ∃ k, fuel = k + 1 := ⟨fuel - 1, by omega⟩
    rw [length_cons] at hfuel hposition
    have hsplit : (value :: rest).reverse ++ behind = rest.reverse ++ value :: behind := by
      rw [reverse_cons, append_assoc, singleton_append]
    rw [hsplit] at h
    have hnext := hasNext_agrees h hf hfresh
    rw [SequenceCursor.hasNext, hdescending, if_pos rfl, hposition, decide_eq_true (Nat.succ_pos _)] at hnext
    obtain ⟨hanswer, hf'⟩ := next_agrees h hf hfresh
    have hvalue : (rest.reverse ++ value :: behind)[rest.length]? = some value := by
      rw [List.getElem?_append_right (by rw [length_reverse]), length_reverse, Nat.sub_self]
      rfl
    rw [SequenceCursor.next, hdescending, if_pos rfl, SequenceCursor.backward, hposition] at hanswer hf'
    simp only [hvalue] at hanswer hf'
    generalize hit' : (it.next l).2 = it' at hf'
    have hstep : it.next l = (.value value, it') := Prod.ext hanswer hit'
    have hpasses := htest h (show value ∈ rest.reverse ++ value :: behind by simp)
    rw [sweep, hnext]
    simp only [hstep, hpasses]
    cases hP : P value with
    | false =>
      obtain ⟨l', addresses', hsweep, hrepresents, hcount⟩ :=
        ih h hf' hfresh hconstant hdescending rfl (show rest.length < fuel by omega)
      refine ⟨l', addresses', ?_, ?_, ?_⟩
      · rw [hsweep, any_cons, hP, Bool.false_or]
      · rw [eraseP_cons_of_neg (by simp [hP]), reverse_cons, append_assoc, singleton_append]
        exact hrepresents
      · rwa [any_cons, hP, Bool.false_or]
    | true =>
      obtain ⟨it'', l', addresses', hremove, hrepresents, hless, -⟩ :=
        remove_some h hf' hfresh hconstant rfl
      have hlength : rest.reverse.length = rest.length := length_reverse
      rw [← hlength, eraseIdx_middle] at hrepresents
      simp only [hremove, any_cons, hP, Bool.true_or, Bool.or_true, if_true]
      refine ⟨l', addresses', rfl, ?_, hless⟩
      rwa [eraseP_cons_of_pos hP]

theorem sweepForward_eq (once : Bool) (htest : Tests test P) (h : Represents l addresses xs) :
    ∃ l' addresses', l.sweepForward once test = (.bool (xs.any P), l') ∧
      Represents l' addresses' (kept once P xs) ∧ if xs.any P then l.modCount < l'.modCount else l' = l := by
  have hle := h.length_le
  have hlength := h.length_eq
  obtain ⟨it, hnew, hf⟩ := LinkedListIterator.new_follows h false (le_refl 0) (Int.natCast_nonneg _)
  have hbegin : l.begin? = some (.list it) := by
    rw [begin?, hnew]
    rfl
  have hrest : Represents l addresses ([] ++ xs) := h
  obtain ⟨l', addresses', hsweep, hrepresents⟩ :=
    sweep_forward once false htest hrest hf rfl rfl rfl rfl
      (show xs.length < l.rounds by rw [rounds]; omega)
  refine ⟨l', addresses', ?_, hrepresents⟩
  rw [sweepForward, hbegin]
  exact hsweep

end LinkedList

end Iterators

end ActiveMQCpp.Decaf
