import ActiveMQCpp.LibHeap
import ActiveMQCpp.LibRuns
import Mathlib.Data.Multiset.AddSub

/-! `PriorityQueue`: a binary heap ordered by a comparator. The slots of the array behind the elements hold nothing that
is read; only their number counts. -/

namespace ActiveMQCpp.Decaf

open Runs

structure Comparator (ε : Type) where
  compare : ε → ε → Int
  swap : ∀ a b, compare a b < 0 ↔ 0 < compare b a
  trans : ∀ a b c, compare a b ≤ 0 → compare b c ≤ 0 → compare a c ≤ 0

namespace Comparator

variable {ε : Type} (comparator : Comparator ε)

def lt (a b : ε) : Bool := comparator.compare a b < 0

theorem lt_eq_false {a b : ε} : comparator.lt a b = false ↔ comparator.compare b a ≤ 0 := by
  rw [lt, decide_eq_false_iff_not, comparator.swap, Int.not_lt]

theorem lt_weak : Heap.StrictWeak comparator.lt := by
  constructor
  · intro a b h
    rw [lt_eq_false]
    exact (of_decide_eq_true h).le
  · intro a b c hab hbc
    rw [lt_eq_false] at hab hbc ⊢
    exact comparator.trans a b c hab hbc

end Comparator

structure PriorityQueue (ε : Type) where
  elements : List ε
  capacity : Nat
  comparator : Comparator ε

namespace PriorityQueue

variable {ε : Type}

def create (initialCapacity : Nat) (comparator : Comparator ε) : PriorityQueue ε :=
  { elements := [], capacity := initialCapacity, comparator }

def increaseCapacity (size : Nat) (q : PriorityQueue ε) : PriorityQueue ε :=
  if size > q.capacity then { q with capacity := size * 2 } else q

def offer (value : ε) (q : PriorityQueue ε) : PriorityQueue ε :=
  let q := q.increaseCapacity (q.elements.length + 1)
  { q with elements := Heap.insert q.comparator.lt value q.elements }

/-- `removeAt(index)`. An index behind the elements is written to before it is given up: outside of the array that is
undefined, inside of it the last element goes. -/
def removeAt (index : Nat) (q : PriorityQueue ε) : Option (PriorityQueue ε) :=
  if index < q.elements.length then some { q with elements := Heap.removeAt q.comparator.lt index q.elements }
  else if index < q.capacity then some { q with elements := q.elements.dropLast }
  else none

def peek (q : PriorityQueue ε) : Option ε := q.elements.head?

def poll (q : PriorityQueue ε) : Option (ε × PriorityQueue ε) :=
  q.peek.map fun result => (result, { q with elements := Heap.removeAt q.comparator.lt 0 q.elements })

/-- The first element that the comparator does not tell from a value. -/
def targetIndex (value : ε) (q : PriorityQueue ε) : Option Nat :=
  q.elements.findIdx? fun element => q.comparator.compare value element = 0

def remove (value : ε) (q : PriorityQueue ε) : Bool × PriorityQueue ε :=
  match q.targetIndex value with
  | some index => (true, { q with elements := Heap.removeAt q.comparator.lt index q.elements })
  | none => (false, q)

def clear (q : PriorityQueue ε) : PriorityQueue ε := { q with elements := [], capacity := 11 }

/-- What `initCapacity` leaves; `enlarged` is 1.1 times the size, rounded up. -/
def initCapacity (enlarged : Nat → Nat) (size : Nat) (q : PriorityQueue ε) : PriorityQueue ε :=
  { q with elements := [], capacity := if size = 0 then 1 else enlarged size }

def getFromPriorityQueue (enlarged : Nat → Nat) (c q : PriorityQueue ε) : Option (PriorityQueue ε) :=
  let q := q.initCapacity enlarged c.elements.length
  if c.elements.length ≤ q.capacity then some { q with elements := c.elements, comparator := c.comparator } else none

/-- `getFromPriorityQueue(*this)`: the elements are gone before their number is asked for. -/
def getFromSelf (enlarged : Nat → Nat) (q : PriorityQueue ε) : PriorityQueue ε := q.initCapacity enlarged 0

/-- `getFromCollection(c)` of a collection with these elements; `less` is the comparator `Less<E>`. -/
def getFromCollection (enlarged : Nat → Nat) (less : Comparator ε) (c : List ε) (q : PriorityQueue ε) : PriorityQueue ε :=
  c.foldl (fun q value => q.offer value) { q.initCapacity enlarged c.length with comparator := less }

def InOrder (q : PriorityQueue ε) : Prop := Heap.Ordered q.comparator.lt q.elements

/-! ### The order -/

variable {q : PriorityQueue ε}

theorem peek_least (h : q.InOrder) {first x : ε} (hfirst : q.peek = some first) (hx : x ∈ q.elements) :
    q.comparator.compare first x ≤ 0 :=
  q.comparator.lt_eq_false.mp (h.head_le q.comparator.lt_weak hfirst hx)

@[simp] theorem comparator_offer (value : ε) (q : PriorityQueue ε) : (q.offer value).comparator = q.comparator := by
  rw [offer, increaseCapacity]
  split_ifs <;> rfl

@[simp] theorem elements_offer (value : ε) (q : PriorityQueue ε) :
    (q.offer value).elements = Heap.insert q.comparator.lt value q.elements := by
  rw [offer, increaseCapacity]
  split_ifs <;> rfl

theorem offer_inOrder (h : q.InOrder) (value : ε) : (q.offer value).InOrder := by
  rw [InOrder, comparator_offer, elements_offer]
  exact Heap.insert_ordered q.comparator.lt_weak h value

theorem offer_perm (value : ε) (q : PriorityQueue ε) : (q.offer value).elements.Perm (value :: q.elements) := by
  rw [elements_offer]
  exact Heap.insert_perm value q.elements

theorem offers_inOrder (h : q.InOrder) (values : List ε) : (values.foldl (fun q value => q.offer value) q).InOrder := by
  induction values generalizing q with
  | nil => exact h
  | cons value values ih => exact ih (offer_inOrder h value)

theorem offers_perm (values : List ε) (q : PriorityQueue ε) :
    (values.foldl (fun q value => q.offer value) q).elements.Perm (values ++ q.elements) := by
  induction values generalizing q with
  | nil => exact .refl _
  | cons value values ih =>
    have hfirst := (offer_perm value q).append_left values
    exact (ih (q.offer value)).trans (hfirst.trans List.perm_middle)

theorem empty_inOrder (h : q.elements = []) : q.InOrder := by
  intro i _
  rw [h]
  rfl

theorem getFromCollection_inOrder (enlarged : Nat → Nat) (less : Comparator ε) (c : List ε) (q : PriorityQueue ε) :
    (q.getFromCollection enlarged less c).InOrder := by
  apply offers_inOrder
  exact empty_inOrder rfl

theorem getFromCollection_perm (enlarged : Nat → Nat) (less : Comparator ε) (c : List ε) (q : PriorityQueue ε) :
    (q.getFromCollection enlarged less c).elements.Perm c := by
  have h := offers_perm c { q.initCapacity enlarged c.length with comparator := less }
  rwa [show (q.initCapacity enlarged c.length).elements = [] from rfl, List.append_nil] at h

end PriorityQueue

end ActiveMQCpp.Decaf
