import ActiveMQCpp.DecafList
import ActiveMQCpp.LibChain
import ActiveMQCpp.LibRefinement
import Mathlib.Algebra.Group.Int.Defs

/-! `decaf::util::LinkedList`: nodes that are linked in both directions between a head and a tail, with the iterators
over them, and the sequence with cursors that they stand for. -/

namespace ActiveMQCpp.Decaf

open Runs Refinement Chain

/-- `head` and `tail` are members of the list; every other node has an address of its own. -/
inductive NodeRef where
  | null
  | head
  | tail
  | node (address : Nat)
  deriving DecidableEq

structure ListNode (ε : Type) where
  value : ε
  prev : NodeRef
  next : NodeRef

/-- `memory` holds the nodes that are there; `allocated` is the address of the next new one. -/
structure LinkedList (ε : Type) where
  memory : NodeRef → Option (ListNode ε)
  allocated : Nat := 0
  listSize : Int := 0
  modCount : Nat := 0

/-- `LinkedListIterator` and `ConstLinkedListIterator`. The iterators over a list that is `const` have no
`expectedModCount` and never look at it; what they would have is kept here for the statements about them. -/
structure LinkedListIterator where
  constant : Bool
  current : NodeRef
  lastReturned : NodeRef := .null
  index : Int
  expectedModCount : Nat

structure ReverseIterator where
  constant : Bool
  current : NodeRef := .tail
  expectedModCount : Nat
  canRemove : Bool := false

inductive AnyIterator where
  | list (it : LinkedListIterator)
  | reverse (it : ReverseIterator)

inductive LinkedListOp (ε : Type) where
  | add (value : ε)
  | addAt (index : Int) (value : ε)
  | addAll (collection : Argument ε)
  | addAllAt (index : Int) (collection : Argument ε)
  | copy (collection : Argument ε)
  | assign (list : Argument ε)
  | get (index : Int)
  | set (index : Int) (element : ε)
  | removeAt (index : Int)
  | removeValue (value : ε)
  | removeAll (collection : Argument ε)
  | retainAll (collection : Argument ε)
  | clear
  | isEmpty
  | size
  | contains (value : ε)
  | indexOf (value : ε)
  | lastIndexOf (value : ε)
  | toArray
  | offer (value : ε)
  | offerFirst (element : ε)
  | offerLast (element : ε)
  | addFirst (value : ε)
  | addLast (value : ε)
  | push (element : ε)
  | poll
  | pollFirst
  | pollLast
  | remove
  | removeFirst
  | removeLast
  | pop
  | peek
  | peekFirst
  | peekLast
  | element
  | getFirst
  | getLast
  | removeFirstOccurrence (value : ε)
  | removeLastOccurrence (value : ε)
  | iterator (constant : Bool)
  | listIterator (constant : Bool) (index : Int)
  | descendingIterator (constant : Bool)
  | hasNext (iterator : Nat)
  | next (iterator : Nat)
  | hasPrevious (iterator : Nat)
  | previous (iterator : Nat)
  | nextIndex (iterator : Nat)
  | previousIndex (iterator : Nat)
  | removeCurrent (iterator : Nat)
  | addCurrent (iterator : Nat) (e : ε)
  | setCurrent (iterator : Nat) (e : ε)

namespace LinkedList

variable {ε : Type}

/-! ### Nodes -/

def next (r : NodeRef) (l : LinkedList ε) : Option NodeRef := (l.memory r).map ListNode.next

def prev (r : NodeRef) (l : LinkedList ε) : Option NodeRef := (l.memory r).map ListNode.prev

def valueAt (r : NodeRef) (l : LinkedList ε) : Option ε := (l.memory r).map ListNode.value

def links (l : LinkedList ε) : Links NodeRef := ⟨fun r => l.next r, fun r => l.prev r⟩

def write (r : NodeRef) (node : ListNode ε) (l : LinkedList ε) : LinkedList ε :=
  { l with memory := Function.update l.memory r (some node) }

def setNext (r next : NodeRef) (l : LinkedList ε) : Option (LinkedList ε) :=
  (l.memory r).map fun node => l.write r { node with next := next }

def setPrev (r prev : NodeRef) (l : LinkedList ε) : Option (LinkedList ε) :=
  (l.memory r).map fun node => l.write r { node with prev := prev }

def setValue (r : NodeRef) (value : ε) (l : LinkedList ε) : Option (LinkedList ε) :=
  (l.memory r).map fun node => l.write r { node with value := value }

def delete (r : NodeRef) (l : LinkedList ε) : LinkedList ε :=
  { l with memory := Function.update l.memory r none }

def new (node : ListNode ε) (l : LinkedList ε) : LinkedList ε :=
  { l.write (.node l.allocated) node with allocated := l.allocated + 1 }

/-- A new node between two others, which are then linked to it. -/
def link (previous next : NodeRef) (value : ε) (l : LinkedList ε) : Option (LinkedList ε) := do
  let l' ← (l.new ⟨value, previous, next⟩).setNext previous (.node l.allocated)
  l'.setPrev next (.node l.allocated)

/-- The neighbours of a node are linked to each other, and the node is deleted. -/
def unlink (previous next old : NodeRef) (l : LinkedList ε) : Option (LinkedList ε) := do
  let l ← l.setNext previous next
  let l ← l.setPrev next previous
  return l.delete old

/-- The counts after a change of the structure; `listSize` is an `int`. -/
def resize (amount : Int) (l : LinkedList ε) : Option (LinkedList ε) :=
  if l.listSize + amount < 2 ^ 31 then
    some { l with listSize := l.listSize + amount, modCount := l.modCount + 1 }
  else none

def putIn (previous next : NodeRef) (value : ε) (l : LinkedList ε) : Option (LinkedList ε) := do
  let l ← l.link previous next value
  l.resize 1

def takeOut (previous next old : NodeRef) (l : LinkedList ε) : Option (LinkedList ε) := do
  let l ← l.unlink previous next old
  l.resize (-1)

def rounds (l : LinkedList ε) : Nat := l.allocated + 1

/-! ### Operations -/

def empty [Inhabited ε] : LinkedList ε where
  memory
    | .head => some ⟨default, .null, .tail⟩
    | .tail => some ⟨default, .head, .null⟩
    | _ => none

/-- The node at an index, from the end that is closer. -/
def locate (index : Int) (l : LinkedList ε) : Option NodeRef :=
  if index < l.listSize / 2 then follow l.links.next (index.toNat + 1) .head
  else follow l.links.prev (l.listSize - index).toNat .tail

/-- The place in front of the node at an index. -/
def before (index : Int) (l : LinkedList ε) : Option NodeRef :=
  if index < l.listSize / 2 then follow l.links.next index.toNat .head
  else follow l.links.prev (l.listSize - index + 1).toNat .tail

def get (index : Int) (l : LinkedList ε) : Option ε := do
  let location ← l.locate index
  l.valueAt location

def set (index : Int) (element : ε) (l : LinkedList ε) : Option (ε × LinkedList ε) := do
  let location ← l.locate index
  let oldValue ← l.valueAt location
  let l ← l.setValue location element
  return (oldValue, l)

/-- The search of `addAtLocation`: unlike the others it starts at the front for the middle, too. -/
def locateForAdd (index : Int) (l : LinkedList ε) : Option NodeRef :=
  if index ≤ l.listSize / 2 then follow l.links.next (index.toNat + 1) .head
  else follow l.links.prev (l.listSize - index).toNat .tail

def addToFront (value : ε) (l : LinkedList ε) : Option (LinkedList ε) := do
  let next ← l.next .head
  l.putIn .head next value

def addToEnd (value : ε) (l : LinkedList ε) : Option (LinkedList ε) := do
  let previous ← l.prev .tail
  l.putIn previous .tail value

def addAtLocation (index : Int) (value : ε) (l : LinkedList ε) : Option (LinkedList ε) := do
  let location ← l.locateForAdd index
  let previous ← l.prev location
  l.putIn previous location value

/-- The loop of `addAllAtLocation` over the new elements. -/
def linkAll (previous : NodeRef) : List ε → LinkedList ε → Option (LinkedList ε)
  | [], l => some l
  | value :: values, l => do
    let next ← l.next previous
    let l' ← l.link previous next value
    linkAll (.node l.allocated) values l'

def addAllAtLocation (index : Int) (values : List ε) (l : LinkedList ε) : Option (LinkedList ε) := do
  let previous ← l.before index
  let l ← l.linkAll previous values
  l.resize values.length

def purgeList : Nat → NodeRef → LinkedList ε → Option (LinkedList ε)
  | 0, _, _ => none
  | fuel + 1, current, l =>
    if current = .tail then some l
    else do
      let next ← l.next current
      purgeList fuel next (l.delete current)

def clear (l : LinkedList ε) : Option (LinkedList ε) := do
  let first ← l.next .head
  let l ← l.purgeList l.rounds first
  let l ← l.setNext .head .tail
  let l ← l.setPrev .tail .head
  return { l with listSize := 0, modCount := l.modCount + 1 }

def collect : Nat → NodeRef → LinkedList ε → Option (List ε)
  | 0, _, _ => none
  | fuel + 1, current, l =>
    if current = .tail then some []
    else do
      let value ← l.valueAt current
      let next ← l.next current
      let values ← collect fuel next l
      return value :: values

def toArray (l : LinkedList ε) : Option (List ε) := do
  let first ← l.next .head
  l.collect l.rounds first

def valuesOf (l : LinkedList ε) : Argument ε → Option (List ε)
  | .other values => some values
  | .self => l.toArray

/-- The loop of `indexOf` and `lastIndexOf`: along `link`, up to `stop`, while the index changes by `amount`. -/
def search [DecidableEq ε] (link : ListNode ε → NodeRef) (stop : NodeRef) (amount : Int) (value : ε) :
    Nat → NodeRef → Int → LinkedList ε → Option Int
  | 0, _, _, _ => none
  | fuel + 1, location, i, l =>
    if location = stop then some (-1)
    else do
      let node ← l.memory location
      if node.value = value then some i else search link stop amount value fuel (link node) (i + amount) l

def indexOf [DecidableEq ε] (value : ε) (l : LinkedList ε) : Option Int :=
  if l.listSize = 0 then some (-1)
  else do
    let first ← l.next .head
    l.search ListNode.next .tail 1 value l.rounds first 0

def lastIndexOf [DecidableEq ε] (value : ε) (l : LinkedList ε) : Option Int :=
  if l.listSize = 0 then some (-1)
  else do
    let last ← l.prev .tail
    l.search ListNode.prev .head (-1) value l.rounds last (l.listSize - 1)

end LinkedList

/-! ### Iterators -/

namespace LinkedListIterator

variable {ε : Type} (l : LinkedList ε) (it : LinkedListIterator)

def modified : Bool := !it.constant && it.expectedModCount ≠ l.modCount

/-- `none` for an index out of range. -/
def new (constant : Bool) (index : Int) : Option (Option LinkedListIterator) :=
  if index < 0 ∨ index > l.listSize then none
  else some do
    let current ← l.before index
    return { constant := constant, current := current, index := index - 1, expectedModCount := l.modCount }

def hasNext : ListAnswer ε :=
  match l.next it.current with
  | none => .undefined
  | some next => .bool (next ≠ .tail)

def next : ListAnswer ε × LinkedListIterator :=
  if it.modified l then (.concurrentModificationException, it)
  else
    match l.next it.current with
    | none => (.undefined, it)
    | some next =>
      if next = .tail then (.noSuchElementException, it)
      else
        match l.valueAt next with
        | none => (.undefined, it)
        | some value => (.value value, { it with current := next, lastReturned := next, index := it.index + 1 })

def hasPrevious : Bool := it.current ≠ .head

def previous : ListAnswer ε × LinkedListIterator :=
  if it.modified l then (.concurrentModificationException, it)
  else if it.current = .head then (.illegalStateException, it)
  else
    match l.prev it.current, l.valueAt it.current with
    | some current, some value =>
      (.value value, { it with lastReturned := it.current, current := current, index := it.index - 1 })
    | _, _ => (.undefined, it)

def nextIndex : Int := it.index + 1

def previousIndex : Int := it.index

def remove : ListAnswer ε × LinkedListIterator × LinkedList ε :=
  if it.constant then (.unsupportedOperationException, it, l)
  else if it.modified l then (.concurrentModificationException, it, l)
  else if it.lastReturned = .null then (.illegalStateException, it, l)
  else
    let result := do
      let next ← l.next it.lastReturned
      let previous ← l.prev it.lastReturned
      let l ← l.takeOut previous next it.lastReturned
      -- after `previous` the index stays
      let index := if it.current = it.lastReturned then it.index - 1 else it.index
      return ({ it with current := previous, lastReturned := .null, index := index,
                        expectedModCount := it.expectedModCount + 1 }, l)
    match result with
    | none => (.undefined, it, l)
    | some (it, l) => (.done, it, l)

def add (e : ε) : ListAnswer ε × LinkedListIterator × LinkedList ε :=
  if it.constant then (.unsupportedOperationException, it, l)
  else if it.modified l then (.concurrentModificationException, it, l)
  else
    let result := do
      let next ← l.next it.current
      let l' ← l.putIn it.current next e
      return ({ it with current := .node l.allocated, lastReturned := .null, index := it.index + 1,
                        expectedModCount := it.expectedModCount + 1 }, l')
    match result with
    | none => (.undefined, it, l)
    | some (it, l) => (.done, it, l)

def set (e : ε) : ListAnswer ε × LinkedList ε :=
  if it.constant then (.unsupportedOperationException, l)
  else if it.modified l then (.concurrentModificationException, l)
  else if it.lastReturned = .null then (.illegalStateException, l)
  else
    match l.setValue it.lastReturned e with
    | none => (.undefined, l)
    | some l => (.done, l)

end LinkedListIterator

namespace ReverseIterator

variable {ε : Type} (l : LinkedList ε) (it : ReverseIterator)

def modified : Bool := !it.constant && it.expectedModCount ≠ l.modCount

def hasNext : ListAnswer ε :=
  match l.prev it.current with
  | none => .undefined
  | some previous => .bool (previous ≠ .head)

def next : ListAnswer ε × ReverseIterator :=
  if it.modified l then (.concurrentModificationException, it)
  else
    match l.prev it.current with
    | none => (.undefined, it)
    | some previous =>
      if previous = .head then (.noSuchElementException, it)
      else
        match l.valueAt previous with
        | none => (.undefined, it)
        | some value => (.value value, { it with current := previous, canRemove := true })

def remove : ListAnswer ε × ReverseIterator × LinkedList ε :=
  if it.constant then (.unsupportedOperationException, it, l)
  else if it.modified l then (.concurrentModificationException, it, l)
  else if !it.canRemove then (.illegalStateException, it, l)
  else
    let result := do
      let previous ← l.prev it.current
      let next ← l.next it.current
      let l ← l.takeOut previous next it.current
      return ({ it with current := next, canRemove := false, expectedModCount := it.expectedModCount + 1 }, l)
    match result with
    | none => (.undefined, it, l)
    | some (it, l) => (.done, it, l)

end ReverseIterator

namespace AnyIterator

variable {ε : Type} (l : LinkedList ε)

def hasNext : AnyIterator → ListAnswer ε
  | .list it => it.hasNext l
  | .reverse it => it.hasNext l

def next : AnyIterator → ListAnswer ε × AnyIterator
  | .list it => ((it.next l).1, .list (it.next l).2)
  | .reverse it => ((it.next l).1, .reverse (it.next l).2)

def remove : AnyIterator → ListAnswer ε × AnyIterator × LinkedList ε
  | .list it => ((it.remove l).1, .list (it.remove l).2.1, (it.remove l).2.2)
  | .reverse it => ((it.remove l).1, .reverse (it.remove l).2.1, (it.remove l).2.2)

end AnyIterator

namespace LinkedList

variable {ε : Type}

/-- The loops that remove the elements that pass a test through an iterator, or only the first of them. -/
def sweep (once : Bool) (test : ε → LinkedList ε → Option Bool) :
    Nat → AnyIterator → Bool → LinkedList ε → ListAnswer ε × LinkedList ε
  | 0, _, _, l => (.undefined, l)
  | fuel + 1, it, result, l =>
    match it.hasNext l with
    | .bool false => (.bool result, l)
    | .bool true =>
      match it.next l with
      | (.value value, it') =>
        match test value l with
        | none => (.undefined, l)
        | some false => sweep once test fuel it' result l
        | some true =>
          match it'.remove l with
          | (.done, it'', l') => if once then (.bool true, l') else sweep once test fuel it'' true l'
          | (answer, _, l') => (answer, l')
      | (answer, _) => (answer, l)
    | answer => (answer, l)

def begin? (l : LinkedList ε) : Option AnyIterator := do
  let it ← LinkedListIterator.new l false 0
  let it ← it
  return .list it

def sweepForward (once : Bool) (test : ε → LinkedList ε → Option Bool) (l : LinkedList ε) :
    ListAnswer ε × LinkedList ε :=
  match l.begin? with
  | none => (.undefined, l)
  | some it => l.sweep once test l.rounds it false

section Equality

variable [DecidableEq ε]

/-- `contains` of a collection. -/
def collectionContains (collection : Argument ε) (value : ε) (l : LinkedList ε) : Option Bool :=
  match collection with
  | .other values => some (value ∈ values)
  | .self => (l.indexOf value).map fun i => i ≠ -1

def removeFirstOccurrence (value : ε) (l : LinkedList ε) : ListAnswer ε × LinkedList ε :=
  l.sweepForward true fun v _ => some (v = value)

def removeLastOccurrence (value : ε) (l : LinkedList ε) : ListAnswer ε × LinkedList ε :=
  l.sweep true (fun v _ => some (v = value)) l.rounds
    (.reverse { constant := false, expectedModCount := l.modCount }) false

def removeAll (collection : Argument ε) (l : LinkedList ε) : ListAnswer ε × LinkedList ε :=
  l.sweepForward false (collectionContains collection)

def retainAll (collection : Argument ε) (l : LinkedList ε) : ListAnswer ε × LinkedList ε :=
  l.sweepForward false fun v l => (l.collectionContains collection v).map (!·)

end Equality

def removeAt (index : Int) (l : LinkedList ε) : ListAnswer ε × LinkedList ε :=
  match LinkedListIterator.new l false index with
  | none => (.indexOutOfBoundsException, l)
  | some none => (.undefined, l)
  | some (some it) =>
    match it.next l with
    | (.value result, it') =>
      match it'.remove l with
      | (.done, _, l') => (.value result, l')
      | (answer, _, l') => (answer, l')
    | (.noSuchElementException, _) => (.indexOutOfBoundsException, l)
    | (answer, _) => (answer, l)

def settle (l : LinkedList ε) (answer : ListAnswer ε) : Option (LinkedList ε) → ListAnswer ε × LinkedList ε
  | some l' => (answer, l')
  | none => (.undefined, l)

def answerOf {α : Type} (answer : α → ListAnswer ε) : Option α → ListAnswer ε
  | some a => answer a
  | none => .undefined

def removeAtFront (l : LinkedList ε) : ListAnswer ε × LinkedList ε :=
  if l.next .head = some .tail then (.noSuchElementException, l)
  else
    match l.next .head with
    | none => (.undefined, l)
    | some oldNode =>
      match l.valueAt oldNode, l.next oldNode with
      | some result, some next => l.settle (.value result) (l.takeOut .head next oldNode)
      | _, _ => (.undefined, l)

def removeAtEnd (l : LinkedList ε) : ListAnswer ε × LinkedList ε :=
  if l.next .head = some .tail then (.noSuchElementException, l)
  else
    match l.prev .tail with
    | none => (.undefined, l)
    | some oldNode =>
      match l.valueAt oldNode, l.prev oldNode with
      | some result, some previous => l.settle (.value result) (l.takeOut previous .tail oldNode)
      | _, _ => (.undefined, l)

def first (l : LinkedList ε) : Option ε := do
  let node ← l.next .head
  l.valueAt node

def last (l : LinkedList ε) : Option ε := do
  let node ← l.prev .tail
  l.valueAt node

def peekOr (whenEmpty : ListAnswer ε) (value : Option ε) (l : LinkedList ε) : ListAnswer ε :=
  if l.listSize = 0 then whenEmpty else answerOf .value value

/-- The element at an end of the list is read before it is removed. -/
def pollOr (value : Option ε) (removed : ListAnswer ε × LinkedList ε) (l : LinkedList ε) :
    ListAnswer ε × LinkedList ε :=
  if l.listSize = 0 then (.bool false, l)
  else
    match value, removed with
    | some result, (.value _, l') => (.value result, l')
    | some _, other => other
    | none, _ => (.undefined, l)

def addChecked (index : Int) (value : ε) (l : LinkedList ε) : ListAnswer ε × LinkedList ε :=
  if index < 0 ∨ index > l.listSize then (.indexOutOfBoundsException, l)
  else l.settle .done (l.addAtLocation index value)

/-- `addAllAtLocation` of a collection that may be the list itself, which is copied first. -/
def addCollection (index : Int) (collection : Argument ε) (l : LinkedList ε) : ListAnswer ε × LinkedList ε :=
  if index < 0 ∨ index > l.listSize then (.indexOutOfBoundsException, l)
  else
    match l.valuesOf collection with
    | none => (.undefined, l)
    | some [] => (.bool false, l)
    | some (value :: values) => l.settle (.bool true) (l.addAllAtLocation index (value :: values))

/-- `copy` and the assignments: the list is empty by the time the elements are asked for. -/
def copy (collection : Argument ε) (l : LinkedList ε) : ListAnswer ε × LinkedList ε :=
  match l.clear with
  | none => (.undefined, l)
  | some l' =>
    match l'.addCollection 0 collection with
    | (.bool _, l'') => (.done, l'')
    | other => other

def construct [Inhabited ε] (collection : List ε) : Option (LinkedList ε) :=
  match (empty : LinkedList ε).addCollection 0 (.other collection) with
  | (.bool _, l) => some l
  | _ => none

end LinkedList

/-- A list and the iterators made for it. -/
structure LinkedListState (ε : Type) where
  list : LinkedList ε
  iterators : List AnyIterator := []

namespace LinkedListState

variable {ε : Type}

/-- An operation that leaves the iterators to themselves. -/
def change (s : LinkedListState ε) (result : ListAnswer ε × LinkedList ε) : ListAnswer ε × LinkedListState ε :=
  (result.1, { s with list := result.2 })

def iterate (s : LinkedListState ε) : Option (Option AnyIterator) → ListAnswer ε × LinkedListState ε
  | none => (.indexOutOfBoundsException, s)
  | some none => (.undefined, s)
  | some (some it) => (.done, { s with iterators := s.iterators ++ [it] })

/-- An operation of an iterator. -/
def withIterator (s : LinkedListState ε) (i : Nat)
    (act : AnyIterator → ListAnswer ε × AnyIterator × LinkedList ε) : ListAnswer ε × LinkedListState ε :=
  match s.iterators[i]? with
  | none => (.noIterator, s)
  | some it => ((act it).1, { list := (act it).2.2, iterators := s.iterators.set i (act it).2.1 })

/-- An operation that only a `ListIterator` has. -/
def onList (l : LinkedList ε) (act : LinkedListIterator → ListAnswer ε × LinkedListIterator × LinkedList ε) :
    AnyIterator → ListAnswer ε × AnyIterator × LinkedList ε
  | .list it => ((act it).1, .list (act it).2.1, (act it).2.2)
  | .reverse it => (.noIterator, .reverse it, l)

def step [DecidableEq ε] (s : LinkedListState ε) : LinkedListOp ε → ListAnswer ε × LinkedListState ε
  | .add value | .offer value | .offerLast value =>
    s.change (s.list.settle (.bool true) (s.list.addToEnd value))
  | .addLast value => s.change (s.list.settle .done (s.list.addToEnd value))
  | .offerFirst value => s.change (s.list.settle (.bool true) (s.list.addToFront value))
  | .addFirst value | .push value => s.change (s.list.settle .done (s.list.addToFront value))
  | .addAt index value => s.change (s.list.addChecked index value)
  | .addAll collection => s.change (s.list.addCollection s.list.listSize collection)
  | .addAllAt index collection => s.change (s.list.addCollection index collection)
  | .copy collection | .assign collection => s.change (s.list.copy collection)
  | .get index =>
    if index < 0 ∨ index ≥ s.list.listSize then (.indexOutOfBoundsException, s)
    else (LinkedList.answerOf .value (s.list.get index), s)
  | .set index element =>
    if index < 0 ∨ index ≥ s.list.listSize then (.indexOutOfBoundsException, s)
    else
      match s.list.set index element with
      | none => (.undefined, s)
      | some (oldValue, l) => s.change (.value oldValue, l)
  | .removeAt index => s.change (s.list.removeAt index)
  | .removeValue value | .removeFirstOccurrence value => s.change (s.list.removeFirstOccurrence value)
  | .removeLastOccurrence value => s.change (s.list.removeLastOccurrence value)
  | .removeAll collection => s.change (s.list.removeAll collection)
  | .retainAll collection => s.change (s.list.retainAll collection)
  | .clear => s.change (s.list.settle .done s.list.clear)
  | .isEmpty => (.bool (s.list.listSize = 0), s)
  | .size => (.index s.list.listSize, s)
  | .contains value => (LinkedList.answerOf (fun i => .bool (i ≠ -1)) (s.list.indexOf value), s)
  | .indexOf value => (LinkedList.answerOf .index (s.list.indexOf value), s)
  | .lastIndexOf value => (LinkedList.answerOf .index (s.list.lastIndexOf value), s)
  | .toArray => (LinkedList.answerOf .array s.list.toArray, s)
  | .poll | .pollFirst => s.change (s.list.pollOr s.list.first s.list.removeAtFront)
  | .pollLast => s.change (s.list.pollOr s.list.last s.list.removeAtEnd)
  | .remove | .removeFirst | .pop => s.change s.list.removeAtFront
  | .removeLast => s.change s.list.removeAtEnd
  | .peek | .peekFirst => (s.list.peekOr (.bool false) s.list.first, s)
  | .peekLast => (s.list.peekOr (.bool false) s.list.last, s)
  | .element | .getFirst => (s.list.peekOr .noSuchElementException s.list.first, s)
  | .getLast => (s.list.peekOr .noSuchElementException s.list.last, s)
  | .iterator constant =>
    s.iterate ((LinkedListIterator.new s.list constant 0).map fun it => it.map AnyIterator.list)
  | .listIterator constant index =>
    s.iterate ((LinkedListIterator.new s.list constant index).map fun it => it.map AnyIterator.list)
  | .descendingIterator constant =>
    s.iterate (some (some (.reverse { constant := constant, expectedModCount := s.list.modCount })))
  | .hasNext i => s.withIterator i fun it => (it.hasNext s.list, it, s.list)
  | .next i => s.withIterator i fun it => ((it.next s.list).1, (it.next s.list).2, s.list)
  | .hasPrevious i => s.withIterator i (onList s.list fun it => (.bool it.hasPrevious, it, s.list))
  | .previous i => s.withIterator i (onList s.list fun it => ((it.previous s.list).1, (it.previous s.list).2, s.list))
  | .nextIndex i => s.withIterator i (onList s.list fun it => (.index it.nextIndex, it, s.list))
  | .previousIndex i => s.withIterator i (onList s.list fun it => (.index it.previousIndex, it, s.list))
  | .removeCurrent i => s.withIterator i fun it => it.remove s.list
  | .addCurrent i e => s.withIterator i (onList s.list fun it => it.add s.list e)
  | .setCurrent i e => s.withIterator i (onList s.list fun it => ((it.set s.list e).1, it, (it.set s.list e).2))

end LinkedListState

/-! ### The sequence with cursors -/

/-- A cursor stands in front of the element with the index `position`; `last` is the index of the element that was
returned last, as long as it may be removed or replaced. -/
structure SequenceCursor where
  constant : Bool
  descending : Bool
  position : Nat
  last : Option Nat := none
  stale : Bool := false

/-- A cursor that was not used for a change is stale after it. -/
structure CursorSequence (ε : Type) where
  values : List ε := []
  cursors : List SequenceCursor := []

namespace SequenceCursor

variable {ε : Type} (values : List ε) (c : SequenceCursor)

def forward : ListAnswer ε × SequenceCursor :=
  match values[c.position]? with
  | none => (.noSuchElementException, c)
  | some value => (.value value, { c with position := c.position + 1, last := some c.position })

def backward : ListAnswer ε × SequenceCursor :=
  match c.position with
  | 0 => (.noSuchElementException, c)
  | position + 1 =>
    match values[position]? with
    | none => (.noSuchElementException, c)
    | some value => (.value value, { c with position := position, last := some position })

def next : ListAnswer ε × SequenceCursor := if c.descending then c.backward values else c.forward values

def hasNext : Bool := if c.descending then 0 < c.position else c.position < values.length

end SequenceCursor

namespace CursorSequence

variable {ε : Type}

def become (t : CursorSequence ε) (values : List ε) : CursorSequence ε :=
  { values := values, cursors := t.cursors.map fun c => { c with stale := true } }

/-- An answer that needs the cursor to be up to date. -/
def fresh {α : Type} (c : SequenceCursor) (same : α) (answer : ListAnswer ε × α) : ListAnswer ε × α :=
  if c.stale then (.concurrentModificationException, same) else answer

/-- Only a cursor that is not constant and up to date changes the sequence. -/
def writing (t : CursorSequence ε) (c : SequenceCursor) (result : ListAnswer ε × CursorSequence ε) :
    ListAnswer ε × CursorSequence ε :=
  if c.constant then (.unsupportedOperationException, t) else fresh c t result

def changeBy (t : CursorSequence ε) (i : Nat) (c : SequenceCursor) (values : List ε) : CursorSequence ε :=
  { values := values, cursors := (t.become values).cursors.set i c }

def removeLast (t : CursorSequence ε) (i : Nat) (c : SequenceCursor) : ListAnswer ε × CursorSequence ε :=
  match c.last with
  | none => (.illegalStateException, t)
  | some j =>
    (.done, t.changeBy i { c with position := if j < c.position then c.position - 1 else c.position, last := none }
      (t.values.eraseIdx j))

def addBefore (t : CursorSequence ε) (i : Nat) (c : SequenceCursor) (e : ε) : ListAnswer ε × CursorSequence ε :=
  (.done, t.changeBy i { c with position := c.position + 1, last := none }
    (t.values.take c.position ++ e :: t.values.drop c.position))

def setLast (t : CursorSequence ε) (c : SequenceCursor) (e : ε) : ListAnswer ε × CursorSequence ε :=
  match c.last with
  | none => (.illegalStateException, t)
  | some j => (.done, { t with values := t.values.set j e })

def withCursor (t : CursorSequence ε) (i : Nat)
    (act : SequenceCursor → ListAnswer ε × CursorSequence ε) : ListAnswer ε × CursorSequence ε :=
  match t.cursors[i]? with
  | none => (.noIterator, t)
  | some c => act c

/-- An operation that a descending cursor does not have. -/
def onList (t : CursorSequence ε) (act : SequenceCursor → ListAnswer ε × CursorSequence ε) (c : SequenceCursor) :
    ListAnswer ε × CursorSequence ε :=
  if c.descending then (.noIterator, t) else act c

def moved (t : CursorSequence ε) (i : Nat) (result : ListAnswer ε × SequenceCursor) :
    ListAnswer ε × CursorSequence ε :=
  (result.1, { t with cursors := t.cursors.set i result.2 })

/-- The sequence without the elements that pass a test. -/
def without (t : CursorSequence ε) (test : ε → Bool) : ListAnswer ε × CursorSequence ε :=
  (.bool (t.values.any test), if t.values.any test then t.become (t.values.filter fun v => !test v) else t)

def insertAll (t : CursorSequence ε) (index : Nat) (values : List ε) : ListAnswer ε × CursorSequence ε :=
  match values with
  | [] => (.bool false, t)
  | _ :: _ => (.bool true, t.become (t.values.take index ++ (values ++ t.values.drop index)))

def takeFirst (t : CursorSequence ε) (whenEmpty : ListAnswer ε) : ListAnswer ε × CursorSequence ε :=
  match t.values with
  | [] => (whenEmpty, t)
  | value :: values => (.value value, t.become values)

def takeLast (t : CursorSequence ε) (whenEmpty : ListAnswer ε) : ListAnswer ε × CursorSequence ε :=
  match t.values.getLast? with
  | none => (whenEmpty, t)
  | some value => (.value value, t.become t.values.dropLast)

def showOr (whenEmpty : ListAnswer ε) : Option ε → ListAnswer ε
  | none => whenEmpty
  | some value => .value value

section Equality

variable [DecidableEq ε]

def eraseFirst (t : CursorSequence ε) (value : ε) : ListAnswer ε × CursorSequence ε :=
  (.bool (value ∈ t.values), if value ∈ t.values then t.become (t.values.erase value) else t)

def eraseLast (t : CursorSequence ε) (value : ε) : ListAnswer ε × CursorSequence ε :=
  (.bool (value ∈ t.values), if value ∈ t.values then t.become (t.values.reverse.erase value).reverse else t)

def step (t : CursorSequence ε) : LinkedListOp ε → ListAnswer ε × CursorSequence ε
  | .add value | .offer value | .offerLast value => (.bool true, t.become (t.values ++ [value]))
  | .addLast value => (.done, t.become (t.values ++ [value]))
  | .offerFirst value => (.bool true, t.become (value :: t.values))
  | .addFirst value | .push value => (.done, t.become (value :: t.values))
  | .addAt index value =>
    if 0 ≤ index ∧ index ≤ t.values.length then
      (.done, t.become (t.values.take index.toNat ++ value :: t.values.drop index.toNat))
    else (.indexOutOfBoundsException, t)
  | .addAll collection => t.insertAll t.values.length (Sequence.valuesOf t.values collection)
  | .addAllAt index collection =>
    if 0 ≤ index ∧ index ≤ t.values.length then t.insertAll index.toNat (Sequence.valuesOf t.values collection)
    else (.indexOutOfBoundsException, t)
  | .copy collection | .assign collection => (.done, t.become (Sequence.valuesOf t.values collection))
  | .get index => (showOr .indexOutOfBoundsException (Sequence.get? index t.values), t)
  | .set index element =>
    match Sequence.get? index t.values with
    | none => (.indexOutOfBoundsException, t)
    | some oldValue => (.value oldValue, { t with values := t.values.set index.toNat element })
  | .removeAt index =>
    match Sequence.get? index t.values with
    | none => (.indexOutOfBoundsException, t)
    | some old => (.value old, t.become (t.values.eraseIdx index.toNat))
  | .removeValue value | .removeFirstOccurrence value => t.eraseFirst value
  | .removeLastOccurrence value => t.eraseLast value
  | .removeAll collection => t.without (· ∈ Sequence.valuesOf t.values collection)
  | .retainAll collection => t.without (· ∉ Sequence.valuesOf t.values collection)
  | .clear => (.done, t.become [])
  | .isEmpty => (.bool t.values.isEmpty, t)
  | .size => (.index t.values.length, t)
  | .contains value => (.bool (value ∈ t.values), t)
  | .indexOf value => (.index (indexOrNone (t.values.findIdx? (· = value))), t)
  | .lastIndexOf value =>
    (.index (indexOrNone ((t.values.reverse.findIdx? (· = value)).map fun i => t.values.length - 1 - i)), t)
  | .toArray => (.array t.values, t)
  | .poll | .pollFirst => t.takeFirst (.bool false)
  | .pollLast => t.takeLast (.bool false)
  | .remove | .removeFirst | .pop => t.takeFirst .noSuchElementException
  | .removeLast => t.takeLast .noSuchElementException
  | .peek | .peekFirst => (showOr (.bool false) t.values.head?, t)
  | .peekLast => (showOr (.bool false) t.values.getLast?, t)
  | .element | .getFirst => (showOr .noSuchElementException t.values.head?, t)
  | .getLast => (showOr .noSuchElementException t.values.getLast?, t)
  | .iterator constant =>
    (.done, { t with cursors := t.cursors ++ [{ constant := constant, descending := false, position := 0 }] })
  | .listIterator constant index =>
    if 0 ≤ index ∧ index ≤ t.values.length then
      (.done, { t with cursors := t.cursors ++
        [{ constant := constant, descending := false, position := index.toNat }] })
    else (.indexOutOfBoundsException, t)
  | .descendingIterator constant =>
    (.done, { t with cursors := t.cursors ++
      [{ constant := constant, descending := true, position := t.values.length }] })
  | .hasNext i => t.withCursor i fun c => fresh c t (.bool (c.hasNext t.values), t)
  | .next i => t.withCursor i fun c => fresh c t (t.moved i (c.next t.values))
  | .hasPrevious i => t.withCursor i (t.onList fun c => fresh c t (.bool (0 < c.position), t))
  | .previous i => t.withCursor i (t.onList fun c => fresh c t (t.moved i (c.backward t.values)))
  | .nextIndex i => t.withCursor i (t.onList fun c => fresh c t (.index c.position, t))
  | .previousIndex i => t.withCursor i (t.onList fun c => fresh c t (.index (c.position - 1), t))
  | .removeCurrent i => t.withCursor i fun c => t.writing c (t.removeLast i c)
  | .addCurrent i e => t.withCursor i (t.onList fun c => t.writing c (t.addBefore i c e))
  | .setCurrent i e => t.withCursor i (t.onList fun c => t.writing c (t.setLast c e))

/-- Where more answers than one are right: a question to a stale cursor may be answered, and there are two
exceptions for a cursor that has no element before it. -/
def Open (t : CursorSequence ε) : LinkedListOp ε → ListAnswer ε → Prop
  | .hasNext i, answer | .hasPrevious i, answer =>
    ∃ c b, t.cursors[i]? = some c ∧ c.stale = true ∧ answer = .bool b
  | .nextIndex i, answer | .previousIndex i, answer =>
    ∃ c n, t.cursors[i]? = some c ∧ c.stale = true ∧ answer = .index n
  | .previous i, answer =>
    ∃ c, t.cursors[i]? = some c ∧ c.stale = false ∧ c.position = 0 ∧ answer = .illegalStateException
  | _, _ => False

def Allowed (t : CursorSequence ε) (op : LinkedListOp ε) (answer : ListAnswer ε) (t' : CursorSequence ε) : Prop :=
  t' = (t.step op).2 ∧ (answer = (t.step op).1 ∨ t.Open op answer)

end Equality

end CursorSequence

end ActiveMQCpp.Decaf
