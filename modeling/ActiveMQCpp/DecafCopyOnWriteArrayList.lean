import ActiveMQCpp.DecafArrayList

/-! `decaf::util::concurrent::CopyOnWriteArrayList`: every change makes another array, and an iterator keeps the one
it was made on. -/

namespace ActiveMQCpp.Decaf

open Runs Refinement Buffer List Option Sequence

namespace CopyOnWriteArrayList

/-- The length of `elements` is the capacity. -/
structure Array (ε : Type) where
  elements : List ε := []
  size : Nat := 0
  deriving DecidableEq

structure ArrayListIterator where
  array : Nat
  position : Nat
  deriving DecidableEq

end CopyOnWriteArrayList

/-- All arrays made so far, the place of the one that `array` points to, and the iterators. -/
structure CopyOnWriteArrayList (ε : Type) where
  arrays : List (CopyOnWriteArrayList.Array ε)
  array : Nat
  iterators : List CopyOnWriteArrayList.ArrayListIterator := []
  deriving DecidableEq

inductive IteratorOp (ε : Type) where
  | hasNext
  | next
  | hasPrevious
  | previous
  | nextIndex
  | previousIndex
  | remove
  | add (e : ε)
  | set (e : ε)

inductive CopyOnWriteOp (ε : Type) where
  | copy (collection : Argument ε)
  | add (value : ε)
  | addAt (index : Int) (element : ε)
  | addAll (collection : Argument ε)
  | addAllAt (index : Int) (collection : Argument ε)
  | clear
  | remove (value : ε)
  | removeAt (index : Int)
  | removeAll (collection : Argument ε)
  | retainAll (collection : Argument ε)
  | set (index : Int) (element : ε)
  | addIfAbsent (value : ε)
  | addAllAbsent (collection : Argument ε)
  | get (index : Int)
  | size
  | isEmpty
  | contains (value : ε)
  | indexOf (value : ε)
  | lastIndexOf (value : ε)
  | toArray
  | iterator
  | listIterator (index : Int)
  | iterate (iterator : Nat) (op : IteratorOp ε)

namespace CopyOnWriteArrayList

variable {ε : Type}

inductive Constructor (ε : Type) where
  | default
  | collection (values : List ε)
  | array (values : List ε)

def Constructor.values : Constructor ε → List ε
  | .default => []
  | .collection values | .array values => values

namespace Array

def toArray (a : Array ε) : List ε := a.elements.take a.size

def store (values : List ε) (a : Array ε) : Option (Array ε) :=
  (System.arraycopy values 0 a.elements a.size values.length).map fun elements =>
    { elements := elements, size := a.size + values.length }

/-- The elements of one array that meet a condition are stored in another. -/
def storeIf (p : ε → Bool) : List ε → Array ε → Option (Array ε)
  | [], buffer => some buffer
  | value :: rest, buffer =>
    if p value then (buffer.store [value]).bind (storeIf p rest) else storeIf p rest buffer

section Search

variable [DecidableEq ε]

def indexOf (value : ε) (a : Array ε) : Option Nat := a.toArray.findIdx? (· = value)

def lastIndexOf (value : ε) (a : Array ε) : Option Nat :=
  (a.toArray.reverse.findIdx? (· = value)).map fun i => a.size - 1 - i

end Search

variable [Inhabited ε]

def ofCapacity (capacity : Nat) : Array ε := { elements := ArrayList.newArray capacity }

def copyOf (src : Array ε) (capacity : Nat) : Option (Array ε) :=
  (if src.size > 0 then
      System.arraycopy src.elements 0 (ofCapacity (max src.size capacity)).elements 0 src.size
    else some (ofCapacity (max src.size capacity)).elements).map fun elements =>
    { elements := elements, size := src.size }

def append (values : List ε) (a : Array ε) : Option (Array ε) := do
  let newArray ← a.copyOf (a.size + values.length)
  newArray.store values

def copyFront (index capacity : Nat) (a : Array ε) : Option (List ε) :=
  if a.size > 0 then System.arraycopy a.elements 0 (ofCapacity capacity).elements 0 index
  else some (ofCapacity capacity).elements

omit [Inhabited ε] in
def copyBack (index destPos : Nat) (elements : List ε) (a : Array ε) : Option (List ε) :=
  if a.size > index then System.arraycopy a.elements index elements destPos (a.size - index) else some elements

def add (index : Nat) (element : ε) (a : Array ε) : Option (Array ε) := do
  let elements ← a.copyFront index (a.size + 1)
  let elements ← a.copyBack index (index + 1) elements
  let elements ← System.arraycopy [element] 0 elements index 1
  some { elements := elements, size := a.size + 1 }

def addAll (index : Nat) (values : List ε) (a : Array ε) : Option (Array ε) := do
  let elements ← a.copyFront index (a.size + values.length)
  let elements ← System.arraycopy values 0 elements index values.length
  let elements ← a.copyBack index (index + values.length) elements
  some { elements := elements, size := a.size + values.length }

def set (index : Nat) (element : ε) (a : Array ε) : Option (Array ε) :=
  (a.copyOf a.size).map fun newArray => { newArray with elements := newArray.elements.set index element }

def removeAt (index : Nat) (a : Array ε) : Option (Array ε) :=
  if a.size = 1 then some {}
  else
    (System.arraycopy a.elements 0 (ofCapacity (a.size - 1)).elements 0 index).bind fun elements =>
      (if a.size > index then System.arraycopy a.elements (index + 1) elements index (a.size - index - 1)
      else some elements).map fun elements => { elements := elements, size := a.size - 1 }

section Collections

variable [DecidableEq ε]

def removeAll (values : List ε) (a : Array ε) : Option (Array ε) := do
  let buffer ← storeIf (· ∉ values) a.toArray (ofCapacity a.size)
  if buffer.size = 0 then some {} else buffer.copyOf buffer.size

def retainAll (values : List ε) (a : Array ε) : Option (Array ε) :=
  if values.isEmpty then some {}
  else do
    let buffer ← storeIf (· ∈ values) a.toArray (ofCapacity a.size)
    some (if buffer.size = 0 then {} else buffer)

/-- What is absent is looked up in the array as it was before the call. -/
def addAllAbsent (values : List ε) (a : Array ε) : Option (Nat × Array ε) := do
  let buffer ← storeIf (fun value => indexOrNone (a.indexOf value) = -1) values (ofCapacity values.length)
  let newArray ← a.copyOf (a.size + buffer.size)
  let elements ← System.arraycopy buffer.elements 0 newArray.elements a.size buffer.size
  some (buffer.size, { elements := elements, size := a.size + buffer.size })

end Collections

end Array

/-! ### The list -/

def swap (newArray : Array ε) (l : CopyOnWriteArrayList ε) : CopyOnWriteArrayList ε :=
  { l with arrays := l.arrays ++ [newArray], array := l.arrays.length }

def settle (l : CopyOnWriteArrayList ε) (answer : ListAnswer ε) :
    Option (Array ε) → ListAnswer ε × CopyOnWriteArrayList ε
  | some newArray => (answer, l.swap newArray)
  | none => (.undefined, l)

def newIterator (index : Int) (a : Array ε) (l : CopyOnWriteArrayList ε) : ListAnswer ε × CopyOnWriteArrayList ε :=
  if index < 0 ∨ index > a.size then (.indexOutOfBoundsException, l)
  else (.done, { l with iterators := l.iterators ++ [{ array := l.array, position := index.toNat }] })

/-- The answer of an iterator and its new position; `previous` reads the element behind the position it moves to. -/
def ArrayListIterator.step (a : Array ε) (position : Nat) : IteratorOp ε → ListAnswer ε × Nat
  | .hasNext => (.bool (position < a.size), position)
  | .next =>
    if position ≥ a.size then (.noSuchElementException, position)
    else
      match a.elements[position]? with
      | some value => (.value value, position + 1)
      | none => (.undefined, position + 1)
  | .hasPrevious => (.bool (position > 0), position)
  | .previous =>
    if position = 0 then (.noSuchElementException, position)
    else
      match a.elements[position]? with
      | some value => (.value value, position - 1)
      | none => (.undefined, position - 1)
  | .nextIndex => (.index position, position)
  | .previousIndex => (.index (position - 1), position)
  | .remove | .add _ | .set _ => (.unsupportedOperationException, position)

def iterate (i : Nat) (op : IteratorOp ε) (l : CopyOnWriteArrayList ε) : ListAnswer ε × CopyOnWriteArrayList ε :=
  match l.iterators[i]? with
  | none => (.noIterator, l)
  | some it =>
    match l.arrays[it.array]? with
    | none => (.undefined, l)
    | some a =>
      ((ArrayListIterator.step a it.position op).1,
        { l with
          iterators := l.iterators.set i { it with position := (ArrayListIterator.step a it.position op).2 } })

def valuesOf (a : Array ε) : Argument ε → List ε
  | .other values => values
  | .self => a.toArray

section Step

variable [Inhabited ε] [DecidableEq ε]

omit [DecidableEq ε] in
def doCopyCollection (values : List ε) (a : Array ε) (l : CopyOnWriteArrayList ε) :
    ListAnswer ε × CopyOnWriteArrayList ε :=
  if values.isEmpty then (.done, l) else l.settle .done (a.append values)

omit [DecidableEq ε] in
def construct : Constructor ε → CopyOnWriteArrayList ε
  | .default => { arrays := [{}], array := 0 }
  | .collection values => (doCopyCollection values {} { arrays := [{}], array := 0 }).2
  | .array values =>
    (settle { arrays := [{}], array := 0 } .done ((Array.ofCapacity values.length).store values)).2

/-- An operation on the array that the list points to. -/
def operate (l : CopyOnWriteArrayList ε) (a : Array ε) : CopyOnWriteOp ε → ListAnswer ε × CopyOnWriteArrayList ε
  | .copy .self => (.done, l.swap {})
  | .copy (.other values) => (l.swap {}).doCopyCollection values {}
  | .add value => l.settle (.bool true) (a.append [value])
  | .addAt index element =>
    if index < 0 ∨ index > a.size then (.indexOutOfBoundsException, l)
    else l.settle .done (a.add index.toNat element)
  | .addAll collection => l.settle (.bool true) (a.append (valuesOf a collection))
  | .addAllAt index collection =>
    if index < 0 ∨ index > a.size then (.indexOutOfBoundsException, l)
    else if (valuesOf a collection).length = 0 then (.bool false, l)
    else l.settle (.bool true) (a.addAll index.toNat (valuesOf a collection))
  | .clear => (.done, l.swap {})
  | .remove value =>
    match a.indexOf value with
    | some i => l.settle (.bool true) (a.removeAt i)
    | none => (.bool false, l)
  | .removeAt index =>
    if index < 0 ∨ index ≥ a.size then (.indexOutOfBoundsException, l)
    else
      match a.elements[index.toNat]? with
      | some old => l.settle (.value old) (a.removeAt index.toNat)
      | none => (.undefined, l)
  | .removeAll collection =>
    if (valuesOf a collection).isEmpty then (.bool false, l)
    else if a.size = 0 then (.bool false, l)
    else l.settle (.bool true) (a.removeAll (valuesOf a collection))
  | .retainAll collection =>
    if a.size = 0 then (.bool false, l) else l.settle (.bool true) (a.retainAll (valuesOf a collection))
  | .set index element =>
    if index < 0 ∨ index ≥ a.size then (.indexOutOfBoundsException, l)
    else
      match a.elements[index.toNat]? with
      | some old => l.settle (.value old) (a.set index.toNat element)
      | none => (.undefined, l)
  | .addIfAbsent value =>
    if a.size ≠ 0 ∧ indexOrNone (a.indexOf value) ≠ -1 then (.bool false, l)
    else l.settle (.bool true) (a.append [value])
  | .addAllAbsent collection =>
    if (valuesOf a collection).length = 0 then (.index 0, l)
    else
      match a.addAllAbsent (valuesOf a collection) with
      | some (count, newArray) => (.index count, l.swap newArray)
      | none => (.undefined, l)
  | .get index =>
    if index < 0 ∨ index ≥ a.size then (.indexOutOfBoundsException, l)
    else
      match a.elements[index.toNat]? with
      | some value => (.value value, l)
      | none => (.undefined, l)
  | .size => (.index a.size, l)
  | .isEmpty => (.bool (a.size = 0), l)
  | .contains value => (.bool (indexOrNone (a.indexOf value) ≠ -1), l)
  | .indexOf value => (.index (indexOrNone (a.indexOf value)), l)
  | .lastIndexOf value => (.index (indexOrNone (a.lastIndexOf value)), l)
  | .toArray => (.array a.toArray, l)
  | .iterator => l.newIterator 0 a
  | .listIterator index => l.newIterator index a
  | .iterate i op => l.iterate i op

def step (l : CopyOnWriteArrayList ε) (op : CopyOnWriteOp ε) : ListAnswer ε × CopyOnWriteArrayList ε :=
  match l.arrays[l.array]? with
  | some a => l.operate a op
  | none => (.undefined, l)

end Step

end CopyOnWriteArrayList

/-! ### Snapshots -/

/-- A sequence, and for every iterator the sequence as it was when the iterator was made. -/
structure Snapshots (ε : Type) where
  content : List ε
  cursors : List (List ε × Nat) := []
  deriving DecidableEq

namespace Snapshots

variable {ε : Type}

/-- What a cursor before the element at a position answers, and where it moves. -/
def traverse (values : List ε) (position : Nat) : IteratorOp ε → ListAnswer ε × Nat
  | .hasNext => (.bool (position < values.length), position)
  | .next =>
    match values[position]? with
    | some value => (.value value, position + 1)
    | none => (.noSuchElementException, position)
  | .hasPrevious => (.bool (position > 0), position)
  | .previous =>
    if position = 0 then (.noSuchElementException, position)
    else
      match values[position - 1]? with
      | some value => (.value value, position - 1)
      | none => (.noSuchElementException, position)
  | .nextIndex => (.index position, position)
  | .previousIndex => (.index (position - 1), position)
  | .remove | .add _ | .set _ => (.unsupportedOperationException, position)

def put (answer : ListAnswer ε) (content : List ε) (t : Snapshots ε) : ListAnswer ε × Snapshots ε :=
  (answer, { t with content := content })

def newCursor (index : Int) (t : Snapshots ε) : ListAnswer ε × Snapshots ε :=
  if 0 ≤ index ∧ index ≤ t.content.length then
    (.done, { t with cursors := t.cursors ++ [(t.content, index.toNat)] })
  else (.indexOutOfBoundsException, t)

variable [DecidableEq ε]

/-- The values that are neither in the sequence nor among the values before them. -/
def absentOf (xs : List ε) : List ε → List ε
  | [] => []
  | value :: rest => if value ∈ xs then absentOf xs rest else value :: absentOf (xs ++ [value]) rest

def step (t : Snapshots ε) : CopyOnWriteOp ε → ListAnswer ε × Snapshots ε
  | .copy .self => t.put .done []
  | .copy (.other values) => t.put .done values
  | .add value => t.put (.bool true) (t.content ++ [value])
  | .addAt index element =>
    if 0 ≤ index ∧ index ≤ t.content.length then
      t.put .done (t.content.take index.toNat ++ (element :: t.content.drop index.toNat))
    else (.indexOutOfBoundsException, t)
  | .addAll collection => t.put (.bool true) (t.content ++ Sequence.valuesOf t.content collection)
  | .addAllAt index collection =>
    if 0 ≤ index ∧ index ≤ t.content.length then
      t.put (.bool (Sequence.valuesOf t.content collection ≠ []))
        (t.content.take index.toNat ++ (Sequence.valuesOf t.content collection ++ t.content.drop index.toNat))
    else (.indexOutOfBoundsException, t)
  | .clear => t.put .done []
  | .remove value => t.put (.bool (value ∈ t.content)) (t.content.erase value)
  | .removeAt index =>
    match Sequence.get? index t.content with
    | some old => t.put (.value old) (t.content.eraseIdx index.toNat)
    | none => (.indexOutOfBoundsException, t)
  | .removeAll collection =>
    t.put (.bool (Sequence.valuesOf t.content collection ≠ [] ∧ t.content ≠ []))
      (t.content.filter (· ∉ Sequence.valuesOf t.content collection))
  | .retainAll collection =>
    t.put (.bool (t.content ≠ [])) (t.content.filter (· ∈ Sequence.valuesOf t.content collection))
  | .set index element =>
    match Sequence.get? index t.content with
    | some old => t.put (.value old) (t.content.set index.toNat element)
    | none => (.indexOutOfBoundsException, t)
  | .addIfAbsent value => t.put (.bool (value ∉ t.content)) (t.content ++ absentOf t.content [value])
  | .addAllAbsent collection =>
    t.put (.index (absentOf t.content (Sequence.valuesOf t.content collection)).length)
      (t.content ++ absentOf t.content (Sequence.valuesOf t.content collection))
  | .get index =>
    match Sequence.get? index t.content with
    | some value => (.value value, t)
    | none => (.indexOutOfBoundsException, t)
  | .size => (.index t.content.length, t)
  | .isEmpty => (.bool (t.content = []), t)
  | .contains value => (.bool (value ∈ t.content), t)
  | .indexOf value => (.index (indexOrNone (t.content.findIdx? (· = value))), t)
  | .lastIndexOf value =>
    (.index (indexOrNone ((t.content.reverse.findIdx? (· = value)).map fun i => t.content.length - 1 - i)), t)
  | .toArray => (.array t.content, t)
  | .iterator => t.newCursor 0
  | .listIterator index => t.newCursor index
  | .iterate i op =>
    match t.cursors[i]? with
    | some (values, position) =>
      ((traverse values position op).1,
        { t with cursors := t.cursors.set i (values, (traverse values position op).2) })
    | none => (.noIterator, t)

end Snapshots

namespace CopyOnWriteArrayList

variable {ε : Type} {a b : Array ε} {xs ys values : List ε} {index capacity : Nat}

/-! ### The arrays -/

structure Holds (a : Array ε) (xs : List ε) : Prop where
  elements : ∃ spare, a.elements = xs ++ spare
  size : a.size = xs.length

namespace Holds

theorem empty : Holds ({} : Array ε) [] := ⟨⟨[], rfl⟩, rfl⟩

theorem represents (h : Holds a xs) : ArrayList.Represents { elements := a.elements, curSize := a.size } xs :=
  ⟨h.elements, h.size⟩

theorem toArray_eq (h : Holds a xs) : a.toArray = xs := h.represents.toArray_eq

theorem size_le (h : Holds a xs) : xs.length ≤ a.elements.length := h.represents.size_le

theorem getElem?_eq (h : Holds a xs) {i : Nat} (hi : i < xs.length) : a.elements[i]? = xs[i]? :=
  h.represents.getElem?_eq hi

theorem take_eq (h : Holds a xs) (hindex : index ≤ xs.length) : a.elements.take index = xs.take index :=
  h.represents.take_eq hindex

theorem drop_eq (h : Holds a xs) (hindex : index ≤ xs.length) :
    (a.elements.drop index).take (xs.length - index) = xs.drop index :=
  h.represents.drop_eq hindex

theorem get?_eq (h : Holds a xs) (i : Int) : get? i xs = if i < 0 ∨ i ≥ a.size then none else a.elements[i.toNat]? :=
  h.represents.get?_eq i

end Holds

theorem store_holds (h : Holds a xs) (hroom : xs.length + ys.length ≤ a.elements.length) :
    ∃ b, a.store ys = some b ∧ Holds b (xs ++ ys) ∧ b.elements.length = a.elements.length := by
  obtain ⟨spare, helements⟩ := h.elements
  have hcopy : System.arraycopy ys 0 a.elements a.size ys.length = some (overwrite a.elements xs.length ys) := by
    rw [h.size, ArrayList.arraycopy_eq (by omega) hroom, drop_zero, take_length]
  rw [Array.store, hcopy]
  refine ⟨_, rfl, ⟨⟨spare.drop ys.length, ?_⟩, ?_⟩, length_overwrite hroom⟩
  · show overwrite a.elements xs.length ys = _
    rw [helements, overwrite_end]
  · show a.size + ys.length = _
    rw [h.size, length_append]

theorem storeIf_holds {p : ε → Bool} (h : Holds a xs) (hroom : xs.length + values.length ≤ a.elements.length) :
    ∃ b, Array.storeIf p values a = some b ∧ Holds b (xs ++ values.filter p) ∧
      b.elements.length = a.elements.length := by
  induction values generalizing a xs with
  | nil =>
    refine ⟨a, rfl, ?_, rfl⟩
    rwa [filter_nil, append_nil]
  | cons value rest ih =>
    rw [length_cons] at hroom
    rw [Array.storeIf]
    split_ifs with hp
    · have hone : xs.length + [value].length ≤ a.elements.length := by
        rw [length_singleton]
        omega
      obtain ⟨b, hstore, hb, hlength⟩ := store_holds h hone
      obtain ⟨c, hrest, hc, hlength'⟩ := ih hb (by rw [length_append, length_singleton]; omega)
      rw [hstore, bind_some, filter_cons_of_pos hp, append_cons]
      exact ⟨c, hrest, hc, hlength'.trans hlength⟩
    · rw [filter_cons_of_neg hp]
      exact ih h (by omega)

variable [Inhabited ε]
variable {front rest : List ε} {destPos : Nat}

theorem ofCapacity_holds (capacity : Nat) : Holds (Array.ofCapacity capacity : Array ε) [] := ⟨⟨_, rfl⟩, rfl⟩

theorem length_ofCapacity (capacity : Nat) : (Array.ofCapacity capacity : Array ε).elements.length = capacity :=
  ArrayList.length_newArray capacity

theorem copyOf_holds (h : Holds a xs) (capacity : Nat) :
    ∃ b, a.copyOf capacity = some b ∧ Holds b xs ∧ b.elements.length = max xs.length capacity := by
  have hsize := h.size
  have hle := h.size_le
  have hlength := length_ofCapacity (ε := ε) (max a.size capacity)
  rw [Array.copyOf]
  split_ifs with hpos
  · rw [ArrayList.arraycopy_eq (by omega) (by omega), drop_zero, h.size, h.take_eq le_rfl, take_length]
    refine ⟨_, rfl, ⟨⟨_, overwrite_front⟩, rfl⟩, ?_⟩
    rw [length_overwrite (by rw [← h.size]; omega), ← h.size, hlength]
  · obtain rfl : xs = [] := length_eq_zero_iff.mp (by omega)
    refine ⟨_, rfl, ⟨⟨_, rfl⟩, hsize⟩, ?_⟩
    rw [hlength, hsize]

theorem append_holds (h : Holds a xs) (values : List ε) : ∃ b, a.append values = some b ∧ Holds b (xs ++ values) := by
  obtain ⟨b, hcopy, hb, hlength⟩ := copyOf_holds h (a.size + values.length)
  have hroom : xs.length + values.length ≤ b.elements.length := by
    rw [hlength, h.size]
    omega
  obtain ⟨c, hstore, hc, -⟩ := store_holds hb hroom
  rw [Array.append, hcopy]
  exact ⟨c, hstore, hc⟩

theorem copyFront_eq (h : Holds a xs) (hindex : index ≤ xs.length) (hroom : index ≤ capacity) :
    a.copyFront index capacity = some (xs.take index ++ (Array.ofCapacity (capacity - index)).elements) := by
  have hsize := h.size
  have hle := h.size_le
  have hlength := length_ofCapacity (ε := ε) capacity
  have hrest : (Array.ofCapacity capacity : Array ε).elements.drop index =
      (Array.ofCapacity (capacity - index)).elements := drop_replicate
  rw [Array.copyFront]
  split_ifs with hpos
  · rw [ArrayList.arraycopy_eq (by omega) (by omega), drop_zero, h.take_eq hindex, overwrite_front,
      length_take_of_le hindex, hrest]
  · obtain rfl : xs = [] := length_eq_zero_iff.mp (by omega)
    obtain rfl : index = 0 := Nat.le_zero.mp hindex
    rfl

omit [Inhabited ε] in
theorem arraycopy_end {src : List ε} {srcPos n : Nat} (hfront : front.length = destPos)
    (hsrc : srcPos + n ≤ src.length) (hrest : n ≤ rest.length) :
    System.arraycopy src srcPos (front ++ rest) destPos n =
      some (front ++ (src.drop srcPos).take n ++ rest.drop n) := by
  have hlength : ((src.drop srcPos).take n).length = n := by
    rw [length_take, length_drop]
    omega
  rw [ArrayList.arraycopy_eq hsrc (by rw [length_append]; omega), ← hfront, overwrite_end, hlength]

omit [Inhabited ε] in
theorem copyBack_eq (h : Holds a xs) (hindex : index ≤ xs.length)
    (hfront : front.length = destPos) (hrest : xs.length - index ≤ rest.length) :
    ∃ spare, a.copyBack index destPos (front ++ rest) = some (front ++ xs.drop index ++ spare) := by
  have hsize := h.size
  have hle := h.size_le
  rw [Array.copyBack]
  split_ifs with hback
  · rw [arraycopy_end hfront (by omega) (by omega), h.size, h.drop_eq hindex]
    exact ⟨_, rfl⟩
  · rw [drop_of_length_le (by omega : xs.length ≤ index), append_nil]
    exact ⟨_, rfl⟩

theorem addAll_holds (h : Holds a xs) (hindex : index ≤ xs.length) (values : List ε) :
    ∃ b, a.addAll index values = some b ∧ Holds b (xs.take index ++ (values ++ xs.drop index)) := by
  have hsize := h.size
  have hshort : (xs.take index).length = index := length_take_of_le hindex
  have hlength := length_ofCapacity (ε := ε) (a.size + values.length - index)
  have hfront : (xs.take index ++ values).length = index + values.length := by rw [length_append, hshort]
  have hrest : xs.length - index ≤
      ((Array.ofCapacity (a.size + values.length - index) : Array ε).elements.drop values.length).length := by
    rw [length_drop, hlength]
    omega
  obtain ⟨spare, hback⟩ := copyBack_eq h hindex hfront hrest
  rw [Array.addAll, copyFront_eq h hindex (by omega), bind_eq_bind, bind_some,
    arraycopy_end hshort (by omega) (by omega), drop_zero, take_length, bind_some, hback]
  refine ⟨_, rfl, ⟨⟨spare, ?_⟩, ?_⟩⟩
  · simp only [append_assoc]
  · show a.size + values.length = _
    rw [length_append, length_append, hshort, length_drop]
    omega

theorem add_holds (h : Holds a xs) (hindex : index ≤ xs.length) (element : ε) :
    ∃ b, a.add index element = some b ∧ Holds b (xs.take index ++ (element :: xs.drop index)) := by
  have hsize := h.size
  have hshort : (xs.take index).length = index := length_take_of_le hindex
  have hgap : (Array.ofCapacity (a.size + 1 - index) : Array ε).elements =
      default :: (Array.ofCapacity (a.size - index)).elements := by
    rw [Nat.succ_sub (by omega)]
    rfl
  have hfront : (xs.take index ++ [(default : ε)]).length = index + 1 := by
    rw [length_append, hshort, length_singleton]
  have hrest : xs.length - index ≤ (Array.ofCapacity (a.size - index) : Array ε).elements.length := by
    rw [length_ofCapacity]
    omega
  obtain ⟨spare, hback⟩ := copyBack_eq h hindex hfront hrest
  rw [Array.add, copyFront_eq h hindex (by omega), bind_eq_bind, bind_some, hgap, append_cons,
    hback, bind_some, append_assoc, append_assoc, arraycopy_end hshort (by exact le_rfl) (by simp)]
  refine ⟨_, rfl, ⟨⟨spare, ?_⟩, ?_⟩⟩
  · simp
  · show a.size + 1 = _
    rw [length_append, length_cons, hshort, length_drop]
    omega

theorem set_holds (h : Holds a xs) (hindex : index < xs.length) (element : ε) :
    ∃ b, a.set index element = some b ∧ Holds b (xs.set index element) := by
  obtain ⟨b, hcopy, hb, -⟩ := copyOf_holds h a.size
  have hset := hb.represents.set hindex element
  rw [Array.set, hcopy]
  exact ⟨_, rfl, ⟨hset.elements, hset.size⟩⟩

theorem removeAt_holds (h : Holds a xs) (hindex : index < xs.length) :
    ∃ b, a.removeAt index = some b ∧ Holds b (xs.eraseIdx index) := by
  have hsize := h.size
  have hle := h.size_le
  have hshort : (xs.take index).length = index := length_take_of_le hindex.le
  rw [Array.removeAt]
  by_cases hone : a.size = 1
  · rw [if_pos hone]
    obtain ⟨x, rfl⟩ := length_eq_one_iff.mp (hsize.symm.trans hone)
    obtain rfl : index = 0 := Nat.lt_one_iff.mp hindex
    exact ⟨{}, rfl, Holds.empty⟩
  · have hlength := length_ofCapacity (ε := ε) (a.size - 1)
    have hback : (a.elements.drop (index + 1)).take (a.size - index - 1) = xs.drop (index + 1) := by
      rw [h.size, Nat.sub_sub, h.drop_eq hindex]
    rw [if_neg hone, ArrayList.arraycopy_eq (by omega) (by omega), drop_zero, h.take_eq hindex.le, overwrite_front, hshort,
      bind_some, if_pos (by omega),
      arraycopy_end hshort (by omega) (by rw [length_drop]; omega), hback]
    refine ⟨_, rfl, ⟨⟨_, congrArg (· ++ _) (eraseIdx_eq_take_drop_succ xs index).symm⟩, ?_⟩⟩
    · show a.size - 1 = _
      rw [length_eraseIdx_of_lt hindex, hsize]

section Collections

variable [DecidableEq ε]

omit [DecidableEq ε] in
theorem storeIf_toArray (h : Holds a xs) (p : ε → Bool) :
    ∃ b, Array.storeIf p a.toArray (Array.ofCapacity a.size) = some b ∧ Holds b (xs.filter p) := by
  have hroom : ([] : List ε).length + xs.length ≤ (Array.ofCapacity a.size : Array ε).elements.length := by
    rw [length_ofCapacity, h.size]
    exact (Nat.zero_add _).le
  obtain ⟨b, hstore, hb, -⟩ := storeIf_holds (p := p) (ofCapacity_holds a.size) hroom
  rw [h.toArray_eq]
  exact ⟨b, hstore, hb⟩

theorem removeAll_holds (h : Holds a xs) (values : List ε) :
    ∃ b, a.removeAll values = some b ∧ Holds b (xs.filter (· ∉ values)) := by
  obtain ⟨b, hstore, hb⟩ := storeIf_toArray h (· ∉ values)
  have hsize := hb.size
  rw [Array.removeAll, hstore, bind_eq_bind, bind_some]
  split_ifs with hzero
  · rw [length_eq_zero_iff.mp (hsize.symm.trans hzero)]
    exact ⟨{}, rfl, Holds.empty⟩
  · obtain ⟨c, hcopy, hc, -⟩ := copyOf_holds hb b.size
    exact ⟨c, hcopy, hc⟩

theorem retainAll_holds (h : Holds a xs) (values : List ε) :
    ∃ b, a.retainAll values = some b ∧ Holds b (xs.filter (· ∈ values)) := by
  obtain ⟨b, hstore, hb⟩ := storeIf_toArray h (· ∈ values)
  have hsize := hb.size
  rw [Array.retainAll]
  split_ifs with hnone
  · rw [isEmpty_iff.mp hnone]
    refine ⟨{}, rfl, ?_⟩
    rw [filter_eq_nil_iff.mpr (by simp)]
    exact Holds.empty
  · rw [hstore, bind_eq_bind, bind_some]
    refine ⟨_, rfl, ?_⟩
    split_ifs with hzero
    · rw [length_eq_zero_iff.mp (hsize.symm.trans hzero)]
      exact Holds.empty
    · exact hb

theorem addAllAbsent_holds (h : Holds a xs) (values : List ε) :
    ∃ b, a.addAllAbsent values = some ((values.filter (· ∉ xs)).length, b) ∧
      Holds b (xs ++ values.filter (· ∉ xs)) := by
  have hbuffer : ([] : List ε).length + values.length ≤ (Array.ofCapacity values.length : Array ε).elements.length := by
    rw [length_ofCapacity]
    exact (Nat.zero_add _).le
  obtain ⟨b, hstore, hb, -⟩ := storeIf_holds (p := fun value => indexOrNone (a.indexOf value) = -1)
    (ofCapacity_holds values.length) hbuffer
  have hfilter : (values.filter fun value => indexOrNone (a.indexOf value) = -1) = values.filter (· ∉ xs) := by
    apply filter_congr
    intro value _
    rw [Array.indexOf, h.toArray_eq]
    exact decide_eq_decide.mpr (not_iff_comm.mp indexOrNone_ne_iff).symm
  rw [hfilter, nil_append] at hb
  obtain ⟨c, hcopy, hc, hlength⟩ := copyOf_holds h (a.size + b.size)
  have hsize := hb.size
  obtain ⟨spare, helements⟩ := hc.elements
  rw [Array.addAllAbsent, hstore, bind_eq_bind, bind_some, hcopy, bind_eq_bind, bind_some,
    helements, arraycopy_end h.size.symm (by rw [Nat.zero_add, hsize]; exact hb.size_le) ?_, drop_zero,
    hsize, hb.take_eq le_rfl, take_length]
  · refine ⟨_, rfl, ⟨⟨_, rfl⟩, ?_⟩⟩
    show a.size + _ = _
    rw [length_append, h.size]
  · rw [helements, length_append, h.size] at hlength
    omega

end Collections

end CopyOnWriteArrayList

namespace Snapshots

variable {ε : Type} {t : Snapshots ε} {i : Nat} {v : ε}

/-! ### What the snapshots are for -/

section Cursor

variable [DecidableEq ε]
variable {values : List ε} {position : Nat}

theorem step_iterate (h : t.cursors[i]? = some (values, position)) (op : IteratorOp ε) : t.step (.iterate i op) =
      ((traverse values position op).1,
        { t with cursors := t.cursors.set i (values, (traverse values position op).2) }) := by
  rw [step, h]

theorem step_step_iterate {there back : IteratorOp ε} {moved : Nat}
    (h : t.cursors[i]? = some (values, position)) (hthere : traverse values position there = (.value v, moved))
    (hback : traverse values moved back = (.value v, position)) :
    (t.step (.iterate i there)).2.step (.iterate i back) = (.value v, t) := by
  obtain ⟨hi, hget⟩ := List.getElem?_eq_some_iff.mp h
  have hmoved : (t.cursors.set i (values, moved))[i]? = some (values, moved) := List.getElem?_set_self hi
  have hsame : (t.cursors.set i (values, moved)).set i (values, position) = t.cursors := by
    rw [set_set, ← hget, set_getElem_self]
  rw [step_iterate h, hthere, step_iterate hmoved, hback, hsame]

theorem previous_next (h : (t.step (.iterate i .next)).1 = .value v) :
    (t.step (.iterate i .next)).2.step (.iterate i .previous) = (.value v, t) := by
  cases hcursor : t.cursors[i]? with
  | none =>
    rw [step, hcursor] at h
    cases h
  | some cursor =>
    obtain ⟨values, position⟩ := cursor
    rw [step_iterate hcursor, traverse] at h
    cases hvalue : values[position]? with
    | none =>
      rw [hvalue] at h
      cases h
    | some value =>
      rw [hvalue] at h
      cases h
      have hthere : traverse values position .next = (.value v, position + 1) := by rw [traverse, hvalue]
      apply step_step_iterate hcursor hthere
      · rw [traverse, if_neg (Nat.succ_ne_zero _), Nat.add_sub_cancel, hvalue]

theorem next_previous (h : (t.step (.iterate i .previous)).1 = .value v) :
    (t.step (.iterate i .previous)).2.step (.iterate i .next) = (.value v, t) := by
  cases hcursor : t.cursors[i]? with
  | none =>
    rw [step, hcursor] at h
    cases h
  | some cursor =>
    obtain ⟨values, position⟩ := cursor
    rw [step_iterate hcursor, traverse] at h
    by_cases hstart : position = 0
    · rw [if_pos hstart] at h
      cases h
    · rw [if_neg hstart] at h
      cases hvalue : values[position - 1]? with
      | none =>
        rw [hvalue] at h
        cases h
      | some value =>
        rw [hvalue] at h
        cases h
        have hthere : traverse values position .previous = (.value v, position - 1) := by
          rw [traverse, if_neg hstart, hvalue]
        apply step_step_iterate hcursor hthere
        · rw [traverse, hvalue, Nat.sub_add_cancel (Nat.pos_of_ne_zero hstart)]

theorem cursors_step {op : CopyOnWriteOp ε} (hi : i < t.cursors.length) (hop : ∀ move, op ≠ .iterate i move) :
    (t.step op).2.cursors[i]? = t.cursors[i]? := by
  have hnew : ∀ index, (t.newCursor index).2.cursors[i]? = t.cursors[i]? := by
    intro index
    rw [newCursor]
    split_ifs
    · exact List.getElem?_append_left hi
    · rfl
  cases op with
  | iterator => exact hnew 0
  | listIterator index => exact hnew index
  | iterate j move =>
    have hne : j ≠ i := fun hji => hop move (hji ▸ rfl)
    cases hcursor : t.cursors[j]? with
    | none => rw [step, hcursor]
    | some cursor =>
      rw [step_iterate hcursor]
      exact List.getElem?_set_ne hne
  | copy collection => cases collection <;> rfl
  | addAt | addAllAt =>
    rw [step]
    split_ifs <;> rfl
  | removeAt index | set index =>
    rw [step]
    cases get? index t.content <;> rfl
  | get index =>
    rw [step]
    cases get? index t.content <;> rfl
  | add | addAll | clear | remove | removeAll | retainAll | addIfAbsent | addAllAbsent | size | isEmpty | contains
  | indexOf | lastIndexOf | toArray => rfl

end Cursor

section Absent

variable [DecidableEq ε] {xs values : List ε}

theorem not_mem_of_mem_absentOf (h : v ∈ absentOf xs values) : v ∉ xs := by
  induction values generalizing xs with
  | nil => cases h
  | cons value rest ih =>
    rw [absentOf] at h
    split_ifs at h with hvalue
    · exact ih h
    · rcases mem_cons.mp h with rfl | hrest
      · exact hvalue
      · exact fun hmem => ih hrest (mem_append_left _ hmem)

theorem nodup_absentOf : (absentOf xs values).Nodup := by
  induction values generalizing xs with
  | nil => exact nodup_nil
  | cons value rest ih =>
    rw [absentOf]
    split_ifs
    · exact ih
    · refine nodup_cons.mpr ⟨fun hmem => ?_, ih⟩
      exact not_mem_of_mem_absentOf hmem (mem_append_right _ mem_cons_self)

theorem absentOf_sublist : (absentOf xs values).Sublist (values.filter (· ∉ xs)) := by
  induction values generalizing xs with
  | nil => exact List.Sublist.slnil
  | cons value rest ih =>
    rw [absentOf]
    split_ifs with hvalue
    · rw [filter_cons_of_neg (by simpa using hvalue)]
      exact ih
    · rw [filter_cons_of_pos (by simpa using hvalue)]
      apply List.Sublist.cons_cons
      apply ih.trans
      apply monotone_filter_right
      intro x hx
      simp only [mem_append, not_or, decide_eq_true_eq] at hx ⊢
      exact hx.1

theorem absentOf_eq_filter (h : (values.filter (· ∉ xs)).Nodup) : absentOf xs values = values.filter (· ∉ xs) := by
  induction values generalizing xs with
  | nil => rfl
  | cons value rest ih =>
    rw [absentOf]
    split_ifs with hvalue
    · rw [filter_cons_of_neg (by simpa using hvalue)] at h ⊢
      exact ih h
    · rw [filter_cons_of_pos (by simpa using hvalue)] at h ⊢
      obtain ⟨hnew, hrest⟩ := nodup_cons.mp h
      have hfilter : rest.filter (· ∉ xs ++ [value]) = rest.filter (· ∉ xs) := by
        apply filter_congr
        intro x hx
        refine decide_eq_decide.mpr ⟨fun hout hmem => hout (mem_append_left _ hmem), fun hout hmem => ?_⟩
        rcases mem_append.mp hmem with hmem | hmem
        · exact hout hmem
        · rw [mem_singleton.mp hmem] at hx
          exact hnew (mem_filter.mpr ⟨hx, decide_eq_true hvalue⟩)
      rw [ih (hfilter ▸ hrest), hfilter]

theorem length_absentOf_eq_iff (xs values : List ε) :
    (absentOf xs values).length = (values.filter (· ∉ xs)).length ↔ (values.filter (· ∉ xs)).Nodup := by
  refine ⟨fun hlength => ?_, fun hnodup => by rw [absentOf_eq_filter hnodup]⟩
  rw [← absentOf_sublist.eq_of_length hlength]
  exact nodup_absentOf

end Absent

end Snapshots

namespace CopyOnWriteArrayList

variable {ε : Type} {l : CopyOnWriteArrayList ε} {t : Snapshots ε} {a b : Array ε} {xs : List ε} {i : Nat}

/-! ### The list shows the snapshots -/

structure Follows (arrays : List (Array ε)) (it : ArrayListIterator) (cursor : List ε × Nat) : Prop where
  array : ∃ a, arrays[it.array]? = some a ∧ Holds a cursor.1
  position : it.position = cursor.2
  inside : cursor.2 ≤ cursor.1.length

structure Shows (l : CopyOnWriteArrayList ε) (t : Snapshots ε) : Prop where
  content : ∃ a, l.arrays[l.array]? = some a ∧ Holds a t.content
  cursors : List.Forall₂ (Follows l.arrays) l.iterators t.cursors

def Agrees (x : ListAnswer ε × CopyOnWriteArrayList ε) (y : ListAnswer ε × Snapshots ε) : Prop :=
  x.1 = y.1 ∧ Shows x.2 y.2

theorem Shows.swap (h : Shows l t) (hb : Holds b xs) : Shows (l.swap b) { t with content := xs } := by
  refine ⟨⟨b, List.getElem?_concat_length, hb⟩, h.cursors.imp ?_⟩
  intro it cursor hfollows
  obtain ⟨a, hget, ha⟩ := hfollows.array
  obtain ⟨hlt, -⟩ := List.getElem?_eq_some_iff.mp hget
  exact ⟨⟨a, (List.getElem?_append_left hlt).trans hget, ha⟩, hfollows.position, hfollows.inside⟩

theorem agrees_settle (h : Shows l t) (answer : ListAnswer ε) {effect : Option (Array ε)}
    (heffect : ∃ b, effect = some b ∧ Holds b xs) : Agrees (l.settle answer effect) (t.put answer xs) := by
  obtain ⟨b, rfl, hb⟩ := heffect
  exact ⟨rfl, h.swap hb⟩

theorem agrees_newIterator (h : Shows l t) (hget : l.arrays[l.array]? = some a) (ha : Holds a t.content)
    (index : Int) : Agrees (l.newIterator index a) (t.newCursor index) := by
  rw [newIterator, Snapshots.newCursor, ha.size]
  by_cases hrange : 0 ≤ index ∧ index ≤ (t.content.length : Int)
  · rw [if_neg (by omega), if_pos hrange]
    refine ⟨rfl, h.content, forall₂_concat h.cursors ⟨⟨a, hget, ha⟩, rfl, ?_⟩⟩
    show index.toNat ≤ t.content.length
    omega
  · rw [if_pos (by omega), if_neg hrange]
    exact ⟨rfl, h⟩

/-- What `previous` reads is the element it moves back over. -/
def BackSafe (a : Array ε) (position : Nat) : IteratorOp ε → Prop
  | .previous => position > 0 → a.elements[position]? = a.elements[position - 1]?
  | _ => True

theorem iterator_agrees (ha : Holds a xs) {position : Nat} (hinside : position ≤ xs.length) (op : IteratorOp ε) :
    ((ArrayListIterator.step a position op).1 = (Snapshots.traverse xs position op).1 ↔ BackSafe a position op) ∧
      (BackSafe a position op →
        (ArrayListIterator.step a position op).2 = (Snapshots.traverse xs position op).2 ∧
          (Snapshots.traverse xs position op).2 ≤ xs.length) := by
  have hsize := ha.size
  cases op with
  | hasNext =>
    rw [ArrayListIterator.step, Snapshots.traverse, hsize]
    exact ⟨iff_of_true rfl trivial, fun _ => ⟨rfl, hinside⟩⟩
  | next =>
    rw [ArrayListIterator.step, Snapshots.traverse]
    by_cases hend : position ≥ a.size
    · rw [if_pos hend, List.getElem?_eq_none (by omega)]
      exact ⟨iff_of_true rfl trivial, fun _ => ⟨rfl, hinside⟩⟩
    · rw [if_neg hend, ha.getElem?_eq (by omega), List.getElem?_eq_getElem (by omega)]
      refine ⟨iff_of_true rfl trivial, fun _ => ⟨rfl, ?_⟩⟩
      show position + 1 ≤ _
      omega
  | previous =>
    rw [ArrayListIterator.step, Snapshots.traverse, BackSafe]
    by_cases hstart : position = 0
    · rw [if_pos hstart, if_pos hstart]
      exact ⟨iff_of_true rfl (by omega), fun _ => ⟨rfl, hinside⟩⟩
    · have hback : a.elements[position - 1]? = some xs[position - 1] := by
        rw [ha.getElem?_eq (by omega), List.getElem?_eq_getElem (by omega)]
      rw [if_neg hstart, if_neg hstart, hback, List.getElem?_eq_getElem (by omega : position - 1 < xs.length)]
      have hpos : position > 0 := Nat.pos_of_ne_zero hstart
      cases hread : a.elements[position]? with
      | none => exact ⟨iff_of_false (by simp) (by simp [hpos]), fun hsafe => by simp [hpos] at hsafe⟩
      | some value =>
        refine ⟨by simp [hpos], fun _ => ⟨rfl, ?_⟩⟩
        show position - 1 ≤ _
        omega
  | hasPrevious | nextIndex | previousIndex | remove | add | set =>
    exact ⟨iff_of_true rfl trivial, fun _ => ⟨rfl, hinside⟩⟩

variable [DecidableEq ε]

/-- `previous` is called at the start, or between two elements that are equal; no collection is given to
`addAllAbsent` that has an absent value twice. -/
def Orderly (l : CopyOnWriteArrayList ε) : CopyOnWriteOp ε → Prop
  | .addAllAbsent collection =>
    ∀ a ∈ l.arrays[l.array]?, ((valuesOf a collection).filter (· ∉ a.toArray)).Nodup
  | .iterate i op => ∀ it ∈ l.iterators[i]?, ∀ a ∈ l.arrays[it.array]?, BackSafe a it.position op
  | _ => True

theorem iterate_agrees (h : Shows l t) (i : Nat) (op : IteratorOp ε) :
    ((l.iterate i op).1 = (t.step (.iterate i op)).1 ↔ Orderly l (.iterate i op)) ∧
      (Orderly l (.iterate i op) → Shows (l.iterate i op).2 (t.step (.iterate i op)).2) := by
  cases hit : l.iterators[i]? with
  | none =>
    rw [iterate, Snapshots.step, Orderly, hit, getElem?_none_of_rel h.cursors hit]
    exact ⟨iff_of_true rfl (by simp), fun _ => h⟩
  | some it =>
    obtain ⟨cursor, hcursor, hfollows⟩ := rel_of_getElem? h.cursors hit
    obtain ⟨a, hget, ha⟩ := hfollows.array
    obtain ⟨hanswer, hmove⟩ := iterator_agrees ha hfollows.inside op
    rw [← hfollows.position] at hanswer hmove
    have horderly : Orderly l (.iterate i op) ↔ BackSafe a it.position op := by
      simp [Orderly, hit, hget]
    rw [iterate, hit, horderly]
    simp only [hget]
    rw [Snapshots.step_iterate hcursor, ← hfollows.position]
    refine ⟨hanswer, fun hsafe => ⟨h.content, ?_⟩⟩
    obtain ⟨hposition, hinside⟩ := hmove hsafe
    exact forall₂_set h.cursors i ⟨⟨a, hget, ha⟩, hposition, hinside⟩

omit [DecidableEq ε] in
theorem agrees_iff {x : ListAnswer ε × CopyOnWriteArrayList ε} {y : ListAnswer ε × Snapshots ε} {p : Prop} (hp : p)
    (h : Agrees x y) : (x.1 = y.1 ↔ p) ∧ (p → Shows x.2 y.2) :=
  ⟨iff_of_true h.1 hp, fun _ => h.2⟩

section Step

variable [Inhabited ε]

omit [DecidableEq ε] in
theorem doCopyCollection_agrees (h : Shows l t) (hempty : t.content = []) (ha : Holds a []) (values : List ε) :
    Agrees (l.doCopyCollection values a) (t.put .done values) := by
  rw [doCopyCollection]
  split_ifs with hnone
  · rw [isEmpty_iff.mp hnone, ← hempty]
    exact ⟨rfl, h⟩
  · exact agrees_settle h _ (append_holds ha values)

omit [Inhabited ε] in
theorem absentOf_singleton (value : ε) : Snapshots.absentOf xs [value] = if value ∈ xs then [] else [value] := rfl

theorem step_agrees (h : Shows l t) (op : CopyOnWriteOp ε) :
    ((l.step op).1 = (t.step op).1 ↔ Orderly l op) ∧ (Orderly l op → Shows (l.step op).2 (t.step op).2) := by
  obtain ⟨a, hget, ha⟩ := h.content
  have hsize := ha.size
  have hvalues : ∀ collection, valuesOf a collection = Sequence.valuesOf t.content collection := by
    intro collection
    cases collection with
    | other values => rfl
    | self => exact ha.toArray_eq
  rw [step, hget]
  show ((l.operate a op).1 = _ ↔ _) ∧ (_ → Shows (l.operate a op).2 _)
  cases op with
  | copy collection =>
    cases collection with
    | self => exact agrees_iff trivial ⟨rfl, h.swap Holds.empty⟩
    | other values =>
      exact agrees_iff trivial (doCopyCollection_agrees (h.swap Holds.empty) rfl Holds.empty values)
  | add value => exact agrees_iff trivial (agrees_settle h _ (append_holds ha [value]))
  | addAt index element =>
    rw [operate, Snapshots.step]
    by_cases hrange : 0 ≤ index ∧ index ≤ (t.content.length : Int)
    · rw [if_neg (by omega), if_pos hrange]
      exact agrees_iff trivial (agrees_settle h _ (add_holds ha (by omega) element))
    · rw [if_pos (by omega), if_neg hrange]
      exact agrees_iff trivial ⟨rfl, h⟩
  | addAll collection =>
    rw [operate, Snapshots.step, hvalues]
    exact agrees_iff trivial (agrees_settle h _ (append_holds ha _))
  | addAllAt index collection =>
    rw [operate, Snapshots.step, hvalues]
    by_cases hrange : 0 ≤ index ∧ index ≤ (t.content.length : Int)
    · rw [if_neg (by omega), if_pos hrange]
      by_cases hnone : (Sequence.valuesOf t.content collection).length = 0
      · rw [if_pos hnone, length_eq_zero_iff.mp hnone, nil_append, take_append_drop]
        exact agrees_iff trivial ⟨rfl, h⟩
      · rw [if_neg hnone, decide_eq_true (mt length_eq_zero_iff.mpr hnone)]
        exact agrees_iff trivial (agrees_settle h _ (addAll_holds ha (by omega) _))
    · rw [if_pos (by omega), if_neg hrange]
      exact agrees_iff trivial ⟨rfl, h⟩
  | clear => exact agrees_iff trivial ⟨rfl, h.swap Holds.empty⟩
  | remove value =>
    rw [operate, Snapshots.step, Array.indexOf, ha.toArray_eq]
    cases hfound : t.content.findIdx? (· = value) with
    | none =>
      have hnot := not_mem_of_findIdx? hfound
      rw [decide_eq_false hnot, erase_of_not_mem hnot]
      exact agrees_iff trivial ⟨rfl, h⟩
    | some i =>
      obtain ⟨hmem, hi, herase⟩ := findIdx?_erase hfound
      rw [decide_eq_true hmem, ← herase]
      exact agrees_iff trivial (agrees_settle h _ (removeAt_holds ha hi))
  | removeAt index =>
    rw [operate, Snapshots.step, ha.get?_eq]
    split_ifs with hrange
    · exact agrees_iff trivial ⟨rfl, h⟩
    · rw [ha.getElem?_eq (by omega), List.getElem?_eq_getElem (by omega)]
      exact agrees_iff trivial (agrees_settle h _ (removeAt_holds ha (by omega)))
  | removeAll collection =>
    rw [operate, Snapshots.step, hvalues]
    by_cases hnone : Sequence.valuesOf t.content collection = []
    · have hall : t.content.filter (· ∉ Sequence.valuesOf t.content collection) = t.content := by
        rw [filter_eq_self]
        simp [hnone]
      rw [if_pos (isEmpty_iff.mpr hnone), decide_eq_false (fun hboth => hboth.1 hnone), hall]
      exact agrees_iff trivial ⟨rfl, h⟩
    · rw [if_neg (mt List.isEmpty_iff.mp hnone)]
      by_cases hempty : t.content = []
      · have hzero : a.size = 0 := by rw [hsize, hempty, length_nil]
        have hsame : t.content.filter (· ∉ Sequence.valuesOf t.content collection) = t.content := by
          rw [hempty, filter_nil]
        rw [if_pos hzero, decide_eq_false (fun hboth => hboth.2 hempty), hsame]
        exact agrees_iff trivial ⟨rfl, h⟩
      · have hpos : a.size ≠ 0 := fun hzero => hempty (length_eq_zero_iff.mp (hsize.symm.trans hzero))
        rw [if_neg hpos, decide_eq_true ⟨hnone, hempty⟩]
        exact agrees_iff trivial (agrees_settle h _ (removeAll_holds ha _))
  | retainAll collection =>
    rw [operate, Snapshots.step, hvalues]
    by_cases hempty : t.content = []
    · have hzero : a.size = 0 := by rw [hsize, hempty, length_nil]
      have hsame : t.content.filter (· ∈ Sequence.valuesOf t.content collection) = t.content := by
        rw [hempty, filter_nil]
      rw [if_pos hzero, decide_eq_false (fun hne => hne hempty), hsame]
      exact agrees_iff trivial ⟨rfl, h⟩
    · have hpos : a.size ≠ 0 := fun hzero => hempty (length_eq_zero_iff.mp (hsize.symm.trans hzero))
      rw [if_neg hpos, decide_eq_true hempty]
      exact agrees_iff trivial (agrees_settle h _ (retainAll_holds ha _))
  | set index element =>
    rw [operate, Snapshots.step, ha.get?_eq]
    split_ifs with hrange
    · exact agrees_iff trivial ⟨rfl, h⟩
    · rw [ha.getElem?_eq (by omega), List.getElem?_eq_getElem (by omega)]
      exact agrees_iff trivial (agrees_settle h _ (set_holds ha (by omega) element))
  | addIfAbsent value =>
    rw [operate, Snapshots.step, Array.indexOf, ha.toArray_eq, absentOf_singleton]
    by_cases hmem : value ∈ t.content
    · have hpos : a.size ≠ 0 := by
        rw [hsize]
        exact (length_pos_of_mem hmem).ne'
      rw [if_pos ⟨hpos, indexOrNone_ne_iff.mpr hmem⟩, if_pos hmem, decide_eq_false (not_not.mpr hmem),
        append_nil]
      exact agrees_iff trivial ⟨rfl, h⟩
    · rw [if_neg (fun hboth => hmem (indexOrNone_ne_iff.mp hboth.2)), if_neg hmem, decide_eq_true hmem]
      exact agrees_iff trivial (agrees_settle h _ (append_holds ha [value]))
  | addAllAbsent collection =>
    obtain ⟨b, hadd, hb⟩ := addAllAbsent_holds ha (Sequence.valuesOf t.content collection)
    have horderly : Orderly l (.addAllAbsent collection) ↔
        ((Sequence.valuesOf t.content collection).filter (· ∉ t.content)).Nodup := by
      simp [Orderly, hget, hvalues, ha.toArray_eq]
    have hcount := Snapshots.length_absentOf_eq_iff t.content (Sequence.valuesOf t.content collection)
    rw [operate, Snapshots.step, hvalues, horderly, ← hcount]
    by_cases hnone : (Sequence.valuesOf t.content collection).length = 0
    · rw [if_pos hnone, length_eq_zero_iff.mp hnone]
      refine agrees_iff rfl ⟨rfl, ?_⟩
      show Shows l { t with content := t.content ++ [] }
      rwa [append_nil]
    · rw [if_neg hnone, hadd]
      refine ⟨?_, fun hall => ?_⟩
      · show ListAnswer.index _ = ListAnswer.index _ ↔ _
        rw [ListAnswer.index.injEq, Int.ofNat_inj, eq_comm]
      · show Shows (l.swap b) { t with content := t.content ++ _ }
        rw [Snapshots.absentOf_eq_filter (hcount.mp hall)]
        exact h.swap hb
  | get index =>
    rw [operate, Snapshots.step, ha.get?_eq]
    split_ifs with hrange
    · exact agrees_iff trivial ⟨rfl, h⟩
    · rw [ha.getElem?_eq (by omega), List.getElem?_eq_getElem (by omega)]
      exact agrees_iff trivial ⟨rfl, h⟩
  | size =>
    rw [operate, Snapshots.step, hsize]
    exact agrees_iff trivial ⟨rfl, h⟩
  | isEmpty =>
    rw [operate, Snapshots.step, hsize]
    exact agrees_iff trivial ⟨congrArg ListAnswer.bool (decide_eq_decide.mpr length_eq_zero_iff), h⟩
  | contains value =>
    rw [operate, Snapshots.step, Array.indexOf, ha.toArray_eq]
    exact agrees_iff trivial ⟨congrArg ListAnswer.bool (decide_eq_decide.mpr indexOrNone_ne_iff), h⟩
  | indexOf value =>
    rw [operate, Snapshots.step, Array.indexOf, ha.toArray_eq]
    exact agrees_iff trivial ⟨rfl, h⟩
  | lastIndexOf value =>
    rw [operate, Snapshots.step, Array.lastIndexOf, ha.toArray_eq, hsize]
    exact agrees_iff trivial ⟨rfl, h⟩
  | toArray =>
    rw [operate, Snapshots.step, ha.toArray_eq]
    exact agrees_iff trivial ⟨rfl, h⟩
  | iterator => exact agrees_iff trivial (agrees_newIterator h hget ha 0)
  | listIterator index => exact agrees_iff trivial (agrees_newIterator h hget ha index)
  | iterate i move => exact iterate_agrees h i move

omit [DecidableEq ε] in
theorem construct_shows (c : Constructor ε) : Shows (construct c) { content := c.values } := by
  have hstart : Shows (ε := ε) { arrays := [{}], array := 0 } { content := [] } := ⟨⟨{}, rfl, Holds.empty⟩, .nil⟩
  cases c with
  | default => exact hstart
  | collection values => exact (doCopyCollection_agrees hstart rfl Holds.empty values).2
  | array values =>
    have hroom : ([] : List ε).length + values.length ≤ (Array.ofCapacity values.length : Array ε).elements.length := by
      rw [length_ofCapacity]
      exact (Nat.zero_add _).le
    obtain ⟨b, hstore, hb, -⟩ := store_holds (ofCapacity_holds values.length) hroom
    exact (agrees_settle hstart .done ⟨b, hstore, hb⟩).2

/-- The answers of a list are those of the snapshots exactly when its operations are orderly. Of the snapshots: a
cursor stays where it is and goes through what it went through whatever else is done; a move forth and one back give
the same element and change nothing; and only values that were absent so far are added where that is asked for. -/
theorem copyOnWriteArrayList_snapshots (c : Constructor ε) (ops : List (CopyOnWriteOp ε)) :
    (answers step (construct c) ops = answers Snapshots.step { content := c.values } ops ↔
        Always (moves step) Orderly (construct c) ops) ∧
      (∀ (t : Snapshots ε) (op : CopyOnWriteOp ε) (i : Nat), i < t.cursors.length → (∀ move, op ≠ .iterate i move) →
        (t.step op).2.cursors[i]? = t.cursors[i]?) ∧
      (∀ (t : Snapshots ε) (i : Nat) (v : ε),
        ((t.step (.iterate i .next)).1 = .value v →
          (t.step (.iterate i .next)).2.step (.iterate i .previous) = (.value v, t)) ∧
        ((t.step (.iterate i .previous)).1 = .value v →
          (t.step (.iterate i .previous)).2.step (.iterate i .next) = (.value v, t))) ∧
      ∀ (t : Snapshots ε) (op : CopyOnWriteOp ε), (∃ value, op = .addIfAbsent value) ∨ (∃ values, op = .addAllAbsent values) →
        ∃ new, (t.step op).2.content = t.content ++ new ∧ new.Nodup ∧ ∀ v ∈ new, v ∉ t.content := by
  refine ⟨answers_eq_iff (fun l t op h => step_agrees h op) (construct_shows c) ops, ?_, ?_, ?_⟩
  · intro t op i hi hop
    exact Snapshots.cursors_step hi hop
  · intro t i v
    exact ⟨Snapshots.previous_next, Snapshots.next_previous⟩
  · intro t op hop
    rcases hop with ⟨value, hvalue⟩ | ⟨values, hvalues⟩
    · rw [hvalue]
      exact ⟨_, rfl, Snapshots.nodup_absentOf, fun v => Snapshots.not_mem_of_mem_absentOf⟩
    · rw [hvalues]
      exact ⟨_, rfl, Snapshots.nodup_absentOf, fun v => Snapshots.not_mem_of_mem_absentOf⟩

/-- `previous` after `next` reads the element behind the one it goes back over, or behind the array; a value that is
twice in an argument is added twice. -/
theorem copyOnWriteArrayList_not_snapshots :
    answers step (construct (.array [true, false])) [.iterator, .iterate 0 .next, .iterate 0 .previous] =
        [.done, .value true, .value false] ∧
      answers Snapshots.step { content := [true, false] } [.iterator, .iterate 0 .next, .iterate 0 .previous] =
        [.done, .value true, .value true] ∧
      answers step (construct (.array [true])) [.iterator, .iterate 0 .next, .iterate 0 .previous] =
        [.done, .value true, .undefined] ∧
      answers step (construct (.default : Constructor Bool)) [.addAllAbsent (.other [true, true]), .toArray] =
        [.index 2, .array [true, true]] ∧
      answers Snapshots.step { content := [] } [.addAllAbsent (.other [true, true]), .toArray] =
        [.index 1, .array [true]] := by
  decide

end Step

end CopyOnWriteArrayList

end ActiveMQCpp.Decaf
