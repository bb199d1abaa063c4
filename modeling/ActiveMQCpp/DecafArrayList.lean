import ActiveMQCpp.DecafList
import ActiveMQCpp.LibBuffer
import ActiveMQCpp.LibRefinement

/-! `decaf::util::ArrayList`: a list in an array that is replaced by a larger one when there is no room left, against
the same operations on a sequence. -/

namespace ActiveMQCpp.Decaf

open Runs Refinement Buffer List Option Sequence

/-- The overload of `System::arraycopy` that the type of the elements selects: the template, or one of those for the
characters and numbers. -/
inductive Overload where
  | template
  | primitive
  deriving DecidableEq

namespace System

variable {ε : Type}

/-- `arraycopy` between two arrays. There is no result where it leaves one of them. -/
def arraycopy (src : List ε) (srcPos : Nat) (dest : List ε) (destPos length : Nat) : Option (List ε) :=
  if srcPos + length ≤ src.length ∧ destPos + length ≤ dest.length then
    some (copyAcross src srcPos dest destPos length)
  else none

/-- `arraycopy` inside one array: `memmove`, or the loop of the template. -/
def arraycopyWithin (overload : Overload) (array : List ε) (srcPos destPos length : Nat) : Option (List ε) :=
  if srcPos + length ≤ array.length ∧ destPos + length ≤ array.length then
    match overload with
    | .template => some (copyWithin array srcPos destPos length)
    | .primitive => some (overwrite array destPos ((array.drop srcPos).take length))
  else none

end System

/-- The length of the array is the capacity. -/
structure ArrayList (ε : Type) where
  elements : List ε
  head : Nat := 0
  curSize : Nat := 0
  deriving DecidableEq

inductive ArrayListOp (ε : Type) where
  | add (value : ε)
  | addAt (index : Int) (element : ε)
  | addAll (collection : Argument ε)
  | addAllAt (index : Int) (collection : Argument ε)
  | set (index : Int) (element : ε)
  | remove (value : ε)
  | removeAt (index : Int)
  | clear
  | ensureCapacity (minimumCapacity : Int)
  | trimToSize
  | assign (list : Argument ε)
  | assignCollection (collection : Argument ε)
  | get (index : Int)
  | size
  | isEmpty
  | contains (value : ε)
  | indexOf (value : ε)
  | lastIndexOf (value : ε)
  | toArray

namespace ArrayList

variable {ε : Type} [Inhabited ε]

inductive Constructor (ε : Type) where
  | default
  | capacity (initialCapacity : Int)
  | collection (values : List ε)
  | copy (values : List ε)

def capacity (l : ArrayList ε) : Nat := l.elements.length

def newArray (capacity : Nat) : List ε := List.replicate capacity default

def withElements (l : ArrayList ε) (elements : List ε) : ArrayList ε := { l with elements := elements }

/-- The elements from a place on move to a new array. -/
def reallocate (srcPos newCapacity : Nat) (l : ArrayList ε) : Option (ArrayList ε) :=
  if l.curSize > 0 then
    (System.arraycopy l.elements srcPos (newArray newCapacity) 0 l.curSize).map l.withElements
  else some (l.withElements (newArray newCapacity))

def ensureCapacity (minimumCapacity : Int) (l : ArrayList ε) : Option (ArrayList ε) :=
  if minimumCapacity < 0 ∨ l.capacity ≥ minimumCapacity then some l
  else l.reallocate l.head (if minimumCapacity = 0 then 10 else minimumCapacity.toNat)

def trimToSize (l : ArrayList ε) : Option (ArrayList ε) :=
  if l.curSize < l.capacity then l.reallocate 0 (if l.curSize = 0 then 10 else l.curSize) else some l

def clear (l : ArrayList ε) : Option (ArrayList ε) :=
  if l.curSize > 0 then some { l with curSize := 0, elements := newArray 10 } else l.ensureCapacity 10

/-- The array of the capacity that the expansions choose; an `int` may not be large enough for it. -/
def larger (amount : Nat) (l : ArrayList ε) : Option (List ε) :=
  if l.capacity + amount + 11 < 2 ^ 31 then some (newArray (l.capacity + amount + 11)) else none

def expandFront (overload : Overload) (amount : Nat) (l : ArrayList ε) : Option (ArrayList ε) :=
  if amount = 0 then some l
  else if amount > l.capacity - l.curSize then do
    let elements ← l.larger amount
    if l.curSize > 0 then (System.arraycopy l.elements 0 elements amount l.curSize).map l.withElements
    else some (l.withElements elements)
  else if l.curSize > 0 then (System.arraycopyWithin overload l.elements 0 amount l.curSize).map l.withElements
  else some l

def expandEnd (amount : Nat) (l : ArrayList ε) : Option (ArrayList ε) :=
  if amount = 0 then some l
  else if amount > l.capacity - l.curSize then do
    let elements ← l.larger amount
    (System.arraycopy l.elements 0 elements 0 l.curSize).map l.withElements
  else some l

def expandMiddle (overload : Overload) (index amount : Nat) (l : ArrayList ε) : Option (ArrayList ε) :=
  if amount = 0 then some l
  else if amount > l.capacity - l.curSize then
    (l.larger amount).bind fun elements =>
      (if l.curSize > 0 then System.arraycopy l.elements 0 elements 0 index else some elements).bind fun elements =>
        (if l.curSize > index then
          System.arraycopy l.elements index elements (index + amount) (l.curSize - index)
        else some elements).map l.withElements
  else
    (if l.curSize > 0 then System.arraycopyWithin overload l.elements 0 0 index else some l.elements).bind
      fun elements =>
        (if l.curSize > index then
          System.arraycopyWithin overload elements index (index + amount) (l.curSize - index)
        else some elements).map l.withElements

/-- The room for `add` and `addAll` at an index. -/
def expandAt (overload : Overload) (index amount : Nat) (l : ArrayList ε) : Option (ArrayList ε) :=
  if index = 0 then l.expandFront overload amount
  else if index = l.curSize then l.expandEnd amount
  else l.expandMiddle overload index amount

omit [Inhabited ε] in
def toArray (l : ArrayList ε) : List ε := l.elements.take l.curSize

omit [Inhabited ε] in
def store (index : Nat) (array : List ε) (l : ArrayList ε) : Option (ArrayList ε) :=
  (System.arraycopy array 0 l.elements index array.length).map fun elements =>
    { l with elements := elements, curSize := l.curSize + array.length }

def add (value : ε) (l : ArrayList ε) : Option (ArrayList ε) := do
  let l ← l.expandEnd 1
  l.store l.curSize [value]

def addAt (overload : Overload) (index : Nat) (element : ε) (l : ArrayList ε) : Option (ArrayList ε) := do
  let l ← l.expandAt overload index 1
  l.store index [element]

def addAll (array : List ε) (l : ArrayList ε) : Option (ArrayList ε) := do
  let l ← l.expandEnd array.length
  l.store l.curSize array

def addAllAt (overload : Overload) (index : Nat) (array : List ε) (l : ArrayList ε) : Option (ArrayList ε) := do
  let l ← l.expandAt overload index array.length
  l.store index array

def removeAt (overload : Overload) (index : Nat) (l : ArrayList ε) : Option (ArrayList ε) :=
  (System.arraycopyWithin overload l.elements 0 0 index).bind fun elements =>
    (if l.curSize > index then
      System.arraycopyWithin overload elements (index + 1) index (l.curSize - index - 1)
    else some elements).map fun elements =>
      { l with elements := elements.set (l.curSize - 1) default, curSize := l.curSize - 1 }

omit [Inhabited ε] in
def valuesOf (l : ArrayList ε) : Argument ε → List ε
  | .other values => values
  | .self => l.toArray

/-- The constructors that take another list leave the head index behind the last element. -/
def construct : Constructor ε → Option (ArrayList ε)
  | .default => ArrayList.ensureCapacity 10 { elements := [] }
  | .capacity initialCapacity =>
    if initialCapacity < 0 then none else some { elements := newArray initialCapacity.toNat }
  | .collection values | .copy values =>
    if values.length + values.length / 10 < 2 ^ 31 then
      (System.arraycopy values 0 (newArray (values.length + values.length / 10)) 0 values.length).map fun elements =>
        { elements := elements, head := values.length, curSize := values.length }
    else none

section Step

variable [DecidableEq ε]

omit [Inhabited ε] in
def indexOf (value : ε) (l : ArrayList ε) : Option Nat := l.toArray.findIdx? (· = value)

omit [Inhabited ε] in
def lastIndexOf (value : ε) (l : ArrayList ε) : Option Nat :=
  (l.toArray.reverse.findIdx? (· = value)).map fun i => l.curSize - 1 - i

def settle (l : ArrayList ε) (answer : ListAnswer ε) : Option (ArrayList ε) → ListAnswer ε × ArrayList ε
  | some l' => (answer, l')
  | none => (.undefined, l)

def step (overload : Overload) (l : ArrayList ε) : ArrayListOp ε → ListAnswer ε × ArrayList ε
  | .add value => l.settle (.bool true) (l.add value)
  | .addAt index element =>
    if index < 0 ∨ index > l.curSize then (.indexOutOfBoundsException, l)
    else l.settle .done (l.addAt overload index.toNat element)
  | .addAll collection =>
    if (l.valuesOf collection).length = 0 then (.bool false, l)
    else l.settle (.bool true) (l.addAll (l.valuesOf collection))
  | .addAllAt index collection =>
    if index < 0 ∨ index > l.curSize then (.indexOutOfBoundsException, l)
    else if (l.valuesOf collection).length = 0 then (.bool false, l)
    else l.settle (.bool true) (l.addAllAt overload index.toNat (l.valuesOf collection))
  | .set index element =>
    if index < 0 ∨ index ≥ l.curSize then (.indexOutOfBoundsException, l)
    else
      match l.elements[index.toNat]? with
      | some oldValue => (.value oldValue, { l with elements := l.elements.set index.toNat element })
      | none => (.undefined, l)
  | .remove value =>
    match l.indexOf value with
    | some i => l.settle (.bool true) (l.removeAt overload i)
    | none => (.bool false, l)
  | .removeAt index =>
    if index < 0 ∨ index ≥ l.curSize then (.indexOutOfBoundsException, l)
    else
      match l.elements[index.toNat]? with
      | some old => l.settle (.value old) (l.removeAt overload index.toNat)
      | none => (.undefined, l)
  | .clear => l.settle .done l.clear
  | .ensureCapacity minimumCapacity => l.settle .done (l.ensureCapacity minimumCapacity)
  | .trimToSize => l.settle .done l.trimToSize
  -- the list has been cleared by the time its own elements are added
  | .assign list =>
    l.settle .done do
      let l ← l.clear
      if (l.valuesOf list).length = 0 then some l else l.addAll (l.valuesOf list)
  | .assignCollection collection =>
    l.settle .done do
      let l ← l.clear
      if (l.valuesOf collection).length = 0 then some l else l.addAllAt overload 0 (l.valuesOf collection)
  | .get index =>
    if index < 0 ∨ index ≥ l.curSize then (.indexOutOfBoundsException, l)
    else
      match l.elements[index.toNat]? with
      | some value => (.value value, l)
      | none => (.undefined, l)
  | .size => (.index l.curSize, l)
  | .isEmpty => (.bool (l.curSize = 0), l)
  | .contains value => (.bool (indexOrNone (l.indexOf value) ≠ -1), l)
  | .indexOf value => (.index (indexOrNone (l.indexOf value)), l)
  | .lastIndexOf value => (.index (indexOrNone (l.lastIndexOf value)), l)
  | .toArray => (.array l.toArray, l)

end Step

end ArrayList

/-! ### The sequence -/

namespace Sequence

variable {ε : Type} [DecidableEq ε]

def step (xs : List ε) : ArrayListOp ε → ListAnswer ε × List ε
  | .add value => (.bool true, xs ++ [value])
  | .addAt index element =>
    if 0 ≤ index ∧ index ≤ xs.length then (.done, xs.take index.toNat ++ (element :: xs.drop index.toNat))
    else (.indexOutOfBoundsException, xs)
  | .addAll collection => (.bool (valuesOf xs collection ≠ []), xs ++ valuesOf xs collection)
  | .addAllAt index collection =>
    if 0 ≤ index ∧ index ≤ xs.length then
      (.bool (valuesOf xs collection ≠ []),
        xs.take index.toNat ++ (valuesOf xs collection ++ xs.drop index.toNat))
    else (.indexOutOfBoundsException, xs)
  | .set index element =>
    match get? index xs with
    | some oldValue => (.value oldValue, xs.set index.toNat element)
    | none => (.indexOutOfBoundsException, xs)
  | .remove value => (.bool (value ∈ xs), xs.erase value)
  | .removeAt index =>
    match get? index xs with
    | some old => (.value old, xs.eraseIdx index.toNat)
    | none => (.indexOutOfBoundsException, xs)
  | .clear => (.done, [])
  | .ensureCapacity _ => (.done, xs)
  | .trimToSize => (.done, xs)
  | .assign list => (.done, valuesOf xs list)
  | .assignCollection collection => (.done, valuesOf xs collection)
  | .get index =>
    match get? index xs with
    | some value => (.value value, xs)
    | none => (.indexOutOfBoundsException, xs)
  | .size => (.index xs.length, xs)
  | .isEmpty => (.bool (xs = []), xs)
  | .contains value => (.bool (value ∈ xs), xs)
  | .indexOf value => (.index (indexOrNone (xs.findIdx? (· = value))), xs)
  | .lastIndexOf value =>
    (.index (indexOrNone ((xs.reverse.findIdx? (· = value)).map fun i => xs.length - 1 - i)), xs)
  | .toArray => (.array xs, xs)

end Sequence

namespace ArrayList

variable {ε : Type} {l l' : ArrayList ε} {overload : Overload} {xs ys : List ε} {index amount : Nat}
variable {srcPos destPos n : Nat} {a : List ε}

/-- The elements stand at the front of the array. -/
structure Represents (l : ArrayList ε) (xs : List ε) : Prop where
  elements : ∃ spare, l.elements = xs ++ spare
  size : l.curSize = xs.length

def Opened (elements xs : List ε) (index amount : Nat) : Prop :=
  ∃ gap spare, gap.length = amount ∧ elements = xs.take index ++ (gap ++ (xs.drop index ++ spare))

theorem Represents.toArray_eq (h : Represents l xs) : l.toArray = xs := by
  obtain ⟨spare, helements⟩ := h.elements
  rw [toArray, helements, h.size, take_left]

theorem Represents.size_le (h : Represents l xs) : xs.length ≤ l.elements.length := by
  obtain ⟨spare, helements⟩ := h.elements
  rw [helements, length_append]
  exact Nat.le_add_right _ _

theorem Represents.take_eq (h : Represents l xs) (hindex : index ≤ xs.length) :
    l.elements.take index = xs.take index := by
  obtain ⟨spare, helements⟩ := h.elements
  rw [helements, take_append_of_le_length hindex]

theorem Represents.drop_eq (h : Represents l xs) (hindex : index ≤ xs.length) :
    (l.elements.drop index).take (xs.length - index) = xs.drop index := by
  obtain ⟨spare, helements⟩ := h.elements
  rw [helements, drop_append_of_le_length hindex, take_left' length_drop]

theorem Represents.getElem?_eq (h : Represents l xs) {i : Nat} (hi : i < xs.length) : l.elements[i]? = xs[i]? := by
  obtain ⟨spare, helements⟩ := h.elements
  rw [helements, List.getElem?_append_left hi]

/-! ### Room for new elements -/

theorem arraycopy_eq {src dest : List ε} (hsrc : srcPos + n ≤ src.length) (hdest : destPos + n ≤ dest.length) :
    System.arraycopy src srcPos dest destPos n = some (overwrite dest destPos ((src.drop srcPos).take n)) := by
  rw [System.arraycopy, if_pos ⟨hsrc, hdest⟩, copyAcross_eq hsrc hdest]

theorem arraycopyWithin_eq
    (hapart : overload = .primitive ∨ destPos ≤ srcPos ∨ srcPos + n ≤ destPos) (hsrc : srcPos + n ≤ a.length)
    (hdest : destPos + n ≤ a.length) :
    System.arraycopyWithin overload a srcPos destPos n = some (overwrite a destPos ((a.drop srcPos).take n)) := by
  cases overload with
  | primitive => rw [System.arraycopyWithin, if_pos ⟨hsrc, hdest⟩]
  | template =>
    have hcopy := hapart.resolve_left (by decide)
    rw [System.arraycopyWithin, if_pos ⟨hsrc, hdest⟩, copyWithin_eq hcopy hsrc hdest]

theorem opened_overwrite (hfront : a.take index = xs.take index) (hindex : index ≤ xs.length)
    (hroom : xs.length + amount ≤ a.length) : Opened (overwrite a (index + amount) (xs.drop index)) xs index amount := by
  refine ⟨(a.drop index).take amount, a.drop (index + amount + (xs.drop index).length), ?_, ?_⟩
  · rw [length_take, length_drop]
    omega
  · rw [overwrite, take_add, hfront, append_assoc]

theorem Represents.opened_self (h : Represents l xs) (hroom : xs.length + amount ≤ l.elements.length) :
    Opened l.elements xs xs.length amount := by
  have hopened := opened_overwrite (h.take_eq le_rfl) le_rfl hroom
  rwa [drop_length, overwrite_nil] at hopened

def Fits (amount : Nat) (l : ArrayList ε) : Prop :=
  amount > l.capacity - l.curSize → l.capacity + amount + 11 < 2 ^ 31

/-- The elements behind an index are not copied over themselves. -/
def Apart (overload : Overload) (index amount : Nat) (l : ArrayList ε) : Prop :=
  overload = .primitive ∨ amount > l.capacity - l.curSize ∨ l.curSize - index ≤ amount

section Expand

variable [Inhabited ε]

theorem length_newArray (n : Nat) : (newArray n : List ε).length = n := length_replicate

theorem larger_eq (hgrow : amount > l.capacity - l.curSize) (hfits : Fits amount l) :
    l.larger amount = some (newArray (l.capacity + amount + 11)) := if_pos (hfits hgrow)

theorem expandEnd_opened (h : Represents l xs) (hpos : amount ≠ 0) (hfits : Fits amount l) :
    ∃ elements, l.expandEnd amount = some (l.withElements elements) ∧ Opened elements xs xs.length amount := by
  have hsize := h.size_le
  have hcap : l.capacity = l.elements.length := rfl
  rw [expandEnd, if_neg hpos]
  split_ifs with hgrow
  · have hlength := length_newArray (ε := ε) (l.capacity + amount + 11)
    rw [larger_eq hgrow hfits, bind_eq_bind, bind_some, h.size,
      arraycopy_eq (by omega) (by omega), drop_zero, h.take_eq le_rfl, take_length]
    refine ⟨_, rfl, ?_⟩
    have hfront : (overwrite (newArray (l.capacity + amount + 11)) 0 xs).take xs.length = xs.take xs.length := by
      rw [overwrite, take_zero, nil_append, take_left, take_length]
    have hroom : xs.length + amount ≤ (overwrite (newArray (l.capacity + amount + 11)) 0 xs).length := by
      rw [length_overwrite (by omega)]
      omega
    have hopened := opened_overwrite hfront le_rfl hroom
    rwa [drop_length, overwrite_nil] at hopened
  · refine ⟨l.elements, rfl, h.opened_self ?_⟩
    rw [h.size] at hgrow
    omega

theorem expandFront_opened (h : Represents l xs) (hpos : amount ≠ 0) (hfits : Fits amount l)
    (hapart : Apart overload 0 amount l) :
    ∃ elements, l.expandFront overload amount = some (l.withElements elements) ∧ Opened elements xs 0 amount := by
  have hsize := h.size_le
  have hcur := h.size
  have hcap : l.capacity = l.elements.length := rfl
  have hlength := length_newArray (ε := ε) (l.capacity + amount + 11)
  have hxs : (l.elements.drop 0).take l.curSize = xs := by
    rw [drop_zero, h.size, h.take_eq le_rfl, take_length]
  have hopened : ∀ a : List ε, xs.length + amount ≤ a.length → Opened (overwrite a amount xs) xs 0 amount := by
    intro a ha
    have hfront : a.take 0 = xs.take 0 := rfl
    have hroom := opened_overwrite hfront (Nat.zero_le _) ha
    rwa [Nat.zero_add, drop_zero] at hroom
  have hnone : ∀ a : List ε, ¬l.curSize > 0 → overwrite a amount xs = a := by
    intro a hzero
    rw [length_eq_zero_iff.mp (by omega : xs.length = 0), overwrite_nil]
  rw [expandFront, if_neg hpos]
  by_cases hgrow : amount > l.capacity - l.curSize
  · rw [if_pos hgrow, larger_eq hgrow hfits, bind_eq_bind, bind_some]
    have hnew := hopened (newArray (l.capacity + amount + 11)) (by omega)
    split_ifs with hzero
    · rw [arraycopy_eq (by omega) (by omega), hxs]
      exact ⟨_, rfl, hnew⟩
    · rw [hnone _ hzero] at hnew
      exact ⟨_, rfl, hnew⟩
  · rw [if_neg hgrow]
    have hsame := hopened l.elements (by omega)
    split_ifs with hzero
    · rw [arraycopyWithin_eq ?_ (by omega) (by omega), hxs]
      · exact ⟨_, rfl, hsame⟩
      · rcases hapart with hprimitive | hlarge | hshort
        · exact .inl hprimitive
        · exact absurd hlarge hgrow
        · exact .inr (.inr (by omega))
    · rw [hnone _ hzero] at hsame
      exact ⟨l.elements, rfl, hsame⟩

theorem expandMiddle_opened (h : Represents l xs) (hindex : index < xs.length) (hpos : amount ≠ 0)
    (hfits : Fits amount l) (hapart : Apart overload index amount l) :
    ∃ elements, l.expandMiddle overload index amount = some (l.withElements elements) ∧
      Opened elements xs index amount := by
  have hsize := h.size_le
  have hcur := h.size
  have hcap : l.capacity = l.elements.length := rfl
  have hlength := length_newArray (ε := ε) (l.capacity + amount + 11)
  have hback : (l.elements.drop index).take (l.curSize - index) = xs.drop index := by
    rw [h.size, h.drop_eq hindex.le]
  have hfront : (l.elements.drop 0).take index = xs.take index := by
    rw [drop_zero, h.take_eq hindex.le]
  have hshort : (xs.take index).length = index := length_take_of_le hindex.le
  rw [expandMiddle, if_neg hpos]
  by_cases hgrow : amount > l.capacity - l.curSize
  · have hcopied : (overwrite (newArray (l.capacity + amount + 11)) 0 (xs.take index)).take index = xs.take index := by
      rw [overwrite, take_zero, nil_append, take_left' hshort]
    have hroom : (overwrite (newArray (l.capacity + amount + 11)) 0 (xs.take index)).length =
        l.capacity + amount + 11 := by
      rw [length_overwrite (by omega), hlength]
    rw [if_pos hgrow, larger_eq hgrow hfits, bind_some, if_pos (by omega),
      arraycopy_eq (by omega) (by omega), hfront, bind_some, if_pos (by omega),
      arraycopy_eq (by omega) (by omega), hback]
    exact ⟨_, rfl, opened_overwrite hcopied hindex.le (by omega)⟩
  · have hcopied : overwrite l.elements 0 (xs.take index) = l.elements := by
      rw [overwrite, hshort, take_zero, nil_append, ← h.take_eq hindex.le, Nat.zero_add,
        take_append_drop]
    rw [if_neg hgrow, if_pos (by omega), arraycopyWithin_eq (.inr (.inl le_rfl)) (by omega) (by omega), hfront,
      hcopied, bind_some, if_pos (by omega), arraycopyWithin_eq ?_ (by omega) (by omega), hback]
    · exact ⟨_, rfl, opened_overwrite (h.take_eq hindex.le) hindex.le (by omega)⟩
    · rcases hapart with hprimitive | hlarge | hfew
      · exact .inl hprimitive
      · exact absurd hlarge hgrow
      · exact .inr (.inr (by omega))

theorem expandAt_opened (h : Represents l xs) (hindex : index ≤ xs.length) (hpos : amount ≠ 0)
    (hfits : Fits amount l) (hapart : Apart overload index amount l) :
    ∃ elements, l.expandAt overload index amount = some (l.withElements elements) ∧ Opened elements xs index amount := by
  rw [expandAt]
  split_ifs with hfront hend
  · subst hfront
    exact expandFront_opened h hpos hfits hapart
  · rw [hend, h.size]
    exact expandEnd_opened h hpos hfits
  · rw [h.size] at hend
    exact expandMiddle_opened h (Nat.lt_of_le_of_ne hindex hend) hpos hfits hapart

omit [Inhabited ε] in
theorem store_opened {elements : List ε} (h : Represents l xs) (hopened : Opened elements xs index ys.length)
    (hindex : index ≤ xs.length) :
    ∃ l', (l.withElements elements).store index ys = some l' ∧
      Represents l' (xs.take index ++ (ys ++ xs.drop index)) ∧ l'.head = l.head := by
  obtain ⟨gap, spare, hgap, helements⟩ := hopened
  have hshort : (xs.take index).length = index := length_take_of_le hindex
  have hlength : elements.length = index + (ys.length + ((xs.drop index).length + spare.length)) := by
    rw [helements, length_append, length_append, length_append, hshort, hgap]
  have hwritten : overwrite elements index ys = xs.take index ++ (ys ++ (xs.drop index ++ spare)) := by
    have hfilled : overwrite (xs.take index ++ (gap ++ (xs.drop index ++ spare))) (xs.take index).length ys =
        xs.take index ++ (ys ++ (xs.drop index ++ spare)) := overwrite_gap hgap
    rwa [← helements, hshort] at hfilled
  have hcopy : System.arraycopy ys 0 (l.withElements elements).elements index ys.length =
      some (overwrite elements index ys) := by
    have hroom : index + ys.length ≤ (l.withElements elements).elements.length := by
      show _ ≤ elements.length
      omega
    rw [arraycopy_eq (by omega) hroom, drop_zero, take_length]
    rfl
  rw [store, hcopy, hwritten]
  refine ⟨_, rfl, ⟨⟨spare, by simp only [append_assoc]⟩, ?_⟩, rfl⟩
  show l.curSize + ys.length = _
  rw [h.size, length_append, length_append, hshort, length_drop]
  omega

theorem addAll_represents (h : Represents l xs) (hpos : ys.length ≠ 0) (hfits : Fits ys.length l) :
    ∃ l', (l.expandEnd ys.length).bind (fun l => l.store l.curSize ys) = some l' ∧ Represents l' (xs ++ ys) := by
  obtain ⟨elements, hexpand, hopened⟩ := expandEnd_opened h hpos hfits
  obtain ⟨l', hstore, hl', -⟩ := store_opened h hopened le_rfl
  refine ⟨l', ?_, ?_⟩
  · rw [hexpand, bind_some]
    show (l.withElements elements).store l.curSize ys = some l'
    rw [h.size, hstore]
  · rwa [take_length, drop_length, append_nil] at hl'

theorem addAllAt_represents (h : Represents l xs) (hindex : index ≤ xs.length) (hpos : ys.length ≠ 0)
    (hfits : Fits ys.length l) (hapart : Apart overload index ys.length l) :
    ∃ l', (l.expandAt overload index ys.length).bind (fun l => l.store index ys) = some l' ∧
      Represents l' (xs.take index ++ (ys ++ xs.drop index)) := by
  obtain ⟨elements, hexpand, hopened⟩ := expandAt_opened h hindex hpos hfits hapart
  obtain ⟨l', hstore, hl', -⟩ := store_opened h hopened hindex
  refine ⟨l', ?_, hl'⟩
  rw [hexpand, bind_some, hstore]

end Expand

/-! ### The other changes -/

section Changes

variable [Inhabited ε]

theorem reallocate_represents (h : Represents l xs) {srcPos newCapacity : Nat} (hroom : xs.length ≤ newCapacity)
    (hsource : srcPos = 0 ∨ l.curSize = 0) :
    ∃ l', l.reallocate srcPos newCapacity = some l' ∧ Represents l' xs ∧ l'.capacity = newCapacity := by
  have hsize := h.size_le
  have hcur := h.size
  have hlength := length_newArray (ε := ε) newCapacity
  rw [reallocate]
  split_ifs with hzero
  · rw [hsource.resolve_right (by omega), arraycopy_eq (by omega) (by omega), drop_zero, h.size, h.take_eq le_rfl,
      take_length]
    refine ⟨_, rfl, ⟨⟨(newArray newCapacity).drop xs.length, ?_⟩, h.size⟩, ?_⟩
    · show overwrite (newArray newCapacity) 0 xs = _
      rw [overwrite, take_zero, nil_append, Nat.zero_add]
    · show (overwrite (newArray newCapacity) 0 xs).length = _
      rw [length_overwrite (by omega), hlength]
  · obtain rfl : xs = [] := length_eq_zero_iff.mp (by omega)
    exact ⟨_, rfl, ⟨⟨newArray newCapacity, rfl⟩, hcur⟩, hlength⟩

theorem ensureCapacity_represents (h : Represents l xs) {minimumCapacity : Int}
    (hhead : l.capacity < minimumCapacity → l.head = 0 ∨ l.curSize = 0) :
    ∃ l', l.ensureCapacity minimumCapacity = some l' ∧ Represents l' xs := by
  have hsize := h.size_le
  have hcap : l.capacity = l.elements.length := rfl
  rw [ensureCapacity]
  by_cases hkeep : minimumCapacity < 0 ∨ l.capacity ≥ minimumCapacity
  · rw [if_pos hkeep]
    exact ⟨l, rfl, h⟩
  · have hlarger : ¬minimumCapacity = 0 := by omega
    have hroom : xs.length ≤ minimumCapacity.toNat := by omega
    obtain ⟨l', hl', hrepresents, -⟩ := reallocate_represents h hroom (hhead (by omega))
    rw [if_neg hkeep, if_neg hlarger]
    exact ⟨l', hl', hrepresents⟩

theorem trimToSize_represents (h : Represents l xs) : ∃ l', l.trimToSize = some l' ∧ Represents l' xs := by
  have hcur := h.size
  rw [trimToSize]
  by_cases hspare : l.curSize < l.capacity
  · have hroom : xs.length ≤ if l.curSize = 0 then 10 else l.curSize := by split_ifs <;> omega
    obtain ⟨l', hl', hrepresents, -⟩ := reallocate_represents h hroom (.inl rfl)
    rw [if_pos hspare]
    exact ⟨l', hl', hrepresents⟩
  · rw [if_neg hspare]
    exact ⟨l, rfl, h⟩

/-- The capacity of a list that has been cleared. -/
def clearedCapacity (l : ArrayList ε) : Nat := if l.curSize > 0 then 10 else max l.capacity 10

theorem clear_represents (l : ArrayList ε) :
    ∃ l', l.clear = some l' ∧ Represents l' ([] : List ε) ∧ l'.capacity = clearedCapacity l := by
  rw [clear, clearedCapacity]
  split_ifs with hcur
  · exact ⟨_, rfl, ⟨⟨newArray 10, rfl⟩, rfl⟩, length_newArray 10⟩
  · have hzero : l.curSize = 0 := by omega
    have hempty : Represents l ([] : List ε) := ⟨⟨l.elements, rfl⟩, hzero⟩
    rw [ensureCapacity]
    by_cases hkeep : (10 : Int) < 0 ∨ (l.capacity : Int) ≥ 10
    · rw [if_pos hkeep]
      exact ⟨l, rfl, hempty, by omega⟩
    · have hroom : ([] : List ε).length ≤ 10 := Nat.zero_le _
      have hsource : l.head = 0 ∨ l.curSize = 0 := .inr hzero
      obtain ⟨l', hl', hrepresents, hcapacity⟩ := reallocate_represents hempty hroom hsource
      rw [if_neg hkeep]
      exact ⟨l', hl', hrepresents, by omega⟩

theorem removeAt_represents (h : Represents l xs) (hindex : index < xs.length) :
    ∃ l', l.removeAt overload index = some l' ∧ Represents l' (xs.eraseIdx index) := by
  obtain ⟨spare, helements⟩ := h.elements
  have hsize := h.size_le
  have hcur := h.size
  have hshort : (l.elements.take index).length = index := length_take_of_le (by omega)
  have hsame : overwrite l.elements 0 (l.elements.take index) = l.elements := by
    rw [overwrite, hshort, take_zero, nil_append, Nat.zero_add, take_append_drop]
  have hmoved : (l.elements.drop (index + 1)).take (l.curSize - index - 1) = xs.drop (index + 1) := by
    have hcount : l.curSize - index - 1 = xs.length - (index + 1) := by omega
    rw [hcount, h.drop_eq hindex]
  have hlength : (xs.take index ++ xs.drop (index + 1)).length = l.curSize - 1 := by
    rw [length_append, length_take, length_drop]
    omega
  rw [removeAt, arraycopyWithin_eq (.inr (.inl le_rfl)) (by omega) (by omega), drop_zero, hsame,
    bind_some, if_pos (by omega), arraycopyWithin_eq (.inr (.inl (Nat.le_succ _))) (by omega) (by omega),
    hmoved]
  have hshifted : overwrite l.elements index (xs.drop (index + 1)) =
      (xs.take index ++ xs.drop (index + 1)) ++ l.elements.drop (l.curSize - 1) := by
    have hend : index + (xs.drop (index + 1)).length = l.curSize - 1 := by
      rw [length_drop]
      omega
    rw [overwrite, h.take_eq hindex.le, hend, append_assoc]
  refine ⟨_, rfl, ⟨⟨(l.elements.drop (l.curSize - 1)).set 0 default, ?_⟩, ?_⟩⟩
  · show (overwrite l.elements index (xs.drop (index + 1))).set (l.curSize - 1) default = _
    rw [hshifted, set_append_right _ _ hlength.le, hlength, Nat.sub_self, eraseIdx_eq_take_drop_succ]
  · show l.curSize - 1 = _
    rw [eraseIdx_eq_take_drop_succ, hlength]

end Changes

/-! ### Runs -/

def InRange (index : Int) (l : ArrayList ε) : Prop := 0 ≤ index ∧ index ≤ l.curSize

/-- New elements fit, and none is copied over itself: the array is replaced, or no more elements move than are
added. A capacity is not raised while the head index of a copied list is in use, and no list is assigned to itself
that has elements. -/
def Orderly [Inhabited ε] (overload : Overload) (l : ArrayList ε) : ArrayListOp ε → Prop
  | .add _ => Fits 1 l
  | .addAt index _ => InRange index l → Fits 1 l ∧ Apart overload index.toNat 1 l
  | .addAll collection => Fits (l.valuesOf collection).length l
  | .addAllAt index collection => InRange index l → (l.valuesOf collection).length ≠ 0 →
      Fits (l.valuesOf collection).length l ∧ Apart overload index.toNat (l.valuesOf collection).length l
  | .ensureCapacity minimumCapacity => l.capacity < minimumCapacity → l.head = 0 ∨ l.curSize = 0
  | .assign collection | .assignCollection collection =>
    (collection.isSelf → l.curSize = 0) ∧ ((l.valuesOf collection).length > clearedCapacity l →
      clearedCapacity l + (l.valuesOf collection).length + 11 < 2 ^ 31)
  | _ => True

section Refinement

variable [Inhabited ε] [DecidableEq ε]
variable {result : Option (ArrayList ε)} {answer : ListAnswer ε}

def Agrees (outcome : ListAnswer ε × ArrayList ε) (expected : ListAnswer ε × List ε) : Prop :=
  outcome.1 = expected.1 ∧ Represents outcome.2 expected.2

omit [DecidableEq ε] [Inhabited ε] in
theorem agrees_settle
    (h : ∃ l', result = some l' ∧ Represents l' ys) : Agrees (l.settle answer result) (answer, ys) := by
  obtain ⟨l', rfl, hl'⟩ := h
  exact ⟨rfl, hl'⟩

omit [DecidableEq ε] [Inhabited ε] in
theorem Represents.valuesOf_eq (h : Represents l xs) (collection : Argument ε) :
    l.valuesOf collection = Sequence.valuesOf xs collection := by
  cases collection with
  | other values => rfl
  | self => exact h.toArray_eq

omit [DecidableEq ε] [Inhabited ε] in
theorem Represents.get?_eq (h : Represents l xs) (i : Int) :
    get? i xs = if i < 0 ∨ i ≥ l.curSize then none else l.elements[i.toNat]? := by
  rw [get?, h.size]
  by_cases hneg : i < 0
  · rw [if_pos hneg, if_pos (.inl hneg)]
  · rw [if_neg hneg]
    by_cases hbeyond : i ≥ xs.length
    · rw [if_pos (.inr hbeyond), List.getElem?_eq_none (by omega)]
    · rw [if_neg (not_or.mpr ⟨hneg, hbeyond⟩), h.getElem?_eq (by omega)]

omit [DecidableEq ε] [Inhabited ε] in
theorem Represents.set (h : Represents l xs) {i : Nat} (hi : i < xs.length) (element : ε) :
    Represents { l with elements := l.elements.set i element } (xs.set i element) := by
  obtain ⟨spare, helements⟩ := h.elements
  refine ⟨⟨spare, ?_⟩, by rw [length_set]; exact h.size⟩
  show l.elements.set i element = _
  rw [helements, set_append_left _ _ hi]

omit [DecidableEq ε] in
theorem assign_represents {collection : Argument ε} {add : ArrayList ε → Option (ArrayList ε)}
    (hadd : ∀ l', Represents l' ([] : List ε) → (l'.valuesOf collection).length ≠ 0 →
      Fits (l'.valuesOf collection).length l' → ∃ l'', add l' = some l'' ∧ Represents l'' (l'.valuesOf collection))
    (h : Represents l xs) (hself : collection.isSelf → l.curSize = 0)
    (hfits : (l.valuesOf collection).length > clearedCapacity l →
      clearedCapacity l + (l.valuesOf collection).length + 11 < 2 ^ 31) :
    ∃ l', (l.clear.bind fun l => if (l.valuesOf collection).length = 0 then some l else add l) = some l' ∧
      Represents l' (Sequence.valuesOf xs collection) := by
  obtain ⟨l', hl', hempty, hcapacity⟩ := clear_represents l
  have hvalues : l'.valuesOf collection = Sequence.valuesOf xs collection := by
    cases hcollection : collection with
    | other values => rfl
    | self =>
      have hzero := hself (by rw [hcollection]; rfl)
      rw [h.size] at hzero
      rw [hempty.valuesOf_eq, length_eq_zero_iff.mp hzero]
  rw [hl', bind_some]
  split_ifs with hnone
  · rw [hvalues] at hnone
    rw [length_eq_zero_iff.mp hnone]
    exact ⟨l', rfl, hempty⟩
  · rw [← hvalues]
    refine hadd l' hempty hnone fun hgrow => ?_
    rw [h.valuesOf_eq, ← hvalues] at hfits
    have hcur := hempty.size
    rw [length_nil] at hcur
    rw [hcur, hcapacity] at hgrow
    rw [hcapacity]
    exact hfits hgrow

theorem step_agrees (h : Represents l xs) (op : ArrayListOp ε) (horderly : Orderly overload l op) :
    Agrees (l.step overload op) (Sequence.step xs op) := by
  have hcur := h.size
  cases op with
  | add value =>
    have hone : [value].length ≠ 0 := Nat.one_ne_zero
    exact agrees_settle (addAll_represents h hone horderly)
  | addAt index element =>
    rw [step, Sequence.step]
    by_cases hrange : InRange index l
    · obtain ⟨hlow, hhigh⟩ := hrange
      obtain ⟨hfits, hapart⟩ := horderly ⟨hlow, hhigh⟩
      rw [if_neg (by omega), if_pos (by omega)]
      have hone : [element].length ≠ 0 := Nat.one_ne_zero
      exact agrees_settle (addAllAt_represents h (by omega) hone hfits hapart)
    · rw [InRange] at hrange
      rw [if_pos (by omega), if_neg (by omega)]
      exact ⟨rfl, h⟩
  | addAll collection =>
    have hfits : Fits (Sequence.valuesOf xs collection).length l := h.valuesOf_eq collection ▸ horderly
    rw [step, Sequence.step, h.valuesOf_eq]
    by_cases hnone : (Sequence.valuesOf xs collection).length = 0
    · rw [if_pos hnone, length_eq_zero_iff.mp hnone, append_nil]
      exact ⟨rfl, h⟩
    · rw [if_neg hnone, decide_eq_true (mt length_eq_zero_iff.mpr hnone)]
      exact agrees_settle (addAll_represents h hnone hfits)
  | addAllAt index collection =>
    rw [Orderly, h.valuesOf_eq] at horderly
    rw [step, Sequence.step, h.valuesOf_eq]
    by_cases hrange : InRange index l
    · obtain ⟨hlow, hhigh⟩ := hrange
      have hcode : ¬(index < 0 ∨ index > (l.curSize : Int)) := by omega
      have hspec : 0 ≤ index ∧ index ≤ (xs.length : Int) := by omega
      rw [if_neg hcode, if_pos hspec]
      by_cases hnone : (Sequence.valuesOf xs collection).length = 0
      · rw [if_pos hnone, length_eq_zero_iff.mp hnone, nil_append, take_append_drop]
        exact ⟨rfl, h⟩
      · obtain ⟨hfits, hapart⟩ := horderly ⟨hlow, hhigh⟩ hnone
        rw [if_neg hnone, decide_eq_true (mt length_eq_zero_iff.mpr hnone)]
        exact agrees_settle (addAllAt_represents h (by omega) hnone hfits hapart)
    · rw [InRange] at hrange
      rw [if_pos (by omega), if_neg (by omega)]
      exact ⟨rfl, h⟩
  | set index element =>
    rw [step, Sequence.step, h.get?_eq]
    split_ifs with hrange
    · exact ⟨rfl, h⟩
    · rw [h.getElem?_eq (by omega), List.getElem?_eq_getElem (by omega)]
      exact ⟨rfl, h.set (by omega) element⟩
  | remove value =>
    rw [step, Sequence.step, indexOf, h.toArray_eq]
    cases hfound : xs.findIdx? (· = value) with
    | none =>
      have hnot := not_mem_of_findIdx? hfound
      rw [decide_eq_false hnot, erase_of_not_mem hnot]
      exact ⟨rfl, h⟩
    | some i =>
      obtain ⟨hmem, hi, herase⟩ := findIdx?_erase hfound
      rw [decide_eq_true hmem, ← herase]
      exact agrees_settle (removeAt_represents h hi)
  | removeAt index =>
    rw [step, Sequence.step, h.get?_eq]
    split_ifs with hrange
    · exact ⟨rfl, h⟩
    · rw [h.getElem?_eq (by omega), List.getElem?_eq_getElem (by omega)]
      exact agrees_settle (removeAt_represents h (by omega))
  | clear =>
    obtain ⟨l', hl', hempty, -⟩ := clear_represents l
    exact agrees_settle ⟨l', hl', hempty⟩
  | ensureCapacity minimumCapacity => exact agrees_settle (ensureCapacity_represents h horderly)
  | trimToSize => exact agrees_settle (trimToSize_represents h)
  | assign collection =>
    refine agrees_settle (assign_represents (fun l' hl' hnone hfits => ?_) h horderly.1 horderly.2)
    exact addAll_represents hl' hnone hfits
  | assignCollection collection =>
    refine agrees_settle (assign_represents (fun l' hl' hnone hfits => ?_) h horderly.1 horderly.2)
    have hapart : Apart overload 0 (l'.valuesOf collection).length l' := by
      refine .inr (.inr ?_)
      rw [hl'.size, length_nil]
      exact Nat.zero_le _
    obtain ⟨l'', hl'', hrepresents⟩ := addAllAt_represents hl' le_rfl hnone hfits hapart
    rw [take_nil, drop_nil, append_nil, nil_append] at hrepresents
    exact ⟨l'', hl'', hrepresents⟩
  | get index =>
    rw [step, Sequence.step, h.get?_eq]
    split_ifs with hrange
    · exact ⟨rfl, h⟩
    · rw [h.getElem?_eq (by omega), List.getElem?_eq_getElem (by omega)]
      exact ⟨rfl, h⟩
  | size =>
    refine ⟨?_, h⟩
    rw [step, Sequence.step, hcur]
  | isEmpty =>
    refine ⟨?_, h⟩
    rw [step, Sequence.step, hcur]
    exact congrArg ListAnswer.bool (decide_eq_decide.mpr length_eq_zero_iff)
  | contains value =>
    refine ⟨?_, h⟩
    rw [step, Sequence.step, indexOf, h.toArray_eq]
    exact congrArg ListAnswer.bool (decide_eq_decide.mpr indexOrNone_ne_iff)
  | indexOf value =>
    refine ⟨?_, h⟩
    rw [step, Sequence.step, indexOf, h.toArray_eq]
  | lastIndexOf value =>
    refine ⟨?_, h⟩
    rw [step, Sequence.step, lastIndexOf, h.toArray_eq, hcur]
  | toArray =>
    refine ⟨?_, h⟩
    rw [step, Sequence.step, h.toArray_eq]

def Constructor.values : Constructor ε → List ε
  | .default | .capacity _ => []
  | .collection values | .copy values => values

omit [DecidableEq ε] in
theorem construct_represents {c : Constructor ε} (hl : construct c = some l) : Represents l c.values := by
  have hcopied : ∀ values : List ε, (if values.length + values.length / 10 < 2 ^ 31 then
      (System.arraycopy values 0 (newArray (values.length + values.length / 10)) 0 values.length).map fun elements =>
        ({ elements := elements, head := values.length, curSize := values.length } : ArrayList ε)
      else none) = some l → Represents l values := by
    intro values hvalues
    have hlength := length_newArray (ε := ε) (values.length + values.length / 10)
    split_ifs at hvalues
    rw [arraycopy_eq (by omega) (by omega), drop_zero, take_length] at hvalues
    cases hvalues
    refine ⟨⟨(newArray (values.length + values.length / 10)).drop values.length, ?_⟩, rfl⟩
    show overwrite _ 0 values = _
    rw [overwrite, take_zero, nil_append, Nat.zero_add]
  cases c with
  | default =>
    cases hl
    exact ⟨⟨newArray 10, rfl⟩, rfl⟩
  | capacity initialCapacity =>
    rw [construct] at hl
    split_ifs at hl
    cases hl
    exact ⟨⟨newArray initialCapacity.toNat, rfl⟩, rfl⟩
  | collection values => exact hcopied values hl
  | copy values => exact hcopied values hl

omit [DecidableEq ε] [Inhabited ε] in
theorem settle_throws (hanswer : answer ≠ .indexOutOfBoundsException) :
    (l.settle answer result).1 ≠ .indexOutOfBoundsException := by
  cases result with
  | none => exact fun h => by cases h
  | some l' => exact hanswer

theorem step_throws (op : ArrayListOp ε) (h : (l.step overload op).1 = .indexOutOfBoundsException) :
    (l.step overload op).2 = l := by
  have hsettle : ∀ {result : Option (ArrayList ε)} {answer : ListAnswer ε},
      answer ≠ .indexOutOfBoundsException → (l.settle answer result).1 = .indexOutOfBoundsException →
        (l.settle answer result).2 = l := fun hanswer h => absurd h (settle_throws hanswer)
  cases op with
  | add value => exact hsettle (by simp) h
  | addAt index element =>
    rw [step] at h ⊢
    split_ifs at h ⊢ with hrange
    · rfl
    · exact hsettle (by simp) h
  | addAll collection =>
    rw [step] at h ⊢
    split_ifs at h ⊢ with hnone
    exact hsettle (by simp) h
  | addAllAt index collection =>
    rw [step] at h ⊢
    split_ifs at h ⊢ with hrange hnone
    · rfl
    · exact hsettle (by simp) h
  | set index element =>
    rw [step] at h ⊢
    split_ifs at h ⊢ with hrange
    · rfl
    · cases hold : l.elements[index.toNat]? with
      | none => rfl
      | some old =>
        rw [hold] at h
        cases h
  | remove value =>
    rw [step] at h ⊢
    cases hfound : l.indexOf value with
    | none => rfl
    | some i =>
      rw [hfound] at h
      exact hsettle (by simp) h
  | removeAt index =>
    rw [step] at h ⊢
    split_ifs at h ⊢ with hrange
    · rfl
    · cases hold : l.elements[index.toNat]? with
      | none => rfl
      | some old =>
        rw [hold] at h
        exact hsettle (by simp) h
  | get index =>
    rw [step]
    split_ifs with hrange
    · rfl
    · cases l.elements[index.toNat]? with
      | none => rfl
      | some value => rfl
  | clear => exact hsettle (by simp) h
  | ensureCapacity minimumCapacity => exact hsettle (by simp) h
  | trimToSize => exact hsettle (by simp) h
  | assign list => exact hsettle (by simp) h
  | assignCollection collection => exact hsettle (by simp) h
  | size | isEmpty | contains value | indexOf value | lastIndexOf value | toArray => rfl

/-- A list that a constructor makes behaves as a sequence while its operations are orderly: every answer is the one
of the sequence, and the list still holds it afterwards. One that throws leaves any list as it was. -/
theorem arrayList_refines (overload : Overload) {c : Constructor ε} (hl : construct c = some l)
    (ops : List (ArrayListOp ε)) (horderly : Always (moves (step overload)) (Orderly overload) l ops) :
    answers (step overload) l ops = answers Sequence.step c.values ops ∧
      (after (step overload) l ops).toArray = after Sequence.step c.values ops ∧
      (after (step overload) l ops).curSize = (after Sequence.step c.values ops).length ∧
      ∀ (l' : ArrayList ε) (op : ArrayListOp ε), (l'.step overload op).1 = .indexOutOfBoundsException →
        (l'.step overload op).2 = l' := by
  have hstart := construct_represents hl
  have hstep : ∀ (l : ArrayList ε) (xs : List ε) (op : ArrayListOp ε), Represents l xs → Orderly overload l op →
      (l.step overload op).1 = (Sequence.step xs op).1 ∧ Represents (l.step overload op).2 (Sequence.step xs op).2 :=
    fun l xs op h hop => step_agrees h op hop
  have hend := rel_after (fun l xs op h hop => (hstep l xs op h hop).2) hstart horderly
  exact ⟨answers_eq hstep hstart horderly, hend.toArray_eq, hend.size, fun l' op h => step_throws op h⟩

end Refinement

instance [Inhabited ε] (overload : Overload) (l : ArrayList ε) :
    (op : ArrayListOp ε) → Decidable (Orderly overload l op)
  | .add _ | .addAll _ => inferInstanceAs (Decidable (_ → _))
  | .addAt _ _ => inferInstanceAs (Decidable (_ ∧ _ → (_ → _) ∧ (_ ∨ _ ∨ _)))
  | .addAllAt _ _ => inferInstanceAs (Decidable (_ ∧ _ → _ → (_ → _) ∧ (_ ∨ _ ∨ _)))
  | .ensureCapacity _ => inferInstanceAs (Decidable (_ → _ ∨ _))
  | .assign _ | .assignCollection _ => inferInstanceAs (Decidable ((_ → _) ∧ (_ → _)))
  | .set _ _ | .remove _ | .removeAt _ | .clear | .trimToSize | .get _ | .size | .isEmpty | .contains _ | .indexOf _
  | .lastIndexOf _ | .toArray => inferInstanceAs (Decidable True)

/-- A list made by copying one of three elements, used in all the ways that are right. -/
theorem arrayList_refines_copy :
    ∃ l : ArrayList Bool, construct (.copy [true, false, false]) = some l ∧
      answers (step .template) l [.addAt 1 true, .removeAt 0, .addAllAt 0 (.other [false, true, true]), .get 7,
          .assign (.other [true]), .toArray] =
        [.done, .value true, .bool true, .indexOutOfBoundsException, .done, .array [true]] := by
  refine ⟨_, rfl, ?_⟩
  rw [(arrayList_refines .template (c := .copy [true, false, false]) rfl
    [.addAt 1 true, .removeAt 0, .addAllAt 0 (.other [false, true, true]), .get 7, .assign (.other [true]), .toArray]
    (by decide)).1]
  decide

/-- Room in front of two elements is made by copying the first over the second; the capacity of a copied list is
raised by reading behind its array; a list that is assigned to itself is empty. -/
theorem arrayList_not_sequence :
    (construct (.default : Constructor Bool)).map (answers (step .template) ·
        [.add true, .add false, .addAt 0 true, .toArray]) =
        some [.bool true, .bool true, .done, .array [true, true, true]] ∧
      answers Sequence.step (Constructor.default : Constructor Bool).values
        [.add true, .add false, .addAt 0 true, .toArray] =
        [.bool true, .bool true, .done, .array [true, true, false]] ∧
      (construct (.copy [true, false] : Constructor Bool)).map (answers (step .template) · [.ensureCapacity 20]) =
        some [.undefined] ∧
      answers Sequence.step (Constructor.copy [true, false]).values [.ensureCapacity 20] = [.done] ∧
      (construct (.collection [true] : Constructor Bool)).map (answers (step .template) · [.assign .self, .toArray]) =
        some [.done, .array []] ∧
      answers Sequence.step (Constructor.collection [true]).values [.assign .self, .toArray] =
        [.done, .array [true]] := by
  decide

end ArrayList

end ActiveMQCpp.Decaf
