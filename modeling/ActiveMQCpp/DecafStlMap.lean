import ActiveMQCpp.DecafHashMapIterator
import ActiveMQCpp.LibOrderedMap

/-! `decaf::util::StlMap` and `decaf::util::concurrent::ConcurrentStlMap`: a `std::map` with iterators that compare
modification counts, against a finite map. An iterator refers to nodes of the map by their addresses. -/

namespace ActiveMQCpp.Decaf

open Runs Refinement

inductive StlMapKind where
  | stlMap
  | concurrentStlMap
  deriving DecidableEq

/-- The overload that the static type of an argument selects. -/
inductive MapOverload where
  | stlMap
  | map
  deriving DecidableEq

inductive MapArgument (κ ν : Type) [LinearOrder κ] where
  | other (map : OrderedMap κ ν)
  | self

inductive StlMapAnswer (κ ν : Type) where
  | done
  | bool (b : Bool)
  | replaced (oldValue : Option ν)
  | value (v : ν)
  | key (k : κ)
  | entry (k : κ) (v : ν)
  | size (n : Nat)
  | noSuchElementException
  | concurrentModificationException
  | illegalStateException
  | unsupportedOperationException
  | undefined
  | noIterator
  deriving DecidableEq

/-- The operations that only `ConcurrentStlMap` has. -/
inductive ConditionalOp (κ ν : Type) where
  | putIfAbsent (key : κ) (value : ν)
  | remove (key : κ) (value : ν)
  | replace (key : κ) (value : ν)
  | replaceIf (key : κ) (oldValue newValue : ν)

inductive StlMapOp (κ ν : Type) [LinearOrder κ] where
  | put (key : κ) (value : ν)
  | putOld (key : κ) (value : ν)
  | putAll (overload : MapOverload) (other : MapArgument κ ν)
  | remove (key : κ)
  | clear
  | copy (overload : MapOverload) (source : MapArgument κ ν)
  | equals (overload : MapOverload) (source : MapArgument κ ν)
  | get (key : κ)
  | containsKey (key : κ)
  | containsValue (value : ν)
  | size
  | isEmpty
  | keySetRemove (key : κ)
  | entrySetRemove (key : κ) (value : ν)
  | conditional (op : ConditionalOp κ ν)
  | iterator (view : View) (constant : Bool)
  | hasNext (iterator : Nat)
  | next (iterator : Nat)
  | removeCurrent (iterator : Nat)

/-- Every node of `valueMap` has its address beside its value; `allocated` is the address of the next new node. -/
structure StlMap (κ ν : Type) [LinearOrder κ] where
  valueMap : OrderedMap κ (Nat × ν) := OrderedMap.empty
  modCount : Nat := 0
  allocated : Nat := 0

/-- There is no address for `end()`. -/
structure StlMapIterator where
  view : View
  constant : Bool
  expectedModCount : Nat
  futureEntry : Option Nat
  currentEntry : Option Nat := none

namespace StlMap

variable {κ ν : Type} [LinearOrder κ]

def content (m : StlMap κ ν) : OrderedMap κ ν := m.valueMap.map Prod.snd

def containsKey (key : κ) (m : StlMap κ ν) : Bool := (m.valueMap.find key).isSome

def get (key : κ) (m : StlMap κ ν) : Option ν := (m.valueMap.find key).map Prod.snd

def size (m : StlMap κ ν) : Nat := m.valueMap.entries.length

def assign (key : κ) (value : ν) (m : StlMap κ ν) : StlMap κ ν :=
  match m.valueMap.find key with
  | some node => { m with valueMap := m.valueMap.insert key (node.1, value) }
  | none => { m with valueMap := m.valueMap.insert key (m.allocated, value), allocated := m.allocated + 1 }

def put (key : κ) (value : ν) (m : StlMap κ ν) : StlMap κ ν :=
  let assigned := m.assign key value
  { assigned with modCount := assigned.modCount + 1 }

def clear (m : StlMap κ ν) : StlMap κ ν := { m with valueMap := OrderedMap.empty }

/-- `valueMap.insert` of a range leaves the nodes that are there as they are. -/
def insertRange (entries : List (κ × ν)) (m : StlMap κ ν) : StlMap κ ν :=
  entries.foldl (fun m e => if m.containsKey e.1 then m else m.assign e.1 e.2) m

def putEach (entries : List (κ × ν)) (m : StlMap κ ν) : StlMap κ ν := entries.foldl (fun m e => m.put e.1 e.2) m

def erase (key : κ) (m : StlMap κ ν) : StlMap κ ν :=
  { m with valueMap := m.valueMap.erase key, modCount := m.modCount + 1 }

/-- The count that `ConcurrentStlMap` takes at the end of `putAll(const Map&)`. -/
def finish (kind : StlMapKind) (m : StlMap κ ν) : StlMap κ ν :=
  match kind with
  | .stlMap => m
  | .concurrentStlMap => { m with modCount := m.modCount + 1 }

/-- The iterator over the keys of the argument does not outlive a `put` when the argument is the map itself. -/
def putAll (kind : StlMapKind) (m : StlMap κ ν) : MapOverload → MapArgument κ ν → StlMapAnswer κ ν × StlMap κ ν
  | .stlMap, .other map =>
    let inserted := m.insertRange map.entries
    (.done, { inserted with modCount := inserted.modCount + 1 })
  | .stlMap, .self => (.done, { m with modCount := m.modCount + 1 })
  | .map, .other map => (.done, (m.putEach map.entries).finish kind)
  | .map, .self =>
    match m.content.entries with
    | [] => (.done, m.finish kind)
    | [e] => (.done, (m.put e.1 e.2).finish kind)
    | e :: _ => (.concurrentModificationException, m.put e.1 e.2)

/-- The map is empty by the time a copy of itself is made. -/
def copy (kind : StlMapKind) (m : StlMap κ ν) : MapOverload → MapArgument κ ν → StlMapAnswer κ ν × StlMap κ ν
  | .stlMap, .other map => (.done, m.clear.insertRange map.entries)
  | .stlMap, .self => (.done, m.clear)
  | .map, source => m.clear.putAll kind .map source

/-- What `remove` does when the key is not there. -/
def absentAnswer [Inhabited ν] : StlMapKind → StlMapAnswer κ ν
  | .stlMap => .noSuchElementException
  | .concurrentStlMap => .value default

def mapOf (m : StlMap κ ν) : MapArgument κ ν → OrderedMap κ ν
  | .other map => map
  | .self => m.content

section Equality

variable [DecidableEq ν]

def equalsLoop (m : StlMap κ ν) (source : OrderedMap κ ν) : List κ → StlMapAnswer κ ν
  | [] => .bool true
  | key :: keys =>
    match m.get key with
    | none => .bool false
    | some value =>
      match source.find key with
      | none => .noSuchElementException
      | some other => if value = other then equalsLoop m source keys else .bool false

def equals (m : StlMap κ ν) : MapOverload → MapArgument κ ν → StlMapAnswer κ ν
  | .stlMap, source => .bool (m.content.entries = (m.mapOf source).entries)
  | .map, source => m.equalsLoop (m.mapOf source) (m.content.entries.map Prod.fst)

/-- `remove` of the entry set, and of a key and its value. -/
def removeMapping (key : κ) (value : ν) (m : StlMap κ ν) : StlMapAnswer κ ν × StlMap κ ν :=
  if m.get key = some value then (.bool true, m.erase key) else (.bool false, m)

def conditional (m : StlMap κ ν) : ConditionalOp κ ν → StlMapAnswer κ ν × StlMap κ ν
  | .putIfAbsent key value => if m.containsKey key then (.bool false, m) else (.bool true, m.put key value)
  | .remove key value => m.removeMapping key value
  | .replace key value =>
    match m.get key with
    | some result => (.value result, m.put key value)
    | none => (.noSuchElementException, m)
  | .replaceIf key oldValue newValue =>
    if m.get key = some oldValue then (.bool true, m.put key newValue) else (.bool false, m)

end Equality

def nodesFrom (address : Nat) (m : StlMap κ ν) : List (κ × Nat × ν) :=
  m.valueMap.entries.dropWhile fun e => e.2.1 ≠ address

def nodeAt (address : Nat) (m : StlMap κ ν) : Option (κ × Nat × ν) :=
  m.valueMap.entries.find? fun e => e.2.1 = address

def begin? (m : StlMap κ ν) : Option Nat := m.valueMap.entries.head?.map fun e => e.2.1

end StlMap

def View.stlAnswer {κ ν : Type} (view : View) (k : κ) (v : ν) : StlMapAnswer κ ν :=
  match view with
  | .entrySet => .entry k v
  | .keySet => .key k
  | .values => .value v

namespace StlMapIterator

variable {κ ν : Type} [LinearOrder κ] (m : StlMap κ ν) (it : StlMapIterator)

def checkHasNext : Bool := it.futureEntry ≠ none

def next : StlMapAnswer κ ν × StlMapIterator :=
  if it.expectedModCount ≠ m.modCount then (.concurrentModificationException, it)
  else
    match it.futureEntry with
    | none => (.noSuchElementException, it)
    | some address =>
      match m.nodesFrom address with
      | [] => (.undefined, it)
      | e :: rest =>
        (it.view.stlAnswer e.1 e.2.2,
          { it with currentEntry := some address, futureEntry := rest.head?.map fun e => e.2.1 })

def doRemove : StlMapAnswer κ ν × StlMapIterator × StlMap κ ν :=
  if it.constant then (.unsupportedOperationException, it, m)
  else if it.expectedModCount ≠ m.modCount then (.concurrentModificationException, it, m)
  else
    match it.currentEntry with
    | none => (.illegalStateException, it, m)
    | some address =>
      match m.nodeAt address with
      | none => (.undefined, it, m)
      | some e => (.done, { it with currentEntry := none, expectedModCount := it.expectedModCount + 1 }, m.erase e.1)

end StlMapIterator

/-- A map and the iterators made for it. -/
structure StlMapState (κ ν : Type) [LinearOrder κ] where
  map : StlMap κ ν := {}
  iterators : List StlMapIterator := []

namespace StlMapState

variable {κ ν : Type} [LinearOrder κ] [DecidableEq ν] [Inhabited ν]

omit [DecidableEq ν] [Inhabited ν] in
/-- An operation that leaves the iterators to themselves. -/
def change (s : StlMapState κ ν) (result : StlMapAnswer κ ν × StlMap κ ν) : StlMapAnswer κ ν × StlMapState κ ν :=
  (result.1, { s with map := result.2 })

def step (kind : StlMapKind) (s : StlMapState κ ν) : StlMapOp κ ν → StlMapAnswer κ ν × StlMapState κ ν
  | .put key value => s.change (.bool (s.map.containsKey key), s.map.put key value)
  | .putOld key value => s.change (.replaced (s.map.get key), s.map.put key value)
  | .putAll overload other => s.change (s.map.putAll kind overload other)
  | .remove key =>
    match s.map.get key with
    | some value => s.change (.value value, s.map.erase key)
    | none => (StlMap.absentAnswer kind, s)
  | .clear => s.change (.done, s.map.clear)
  | .copy overload source => s.change (s.map.copy kind overload source)
  | .equals overload source => (s.map.equals overload source, s)
  | .get key =>
    match s.map.get key with
    | some value => (.value value, s)
    | none => (.noSuchElementException, s)
  | .containsKey key => (.bool (s.map.containsKey key), s)
  | .containsValue value => (.bool (s.map.content.values.any (· = value)), s)
  | .size => (.size s.map.size, s)
  | .isEmpty => (.bool s.map.valueMap.entries.isEmpty, s)
  | .keySetRemove key =>
    if s.map.containsKey key then s.change (.bool true, s.map.erase key) else (.bool false, s)
  | .entrySetRemove key value => s.change (s.map.removeMapping key value)
  | .conditional op => s.change (s.map.conditional op)
  | .iterator view constant =>
    (.done, { s with iterators := s.iterators ++
      [{ view := view, constant := constant, expectedModCount := s.map.modCount, futureEntry := s.map.begin? }] })
  | .hasNext i =>
    match s.iterators[i]? with
    | none => (.noIterator, s)
    | some it => (.bool it.checkHasNext, s)
  | .next i =>
    match s.iterators[i]? with
    | none => (.noIterator, s)
    | some it => ((it.next s.map).1, { s with iterators := s.iterators.set i (it.next s.map).2 })
  | .removeCurrent i =>
    match s.iterators[i]? with
    | none => (.noIterator, s)
    | some it =>
      ((it.doRemove s.map).1,
        { map := (it.doRemove s.map).2.2, iterators := s.iterators.set i (it.doRemove s.map).2.1 })

end StlMapState

/-! ### The finite map -/

structure MapCursor (κ ν : Type) where
  view : View
  constant : Bool
  rest : List (κ × ν)
  last : Option κ := none
  stale : Bool := false

/-- A finite map with cursors that go through its entries; one that was not used for a change is stale after it. -/
structure FiniteMap (κ ν : Type) [LinearOrder κ] where
  map : OrderedMap κ ν := OrderedMap.empty
  cursors : List (MapCursor κ ν) := []

namespace FiniteMap

variable {κ ν : Type} [LinearOrder κ]
variable {t : FiniteMap κ ν} {i : Nat}

def invalidate (cursors : List (MapCursor κ ν)) : List (MapCursor κ ν) :=
  cursors.map fun c => { c with stale := true }

def become (t : FiniteMap κ ν) (map : OrderedMap κ ν) : FiniteMap κ ν :=
  { map := map, cursors := invalidate t.cursors }

def mapOf (t : FiniteMap κ ν) : MapArgument κ ν → OrderedMap κ ν
  | .other map => map
  | .self => t.map

/-- `next` of a cursor at a place. -/
def nextOf (t : FiniteMap κ ν) (i : Nat) (c : MapCursor κ ν) : StlMapAnswer κ ν × FiniteMap κ ν :=
  if c.stale then (.concurrentModificationException, t)
  else
    match c.rest with
    | [] => (.noSuchElementException, t)
    | e :: rest =>
      (c.view.stlAnswer e.1 e.2, { t with cursors := t.cursors.set i { c with rest := rest, last := some e.1 } })

/-- Only the cursor that removes its last entry stays up to date. -/
def removeOf (t : FiniteMap κ ν) (i : Nat) (c : MapCursor κ ν) : StlMapAnswer κ ν × FiniteMap κ ν :=
  if c.constant then (.unsupportedOperationException, t)
  else if c.stale then (.concurrentModificationException, t)
  else
    match c.last with
    | none => (.illegalStateException, t)
    | some key => (.done, { map := t.map.erase key, cursors := (invalidate t.cursors).set i { c with last := none } })

/-- An operation of the cursor at a place. -/
def withCursor (t : FiniteMap κ ν) (i : Nat)
    (act : FiniteMap κ ν → Nat → MapCursor κ ν → StlMapAnswer κ ν × FiniteMap κ ν) :
    StlMapAnswer κ ν × FiniteMap κ ν :=
  match t.cursors[i]? with
  | none => (.noIterator, t)
  | some c => act t i c

theorem withCursor_none (h : t.cursors[i]? = none)
    (act : FiniteMap κ ν → Nat → MapCursor κ ν → StlMapAnswer κ ν × FiniteMap κ ν) :
    t.withCursor i act = (.noIterator, t) := by
  rw [withCursor, h]

theorem withCursor_some {c : MapCursor κ ν} (h : t.cursors[i]? = some c)
    (act : FiniteMap κ ν → Nat → MapCursor κ ν → StlMapAnswer κ ν × FiniteMap κ ν) :
    t.withCursor i act = act t i c := by
  rw [withCursor, h]

variable [DecidableEq ν] [Inhabited ν]

/-- The conditional operations as their definitions by the others have it. -/
def conditional (t : FiniteMap κ ν) : ConditionalOp κ ν → StlMapAnswer κ ν × FiniteMap κ ν
  | .putIfAbsent key value =>
    if t.map.find key = none then (.bool true, t.become (t.map.insert key value)) else (.bool false, t)
  | .remove key value =>
    if t.map.find key = some value then (.bool true, t.become (t.map.erase key)) else (.bool false, t)
  | .replace key value =>
    match t.map.find key with
    | some result => (.value result, t.become (t.map.insert key value))
    | none => (.noSuchElementException, t)
  | .replaceIf key oldValue newValue =>
    if t.map.find key = some oldValue then (.bool true, t.become (t.map.insert key newValue)) else (.bool false, t)

/-- The answers that the map may give, and the map afterwards. What `remove` answers for a key that is not there is
left open, also what a stale iterator answers to `hasNext`, and whether the entries of an empty map are a change. -/
def Step (t : FiniteMap κ ν) : StlMapOp κ ν → StlMapAnswer κ ν → FiniteMap κ ν → Prop
  | .put key value, answer, t' =>
    answer = .bool (t.map.find key).isSome ∧ t' = t.become (t.map.insert key value)
  | .putOld key value, answer, t' =>
    answer = .replaced (t.map.find key) ∧ t' = t.become (t.map.insert key value)
  | .putAll _ other, answer, t' =>
    answer = .done ∧
      (t' = t.become (t.map.putAll (t.mapOf other)) ∨ t.mapOf other = OrderedMap.empty ∧ t' = t)
  | .remove key, answer, t' =>
    match t.map.find key with
    | some value => answer = .value value ∧ t' = t.become (t.map.erase key)
    | none => (answer = .noSuchElementException ∨ answer = .value default) ∧ t' = t
  | .clear, answer, t' => answer = .done ∧ t' = t.become OrderedMap.empty
  | .copy _ source, answer, t' => answer = .done ∧ t' = t.become (t.mapOf source)
  | .equals _ source, answer, t' => answer = .bool (t.map = t.mapOf source) ∧ t' = t
  | .get key, answer, t' =>
    t' = t ∧ match t.map.find key with
      | some value => answer = .value value
      | none => answer = .noSuchElementException
  | .containsKey key, answer, t' => answer = .bool (t.map.find key).isSome ∧ t' = t
  | .containsValue value, answer, t' =>
    t' = t ∧ ∃ b : Bool, answer = .bool b ∧ (b = true ↔ ∃ key, t.map.find key = some value)
  | .size, answer, t' => answer = .size t.map.entries.length ∧ t' = t
  | .isEmpty, answer, t' => answer = .bool (t.map = OrderedMap.empty) ∧ t' = t
  | .keySetRemove key, answer, t' =>
    answer = .bool (t.map.find key).isSome ∧
      t' = if (t.map.find key).isSome then t.become (t.map.erase key) else t
  | .entrySetRemove key value, answer, t' => (answer, t') = t.conditional (.remove key value)
  | .conditional op, answer, t' => (answer, t') = t.conditional op
  | .iterator view constant, answer, t' =>
    answer = .done ∧
      t' = { t with cursors := t.cursors ++ [{ view := view, constant := constant, rest := t.map.entries }] }
  | .hasNext i, answer, t' =>
    t' = t ∧ match t.cursors[i]? with
      | none => answer = .noIterator
      | some c => ∃ b : Bool, answer = .bool b ∧ (c.stale = false → (b = true ↔ c.rest ≠ []))
  | .next i, answer, t' => (answer, t') = t.withCursor i nextOf
  | .removeCurrent i, answer, t' => (answer, t') = t.withCursor i removeOf

end FiniteMap

namespace StlMap

variable {κ ν : Type} [LinearOrder κ] {kind : StlMapKind} {m : StlMap κ ν} {key : κ} {value : ν}
variable {front back : List (κ × Nat × ν)} {e : κ × Nat × ν}
variable {map : OrderedMap κ ν} {n : Nat}

/-! ### The nodes -/

/-- Nodes have addresses of their own, and the next one is new. -/
structure Addressed (m : StlMap κ ν) : Prop where
  below : ∀ k node, m.valueMap.find k = some node → node.1 < m.allocated
  own : ∀ k k' node node', m.valueMap.find k = some node → m.valueMap.find k' = some node' → node.1 = node'.1 → k = k'

theorem addressed_empty : Addressed ({} : StlMap κ ν) := ⟨fun _ _ h => (Option.some_ne_none _ h.symm).elim, fun _ _ _ _ h => (Option.some_ne_none _ h.symm).elim⟩

@[simp] theorem find_content (k : κ) : m.content.find k = m.get k := OrderedMap.find_map Prod.snd m.valueMap k

theorem content_assign : (m.assign key value).content = m.content.insert key value := by
  apply OrderedMap.ext_find
  intro k
  rw [OrderedMap.find_insert, find_content, find_content, get, get, assign]
  cases m.valueMap.find key with
  | none =>
    rw [OrderedMap.find_insert]
    split_ifs <;> rfl
  | some node =>
    rw [OrderedMap.find_insert]
    split_ifs <;> rfl

theorem Addressed.assign (h : Addressed m) : Addressed (m.assign key value) := by
  rw [StlMap.assign]
  cases hfind : m.valueMap.find key with
  | none =>
    constructor
    · intro k node hk
      rw [OrderedMap.find_insert] at hk
      split_ifs at hk with heq
      · cases hk
        exact Nat.lt_succ_self _
      · exact Nat.lt_succ_of_lt (h.below k node hk)
    · intro k k' node node' hk hk' hsame
      rw [OrderedMap.find_insert] at hk hk'
      split_ifs at hk hk' with heq heq' heq'
      · rw [heq, heq']
      · cases hk
        exact absurd (hsame ▸ h.below k' node' hk') (lt_irrefl _)
      · cases hk'
        exact absurd (hsame ▸ h.below k node hk) (lt_irrefl _)
      · exact h.own k k' node node' hk hk' hsame
  | some old =>
    have hold : ∀ k node, (m.valueMap.insert key (old.1, value)).find k = some node →
        ∃ v, m.valueMap.find k = some (node.1, v) := by
      intro k node hk
      rw [OrderedMap.find_insert] at hk
      split_ifs at hk with heq
      · cases hk
        exact ⟨old.2, heq ▸ hfind⟩
      · exact ⟨node.2, hk⟩
    constructor
    · intro k node hk
      obtain ⟨v, hv⟩ := hold k node hk
      exact h.below k (node.1, v) hv
    · intro k k' node node' hk hk' hsame
      obtain ⟨v, hv⟩ := hold k node hk
      obtain ⟨v', hv'⟩ := hold k' node' hk'
      exact h.own k k' _ _ hv hv' hsame

theorem Addressed.erase (h : Addressed m) : Addressed (m.erase key) := by
  have hold : ∀ k node, (m.valueMap.erase key).find k = some node → m.valueMap.find k = some node := by
    intro k node hk
    rw [OrderedMap.find_erase] at hk
    split_ifs at hk
    exact hk
  exact ⟨fun k node hk => h.below k node (hold k node hk),
    fun k k' node node' hk hk' => h.own k k' node node' (hold k node hk) (hold k' node' hk')⟩

theorem content_erase : (m.erase key).content = m.content.erase key := by
  apply OrderedMap.ext_find
  intro k
  rw [OrderedMap.find_erase, find_content, find_content, get, get, erase, OrderedMap.find_erase]
  split_ifs <;> rfl

theorem content_put : (m.put key value).content = m.content.insert key value := content_assign

theorem Addressed.put (h : Addressed m) : Addressed (m.put key value) := ⟨h.assign.below, h.assign.own⟩

theorem modCount_assign : (m.assign key value).modCount = m.modCount := by
  rw [assign]
  cases m.valueMap.find key <;> rfl

theorem modCount_put : (m.put key value).modCount = m.modCount + 1 := congrArg (· + 1) modCount_assign

/-- A change of a map: its new content, and the changes counted. -/
structure Changes (m m' : StlMap κ ν) (map : OrderedMap κ ν) (count : Nat) : Prop where
  addressed : Addressed m'
  content : m'.content = map
  modCount : m'.modCount = m.modCount + count

theorem changes_put (h : Addressed m) (key : κ) (value : ν) : Changes m (m.put key value) (m.content.insert key value) 1 :=
  ⟨h.put, content_put, modCount_put⟩

theorem changes_erase (h : Addressed m) (key : κ) : Changes m (m.erase key) (m.content.erase key) 1 :=
  ⟨h.erase, content_erase, rfl⟩

theorem changes_clear : Changes m m.clear OrderedMap.empty 0 :=
  ⟨⟨fun _ _ h => (Option.some_ne_none _ h.symm).elim, fun _ _ _ _ h => (Option.some_ne_none _ h.symm).elim⟩, rfl, rfl⟩

theorem Changes.trans {m₁ m₂ : StlMap κ ν} {map' : OrderedMap κ ν} {n' : Nat} (h : Changes m m₁ map n)
    (h' : Changes m₁ m₂ map' n') : Changes m m₂ map' (n + n') :=
  ⟨h'.addressed, h'.content, by rw [h'.modCount, h.modCount, Nat.add_assoc]⟩

theorem changes_putEach (h : Addressed m) (entries : List (κ × ν)) :
    Changes m (m.putEach entries) (entries.foldl (fun map e => map.insert e.1 e.2) m.content) entries.length := by
  induction entries generalizing m with
  | nil => exact ⟨h, rfl, rfl⟩
  | cons e entries ih =>
    obtain ⟨haddressed, hcontent, hcount⟩ := ih (m := m.put e.1 e.2) h.put
    rw [content_put] at hcontent
    rw [modCount_put] at hcount
    refine ⟨haddressed, hcontent, hcount.trans ?_⟩
    rw [List.length_cons]
    omega

theorem changes_insertRange (h : Addressed m) {entries : List (κ × ν)} (hsorted : OrderedMap.Sorted entries)
    (hagree : ∀ e ∈ entries, m.content.find e.1 = none ∨ m.content.find e.1 = some e.2) :
    Changes m (m.insertRange entries) (entries.foldl (fun map e => map.insert e.1 e.2) m.content) 0 := by
  induction entries generalizing m with
  | nil => exact ⟨h, rfl, rfl⟩
  | cons e entries ih =>
    obtain ⟨hhead, htail⟩ := List.pairwise_cons.mp hsorted
    have hfirst : Changes m (if m.containsKey e.1 then m else m.assign e.1 e.2) (m.content.insert e.1 e.2) 0 := by
      split_ifs with hthere
      · have hvalue : m.content.find e.1 = some e.2 := by
          apply (hagree e List.mem_cons_self).resolve_left
          intro hnone
          rw [find_content, get, Option.map_eq_none_iff] at hnone
          rw [containsKey, hnone] at hthere
          cases hthere
        exact ⟨h, (OrderedMap.insert_find_self hvalue).symm, rfl⟩
      · exact ⟨h.assign, content_assign, modCount_assign⟩
    have hrest : ∀ e' ∈ entries,
        (m.content.insert e.1 e.2).find e'.1 = none ∨ (m.content.insert e.1 e.2).find e'.1 = some e'.2 := by
      intro e' he'
      rw [OrderedMap.find_insert, if_neg (ne_of_gt (hhead e' he'))]
      exact hagree e' (List.mem_cons_of_mem _ he')
    rw [← hfirst.content] at hrest
    obtain ⟨haddressed, hcontent, hcount⟩ := ih hfirst.addressed htail hrest
    rw [hfirst.content] at hcontent
    exact ⟨haddressed, hcontent, hcount.trans hfirst.modCount⟩

theorem size_eq : m.size = m.content.entries.length := (List.length_map _).symm

theorem changes_finish (kind : StlMapKind) {m' : StlMap κ ν} (h : Changes m m' map n) :
    ∃ count, n ≤ count ∧ (kind = .concurrentStlMap → 0 < count) ∧ Changes m (m'.finish kind) map count := by
  cases kind with
  | stlMap => exact ⟨n, le_rfl, fun hkind => (by cases hkind), h⟩
  | concurrentStlMap =>
    exact ⟨n + 1, Nat.le_succ n, fun _ => Nat.succ_pos n, ⟨h.addressed.below, h.addressed.own⟩, h.content,
      congrArg (· + 1) h.modCount⟩

theorem Addressed.ne_of_before (h : Addressed m)
    (hentries : m.valueMap.entries = front ++ e :: back) : ∀ f ∈ front, f.2.1 ≠ e.2.1 := by
  intro f hf hsame
  have hsorted := m.valueMap.sorted
  rw [hentries] at hsorted
  have hlt := (List.pairwise_append.mp hsorted).2.2 f hf e List.mem_cons_self
  have hfindf : m.valueMap.find f.1 = some f.2 := by
    rw [OrderedMap.find_eq_some, hentries]
    exact List.mem_append_left _ hf
  have hfinde : m.valueMap.find e.1 = some e.2 := by
    rw [OrderedMap.find_eq_some, hentries]
    exact List.mem_append_right _ List.mem_cons_self
  exact ne_of_lt hlt (h.own f.1 e.1 f.2 e.2 hfindf hfinde hsame)

theorem Addressed.nodesFrom_eq (h : Addressed m)
    (hentries : m.valueMap.entries = front ++ e :: back) : m.nodesFrom e.2.1 = e :: back := by
  rw [nodesFrom, hentries, List.dropWhile_append_of_pos, List.dropWhile_cons_of_neg]
  · simp
  · intro f hf
    exact decide_eq_true (h.ne_of_before hentries f hf)

theorem Addressed.nodeAt_eq (h : Addressed m)
    (hentries : m.valueMap.entries = front ++ e :: back) : m.nodeAt e.2.1 = some e := by
  have hnone : (front.find? fun f => f.2.1 = e.2.1) = none := by
    rw [List.find?_eq_none]
    intro f hf hsame
    exact h.ne_of_before hentries f hf (of_decide_eq_true hsame)
  rw [nodeAt, hentries, List.find?_append, hnone, Option.none_or, List.find?_cons, decide_eq_true rfl]

section Equality

variable [DecidableEq ν]
variable {source : OrderedMap κ ν}

def ComparableAt (m : StlMap κ ν) (source : OrderedMap κ ν) : Option (κ × ν) → Prop
  | none => source.entries.length ≤ m.content.entries.length
  | some e => source.find e.1 ≠ none

/-- The first entry that another map does not have in the same way has a key that is there; when there is none, the
other map has no further entries. -/
def Comparable (m : StlMap κ ν) (source : OrderedMap κ ν) : Prop :=
  m.ComparableAt source (m.content.entries.find? fun e => source.find e.1 ≠ some e.2)

theorem equalsLoop_eq (source : OrderedMap κ ν) {entries : List (κ × ν)} (hthere : ∀ e ∈ entries, m.get e.1 = some e.2) :
    m.equalsLoop source (entries.map Prod.fst) =
      match entries.find? fun e => source.find e.1 ≠ some e.2 with
      | none => .bool true
      | some e => if source.find e.1 = none then .noSuchElementException else .bool false := by
  induction entries with
  | nil => rfl
  | cons e entries ih =>
    rw [List.map_cons, equalsLoop, hthere e List.mem_cons_self, List.find?_cons]
    have hrest := ih fun e' he' => hthere e' (List.mem_cons_of_mem _ he')
    cases hsource : source.find e.1 with
    | none => simp [hsource]
    | some other =>
      by_cases heq : e.2 = other
      · simp [heq, hrest]
      · simp [heq, Ne.symm heq, hsource]

omit [DecidableEq ν] in
theorem content_eq_of_subset {map : OrderedMap κ ν} (hsubset : ∀ e ∈ map.entries, source.find e.1 = some e.2)
    (hlength : source.entries.length ≤ map.entries.length) : map = source := by
  have hnodup : map.entries.Nodup :=
    map.sorted.imp fun hlt heq => absurd (congrArg Prod.fst heq) (ne_of_lt hlt)
  have hsub : map.entries ⊆ source.entries := fun e he => OrderedMap.find_eq_some.mp (hsubset e he)
  have hperm := (List.subperm_of_subset hnodup hsub).perm_of_length_le hlength
  apply OrderedMap.ext_find
  intro k
  ext v
  rw [OrderedMap.find_eq_some, OrderedMap.find_eq_some]
  exact hperm.mem_iff

theorem equalsMap_eq (h : Comparable m source) :
    m.equalsLoop source (m.content.entries.map Prod.fst) = .bool (m.content = source) := by
  have hthere : ∀ e ∈ m.content.entries, m.get e.1 = some e.2 := by
    intro e he
    rw [← find_content]
    exact OrderedMap.find_eq_some.mpr he
  rw [equalsLoop_eq source hthere]
  rw [Comparable] at h
  cases hbad : m.content.entries.find? fun e => source.find e.1 ≠ some e.2 with
  | none =>
    rw [hbad] at h
    have hall : ∀ e ∈ m.content.entries, source.find e.1 = some e.2 := by
      intro e he
      have hgood := List.find?_eq_none.mp hbad e he
      simpa using hgood
    rw [decide_eq_true (content_eq_of_subset hall h)]
  | some e =>
    rw [hbad] at h
    have hdiffers : source.find e.1 ≠ some e.2 := by simpa using List.find?_some hbad
    have hne : m.content ≠ source := by
      intro heq
      rw [← heq] at hdiffers
      exact hdiffers (OrderedMap.find_eq_some.mpr (List.mem_of_find?_eq_some hbad))
    rw [decide_eq_false hne]
    exact if_neg h

end Equality

end StlMap

namespace StlMapState

variable {κ ν : Type} [LinearOrder κ] {kind : StlMapKind} {s : StlMapState κ ν} {t : FiniteMap κ ν} {m m' : StlMap κ ν}
  {it : StlMapIterator} {c : MapCursor κ ν}
variable {map : OrderedMap κ ν} {op : StlMapOp κ ν} {i : Nat}

/-! ### The map shows the finite map -/

/-- An iterator between two parts of the nodes. -/
structure Between (it : StlMapIterator) (c : MapCursor κ ν) (front back : List (κ × Nat × ν)) : Prop where
  rest : c.rest = back.map (Prod.map id Prod.snd)
  futureEntry : it.futureEntry = back.head?.map fun e => e.2.1
  currentEntry : it.currentEntry = none ∧ c.last = none ∨ ∃ e ∈ front, it.currentEntry = some e.2.1 ∧ c.last = some e.1

structure Follows (m : StlMap κ ν) (it : StlMapIterator) (c : MapCursor κ ν) : Prop where
  view : it.view = c.view
  constant : it.constant = c.constant
  expected : it.expectedModCount ≤ m.modCount
  stale : c.stale = true ↔ it.expectedModCount ≠ m.modCount
  between : c.stale = false → ∃ front back, m.valueMap.entries = front ++ back ∧ Between it c front back

structure Shows (s : StlMapState κ ν) (t : FiniteMap κ ν) : Prop where
  addressed : s.map.Addressed
  content : s.map.content = t.map
  cursors : List.Forall₂ (Follows s.map) s.iterators t.cursors

/-- Every iterator has been made before the last change. -/
def AllStale (s : StlMapState κ ν) : Prop := ∀ it ∈ s.iterators, it.expectedModCount ≠ s.map.modCount

theorem Follows.invalidate (h : Follows m it c) (hlt : it.expectedModCount < m'.modCount) :
    Follows m' it { c with stale := true } :=
  ⟨h.view, h.constant, hlt.le, iff_of_true rfl hlt.ne, fun hlive => by cases hlive⟩

theorem forall₂_invalidate {iterators : List StlMapIterator} {cursors : List (MapCursor κ ν)}
    (h : List.Forall₂ (Follows m) iterators cursors) (hlt : ∀ it ∈ iterators, it.expectedModCount < m'.modCount) :
    List.Forall₂ (Follows m') iterators (FiniteMap.invalidate cursors) := by
  induction h with
  | nil => exact .nil
  | cons hhead _ ih =>
    obtain ⟨hfirst, hrest⟩ := List.forall_mem_cons.mp hlt
    exact .cons (hhead.invalidate hfirst) (ih hrest)

theorem Shows.expected_le (h : Shows s t) : ∀ it ∈ s.iterators, it.expectedModCount ≤ s.map.modCount := by
  intro it hit
  obtain ⟨c, -, hfollows⟩ := rel_of_mem h.cursors hit
  exact hfollows.expected

theorem Shows.become (h : Shows s t) {n : Nat} (hchange : s.map.Changes m' map n)
    (hstale : 0 < n ∨ AllStale s) : Shows { s with map := m' } (t.become map) := by
  refine ⟨hchange.addressed, hchange.content, forall₂_invalidate h.cursors ?_⟩
  intro it hit
  have hle := h.expected_le it hit
  have hcount := hchange.modCount
  show it.expectedModCount < m'.modCount
  rcases hstale with hpos | hall
  · omega
  · have hne := hall it hit
    omega

theorem Shows.get_eq (h : Shows s t) (key : κ) : s.map.get key = t.map.find key := by
  rw [← h.content, StlMap.find_content]

theorem Shows.containsKey_eq (h : Shows s t) (key : κ) : s.map.containsKey key = (t.map.find key).isSome := by
  rw [← h.get_eq, StlMap.get, Option.isSome_map, StlMap.containsKey]

theorem Shows.map_eq_empty (h : Shows s t) (hsize : s.map.size = 0) : t.map = OrderedMap.empty := by
  rw [StlMap.size_eq, h.content] at hsize
  exact OrderedMap.eq_empty (List.length_eq_zero_iff.mp hsize)

theorem Shows.mapOf_eq (h : Shows s t) (source : MapArgument κ ν) : s.map.mapOf source = t.mapOf source := by
  cases source with
  | other map => rfl
  | self => exact h.content

variable [DecidableEq ν] [Inhabited ν]

/-- The operations that the finite map can follow: `putAll(const StlMap&)` with no other value for a key that is
there; no `clear` and no copy without a `put` while an iterator is up to date; `equals(const Map&)` of maps that are
comparable; and the map itself as an argument where that does not empty it or change it under its own iterator. -/
def Orderly (kind : StlMapKind) (s : StlMapState κ ν) : StlMapOp κ ν → Prop
  | .putAll .stlMap (.other map) => ∀ e ∈ map.entries, s.map.get e.1 = none ∨ s.map.get e.1 = some e.2
  | .putAll .map .self => s.map.size ≤ 1
  | .clear => AllStale s
  | .copy .stlMap (.other _) => AllStale s
  | .copy .stlMap .self => s.map.size = 0 ∧ AllStale s
  | .copy .map (.other map) => map.entries = [] → kind = .stlMap → AllStale s
  | .copy .map .self => s.map.size = 0 ∧ (kind = .stlMap → AllStale s)
  | .equals .map source => StlMap.Comparable s.map (s.map.mapOf source)
  | .conditional _ => kind = .concurrentStlMap
  | _ => True

def Followed (kind : StlMapKind) (s : StlMapState κ ν) (t : FiniteMap κ ν) (op : StlMapOp κ ν) : Prop :=
  ∃ t', t.Step op (s.step kind op).1 t' ∧ Shows (s.step kind op).2 t'

theorem followed_putAll_self (h : Shows s t) (hsize : s.map.size ≤ 1) : Followed kind s t (.putAll .map .self) := by
  have hput := OrderedMap.putAll_self t.map
  rw [StlMap.size_eq] at hsize
  cases hentries : s.map.content.entries with
  | nil =>
    have hempty : t.map = OrderedMap.empty := by
      rw [← h.content]
      exact OrderedMap.eq_empty hentries
    have hresult : s.map.putAll kind .map .self = (.done, s.map.finish kind) := by rw [StlMap.putAll, hentries]
    rw [Followed, StlMapState.step, hresult]
    cases kind with
    | stlMap => exact ⟨t, ⟨rfl, .inr ⟨hempty, rfl⟩⟩, h⟩
    | concurrentStlMap =>
      refine ⟨t.become (t.map.putAll t.map), ⟨rfl, .inl rfl⟩, ?_⟩
      rw [hput]
      exact h.become (n := 1) ⟨⟨h.addressed.below, h.addressed.own⟩, h.content, rfl⟩ (.inl Nat.one_pos)
  | cons e rest =>
    obtain rfl : rest = [] := by
      rw [hentries, List.length_cons] at hsize
      exact List.length_eq_zero_iff.mp (by omega)
    have hresult : s.map.putAll kind .map .self = (.done, (s.map.put e.1 e.2).finish kind) := by
      rw [StlMap.putAll, hentries]
    have hthere : s.map.content.find e.1 = some e.2 := by
      rw [OrderedMap.find_eq_some, hentries]
      exact List.mem_cons_self
    obtain ⟨count, hle, -, hchange⟩ :=
      StlMap.changes_finish kind (StlMap.changes_put h.addressed e.1 e.2)
    rw [OrderedMap.insert_find_self hthere, h.content] at hchange
    rw [Followed, StlMapState.step, hresult]
    refine ⟨t.become (t.map.putAll t.map), ⟨rfl, .inl rfl⟩, ?_⟩
    rw [hput]
    exact h.become hchange (.inl hle)

theorem followed_putAll (h : Shows s t) (overload : MapOverload) (other : MapArgument κ ν)
    (horderly : Orderly kind s (.putAll overload other)) : Followed kind s t (.putAll overload other) := by
  cases overload with
  | stlMap =>
    cases other with
    | other map =>
      have hagree : ∀ e ∈ map.entries, s.map.content.find e.1 = none ∨ s.map.content.find e.1 = some e.2 := by
        intro e he
        rw [StlMap.find_content]
        exact horderly e he
      have hinsert := StlMap.changes_insertRange h.addressed map.sorted hagree
      refine ⟨t.become (t.map.putAll map), ⟨rfl, .inl rfl⟩, h.become (n := 1) ⟨?_, ?_, ?_⟩ (.inl Nat.one_pos)⟩
      · exact ⟨hinsert.addressed.below, hinsert.addressed.own⟩
      · rw [← h.content]
        exact hinsert.content
      · exact congrArg (· + 1) hinsert.modCount
    | self =>
      refine ⟨t.become (t.map.putAll t.map), ⟨rfl, .inl rfl⟩, h.become (n := 1) ⟨?_, ?_, rfl⟩ (.inl Nat.one_pos)⟩
      · exact ⟨h.addressed.below, h.addressed.own⟩
      · rw [OrderedMap.putAll_self]
        exact h.content
  | map =>
    cases other with
    | other map =>
      obtain ⟨count, hle, hkind, hchange⟩ :=
        StlMap.changes_finish kind (StlMap.changes_putEach h.addressed map.entries)
      rw [h.content] at hchange
      by_cases hnothing : map.entries = [] ∧ kind = .stlMap
      · obtain ⟨hnone, rfl⟩ := hnothing
        refine ⟨t, ⟨rfl, .inr ⟨OrderedMap.eq_empty hnone, rfl⟩⟩, ?_⟩
        show Shows { s with map := s.map.putEach map.entries } t
        rw [hnone]
        exact h
      · refine ⟨t.become (t.map.putAll map), ⟨rfl, .inl rfl⟩, h.become hchange (.inl ?_)⟩
        cases kind with
        | concurrentStlMap => exact hkind rfl
        | stlMap => exact lt_of_lt_of_le (List.length_pos_iff.mpr fun hnone => hnothing ⟨hnone, rfl⟩) hle
    | self => exact followed_putAll_self h horderly

theorem followed_copy (h : Shows s t) (overload : MapOverload) (source : MapArgument κ ν)
    (horderly : Orderly kind s (.copy overload source)) : Followed kind s t (.copy overload source) := by
  have hclear := StlMap.changes_clear (m := s.map)
  cases overload with
  | stlMap =>
    cases source with
    | other map =>
      have hinsert := StlMap.changes_insertRange hclear.addressed map.sorted
        fun e _ => .inl (by rw [hclear.content]; rfl)
      have hcopy := hclear.trans hinsert
      rw [hclear.content] at hcopy
      refine ⟨t.become map, ⟨rfl, rfl⟩, h.become (n := 0) ⟨hcopy.addressed, ?_, hcopy.modCount⟩ (.inr horderly)⟩
      exact hcopy.content.trans (OrderedMap.empty_putAll map)
    | self =>
      obtain ⟨hsize, hstale⟩ := horderly
      refine ⟨t.become t.map, ⟨rfl, rfl⟩, h.become (n := 0) ⟨hclear.addressed, ?_, hclear.modCount⟩ (.inr hstale)⟩
      rw [h.map_eq_empty hsize]
      exact hclear.content
  | map =>
    cases source with
    | other map =>
      obtain ⟨count, hle, hkind, hchange⟩ :=
        StlMap.changes_finish kind (StlMap.changes_putEach hclear.addressed map.entries)
      have hcopy := hclear.trans hchange
      rw [hclear.content] at hcopy
      refine ⟨t.become map, ⟨rfl, rfl⟩, h.become (n := 0 + count) ⟨hcopy.addressed, ?_, hcopy.modCount⟩ ?_⟩
      · exact hcopy.content.trans (OrderedMap.empty_putAll map)
      · by_cases hnothing : map.entries = [] ∧ kind = .stlMap
        · exact .inr (horderly hnothing.1 hnothing.2)
        · left
          rw [Nat.zero_add]
          cases kind with
          | concurrentStlMap => exact hkind rfl
          | stlMap => exact lt_of_lt_of_le (List.length_pos_iff.mpr fun hnone => hnothing ⟨hnone, rfl⟩) hle
    | self =>
      obtain ⟨hsize, hstale⟩ := horderly
      obtain ⟨count, -, hkind, hchange⟩ := StlMap.changes_finish kind hclear
      refine ⟨t.become t.map, ⟨rfl, rfl⟩, h.become (n := count) ⟨hchange.addressed, ?_, hchange.modCount⟩ ?_⟩
      · rw [h.map_eq_empty hsize]
        exact hchange.content
      · cases kind with
        | concurrentStlMap => exact .inl (hkind rfl)
        | stlMap => exact .inr (hstale rfl)

/-! ### The iterators -/

theorem followed_same (h : Shows s t) (answer : StlMapAnswer κ ν) (hstep : s.step kind op = (answer, s))
    (hspec : t.Step op answer t) : Followed kind s t op := by
  rw [Followed, hstep]
  exact ⟨t, hspec, h⟩

theorem followed_iterator (h : Shows s t) (view : View) (constant : Bool) :
    Followed kind s t (.iterator view constant) := by
  refine ⟨_, ⟨rfl, rfl⟩, h.addressed, h.content, forall₂_concat h.cursors ⟨rfl, rfl, le_rfl, ?_, fun _ => ?_⟩⟩
  · exact iff_of_false Bool.false_ne_true fun hne => hne rfl
  · refine ⟨[], s.map.valueMap.entries, rfl, ?_, rfl, .inl ⟨rfl, rfl⟩⟩
    rw [← h.content]
    rfl

theorem followed_hasNext (h : Shows s t) (i : Nat) : Followed kind s t (.hasNext i) := by
  cases hit : s.iterators[i]? with
  | none =>
    refine followed_same h .noIterator (by rw [step, hit]) ⟨rfl, ?_⟩
    rw [getElem?_none_of_rel h.cursors hit]
  | some it =>
    obtain ⟨c, hc, hfollows⟩ := rel_of_getElem? h.cursors hit
    refine followed_same h (.bool it.checkHasNext) (by rw [step, hit]) ⟨rfl, ?_⟩
    rw [hc]
    refine ⟨_, rfl, fun hlive => ?_⟩
    obtain ⟨front, back, -, hbetween⟩ := hfollows.between hlive
    rw [StlMapIterator.checkHasNext, hbetween.futureEntry, hbetween.rest]
    cases back <;> simp

theorem step_next (hit : s.iterators[i]? = some it) :
    s.step kind (.next i) = ((it.next s.map).1, { s with iterators := s.iterators.set i (it.next s.map).2 }) := by
  rw [step, hit]

theorem step_removeCurrent (hit : s.iterators[i]? = some it) :
    s.step kind (.removeCurrent i) = ((it.doRemove s.map).1,
      { map := (it.doRemove s.map).2.2, iterators := s.iterators.set i (it.doRemove s.map).2.1 }) := by
  rw [step, hit]

theorem followed_next (h : Shows s t) (i : Nat) : Followed kind s t (.next i) := by
  cases hit : s.iterators[i]? with
  | none =>
    have hspec := FiniteMap.withCursor_none (getElem?_none_of_rel h.cursors hit) FiniteMap.nextOf
    exact followed_same h .noIterator (by rw [step, hit]) hspec.symm
  | some it =>
    obtain ⟨c, hc, hfollows⟩ := rel_of_getElem? h.cursors hit
    have hcursor := FiniteMap.withCursor_some hc FiniteMap.nextOf
    have hsame : { s with iterators := s.iterators.set i it } = s := by rw [set_of_getElem? hit]
    by_cases hstale : c.stale = true
    · have hspec : t.nextOf i c = (.concurrentModificationException, t) := if_pos hstale
      have hnext : it.next s.map = (.concurrentModificationException, it) := if_pos (hfollows.stale.mp hstale)
      exact followed_same h _ (by rw [step_next hit, hnext, hsame]) (hcursor.trans hspec).symm
    · have hcount : ¬it.expectedModCount ≠ s.map.modCount := mt hfollows.stale.mpr hstale
      obtain ⟨front, back, hentries, hbetween⟩ := hfollows.between (Bool.eq_false_iff.mpr hstale)
      cases back with
      | nil =>
        have hspec : t.nextOf i c = (.noSuchElementException, t) := by
          rw [FiniteMap.nextOf, if_neg hstale, hbetween.rest, List.map_nil]
        have hnext : it.next s.map = (.noSuchElementException, it) := by
          rw [StlMapIterator.next, if_neg hcount, hbetween.futureEntry, List.head?_nil, Option.map_none]
        exact followed_same h _ (by rw [step_next hit, hnext, hsame]) (hcursor.trans hspec).symm
      | cons e rest =>
        have hspec : t.nextOf i c = (c.view.stlAnswer e.1 e.2.2, { t with
            cursors := t.cursors.set i
              { c with rest := rest.map (Prod.map id Prod.snd), last := some e.1 } }) := by
          rw [FiniteMap.nextOf, if_neg hstale, hbetween.rest, List.map_cons]
          rfl
        have hnext : it.next s.map = (c.view.stlAnswer e.1 e.2.2,
            { it with currentEntry := some e.2.1, futureEntry := rest.head?.map fun e => e.2.1 }) := by
          rw [StlMapIterator.next, if_neg hcount, hbetween.futureEntry, List.head?_cons, Option.map_some]
          simp only [h.addressed.nodesFrom_eq hentries, hfollows.view]
        rw [Followed, step_next hit, hnext]
        refine ⟨_, (hcursor.trans hspec).symm, h.addressed, h.content, forall₂_set h.cursors i ?_⟩
        refine ⟨hfollows.view, hfollows.constant, hfollows.expected, hfollows.stale, fun _ => ?_⟩
        refine ⟨front ++ [e], rest, ?_, rfl, rfl, .inr ⟨e, ?_, rfl, rfl⟩⟩
        · rw [hentries, List.append_cons]
        · exact List.mem_append_right _ (List.mem_singleton_self e)

omit [DecidableEq ν] [Inhabited ν] in
theorem erase_between {front back : List (κ × Nat × ν)} {e : κ × Nat × ν}
    (hentries : m.valueMap.entries = front ++ back) (he : e ∈ front) :
    (m.valueMap.erase e.1).entries = (front.filter fun f => f.1 ≠ e.1) ++ back := by
  have hsorted := m.valueMap.sorted
  rw [hentries] at hsorted
  have hback : back.filter (fun f => f.1 ≠ e.1) = back := by
    rw [List.filter_eq_self]
    intro f hf
    exact decide_eq_true (ne_of_gt ((List.pairwise_append.mp hsorted).2.2 e he f hf))
  show m.valueMap.entries.filter _ = _
  rw [hentries, List.filter_append, hback]

theorem followed_removeCurrent (h : Shows s t) (i : Nat) : Followed kind s t (.removeCurrent i) := by
  cases hit : s.iterators[i]? with
  | none =>
    have hspec := FiniteMap.withCursor_none (getElem?_none_of_rel h.cursors hit) FiniteMap.removeOf
    exact followed_same h .noIterator (by rw [step, hit]) hspec.symm
  | some it =>
    obtain ⟨c, hc, hfollows⟩ := rel_of_getElem? h.cursors hit
    have hcursor := FiniteMap.withCursor_some hc FiniteMap.removeOf
    have hsame : { s with iterators := s.iterators.set i it } = s := by rw [set_of_getElem? hit]
    by_cases hconstant : c.constant = true
    · have hspec : t.removeOf i c = (.unsupportedOperationException, t) := by
        rw [FiniteMap.removeOf, if_pos hconstant]
      have hremove : it.doRemove s.map = (.unsupportedOperationException, it, s.map) :=
        if_pos (hfollows.constant.trans hconstant)
      exact followed_same h _ (by rw [step_removeCurrent hit, hremove, hsame]) (hcursor.trans hspec).symm
    have hwritable : ¬it.constant = true := hfollows.constant ▸ hconstant
    by_cases hstale : c.stale = true
    · have hspec : t.removeOf i c = (.concurrentModificationException, t) := by
        rw [FiniteMap.removeOf, if_neg hconstant, if_pos hstale]
      have hremove : it.doRemove s.map = (.concurrentModificationException, it, s.map) := by
        rw [StlMapIterator.doRemove, if_neg hwritable, if_pos (hfollows.stale.mp hstale)]
      exact followed_same h _ (by rw [step_removeCurrent hit, hremove, hsame]) (hcursor.trans hspec).symm
    have hcount : ¬it.expectedModCount ≠ s.map.modCount := mt hfollows.stale.mpr hstale
    obtain ⟨front, back, hentries, hbetween⟩ := hfollows.between (Bool.eq_false_iff.mpr hstale)
    rcases hbetween.currentEntry with ⟨hcurrent, hlast⟩ | ⟨e, he, hcurrent, hlast⟩
    · have hspec : t.removeOf i c = (.illegalStateException, t) := by
        rw [FiniteMap.removeOf, if_neg hconstant, if_neg hstale, hlast]
      have hremove : it.doRemove s.map = (.illegalStateException, it, s.map) := by
        rw [StlMapIterator.doRemove, if_neg hwritable, if_neg hcount, hcurrent]
      exact followed_same h _ (by rw [step_removeCurrent hit, hremove, hsame]) (hcursor.trans hspec).symm
    · obtain ⟨before, after, hfront⟩ := List.append_of_mem he
      have hnode : s.map.nodeAt e.2.1 = some e := by
        have hsplit : s.map.valueMap.entries = before ++ e :: (after ++ back) := by
          rw [hentries, hfront, List.append_assoc, List.cons_append]
        exact h.addressed.nodeAt_eq hsplit
      have hspec : t.removeOf i c =
          (.done, ⟨t.map.erase e.1, (FiniteMap.invalidate t.cursors).set i { c with last := none }⟩) := by
        rw [FiniteMap.removeOf, if_neg hconstant, if_neg hstale, hlast]
      have hremove : it.doRemove s.map = (.done,
          { it with currentEntry := none, expectedModCount := it.expectedModCount + 1 }, s.map.erase e.1) := by
        rw [StlMapIterator.doRemove, if_neg hwritable, if_neg hcount, hcurrent]
        simp only [hnode]
      have hchange := StlMap.changes_erase h.addressed e.1
      rw [h.content] at hchange
      have hbecome := h.become hchange (.inl Nat.one_pos)
      have hnow : it.expectedModCount = s.map.modCount := not_not.mp hcount
      rw [Followed, step_removeCurrent hit, hremove]
      refine ⟨_, (hcursor.trans hspec).symm, hbecome.addressed, hbecome.content, forall₂_set hbecome.cursors i ?_⟩
      refine ⟨hfollows.view, hfollows.constant, Nat.succ_le_succ hfollows.expected, ?_, fun _ => ?_⟩
      · refine iff_of_false hstale fun hne => hne ?_
        show it.expectedModCount + 1 = s.map.modCount + 1
        rw [hnow]
      · exact ⟨_, back, erase_between hentries he, hbetween.rest, hbetween.futureEntry, .inl ⟨rfl, rfl⟩⟩

/-! ### Runs -/

theorem followed_change (h : Shows s t) (answer : StlMapAnswer κ ν)
    (hchange : s.map.Changes m map 1) (hstep : s.step kind op = (answer, { s with map := m }))
    (hspec : t.Step op answer (t.become map)) : Followed kind s t op := by
  rw [Followed, hstep]
  exact ⟨_, hspec, h.become hchange (.inl Nat.one_pos)⟩

theorem followed_conditional (h : Shows s t) (op : ConditionalOp κ ν) : Followed kind s t (.conditional op) := by
  have hput : ∀ key value, s.map.Changes (s.map.put key value) (t.map.insert key value) 1 := by
    intro key value
    rw [← h.content]
    exact StlMap.changes_put h.addressed key value
  have herase : ∀ key, s.map.Changes (s.map.erase key) (t.map.erase key) 1 := by
    intro key
    rw [← h.content]
    exact StlMap.changes_erase h.addressed key
  cases op with
  | putIfAbsent key value =>
    have hthere := h.containsKey_eq key
    cases hfind : t.map.find key with
    | none =>
      rw [hfind] at hthere
      refine followed_change h (.bool true) (hput key value) ?_ ?_
      · simp [step, StlMap.conditional, hthere, change]
      · simp [FiniteMap.Step, FiniteMap.conditional, hfind]
    | some old =>
      rw [hfind] at hthere
      refine followed_same h (.bool false) ?_ ?_
      · simp [step, StlMap.conditional, hthere, change]
      · simp [FiniteMap.Step, FiniteMap.conditional, hfind]
  | remove key value =>
    have hget := h.get_eq key
    by_cases hfind : t.map.find key = some value
    · refine followed_change h (.bool true) (herase key) ?_ ?_
      · simp [step, StlMap.conditional, StlMap.removeMapping, hget, hfind, change]
      · simp [FiniteMap.Step, FiniteMap.conditional, hfind]
    · refine followed_same h (.bool false) ?_ ?_
      · simp [step, StlMap.conditional, StlMap.removeMapping, hget, hfind, change]
      · simp [FiniteMap.Step, FiniteMap.conditional, hfind]
  | replace key value =>
    have hget := h.get_eq key
    cases hfind : t.map.find key with
    | none =>
      refine followed_same h .noSuchElementException ?_ ?_
      · simp [step, StlMap.conditional, hget, hfind, change]
      · simp [FiniteMap.Step, FiniteMap.conditional, hfind]
    | some old =>
      refine followed_change h (.value old) (hput key value) ?_ ?_
      · simp [step, StlMap.conditional, hget, hfind, change]
      · simp [FiniteMap.Step, FiniteMap.conditional, hfind]
  | replaceIf key oldValue newValue =>
    have hget := h.get_eq key
    by_cases hfind : t.map.find key = some oldValue
    · refine followed_change h (.bool true) (hput key newValue) ?_ ?_
      · simp [step, StlMap.conditional, hget, hfind, change]
      · simp [FiniteMap.Step, FiniteMap.conditional, hfind]
    · refine followed_same h (.bool false) ?_ ?_
      · simp [step, StlMap.conditional, hget, hfind, change]
      · simp [FiniteMap.Step, FiniteMap.conditional, hfind]

theorem followed_step (h : Shows s t) (op : StlMapOp κ ν) (horderly : Orderly kind s op) : Followed kind s t op := by
  have hput : ∀ key value, s.map.Changes (s.map.put key value) (t.map.insert key value) 1 := by
    intro key value
    rw [← h.content]
    exact StlMap.changes_put h.addressed key value
  have herase : ∀ key, s.map.Changes (s.map.erase key) (t.map.erase key) 1 := by
    intro key
    rw [← h.content]
    exact StlMap.changes_erase h.addressed key
  cases op with
  | put key value => exact followed_change h _ (hput key value) rfl ⟨by rw [h.containsKey_eq], rfl⟩
  | putOld key value => exact followed_change h _ (hput key value) rfl ⟨by rw [h.get_eq], rfl⟩
  | putAll overload other => exact followed_putAll h overload other horderly
  | remove key =>
    have hget := h.get_eq key
    cases hfind : t.map.find key with
    | none =>
      refine followed_same h (StlMap.absentAnswer kind) ?_ ?_
      · rw [step, hget, hfind]
      · rw [FiniteMap.Step, hfind]
        cases kind with
        | stlMap => exact ⟨.inl rfl, rfl⟩
        | concurrentStlMap => exact ⟨.inr rfl, rfl⟩
    | some value =>
      refine followed_change h (.value value) (herase key) ?_ ?_
      · rw [step, hget, hfind]
        rfl
      · rw [FiniteMap.Step, hfind]
        exact ⟨rfl, rfl⟩
  | clear => exact ⟨_, ⟨rfl, rfl⟩, h.become StlMap.changes_clear (.inr horderly)⟩
  | copy overload source => exact followed_copy h overload source horderly
  | equals overload source =>
    have hmap := h.mapOf_eq source
    cases overload with
    | stlMap =>
      refine followed_same h _ rfl ⟨?_, rfl⟩
      rw [StlMap.equals, hmap, h.content]
      exact congrArg StlMapAnswer.bool (decide_eq_decide.mpr OrderedMap.entries_inj)
    | map =>
      have hequals := StlMap.equalsMap_eq horderly
      rw [h.content, hmap] at hequals
      refine followed_same h _ rfl ⟨?_, rfl⟩
      rw [StlMap.equals, hmap, h.content, hequals]
  | get key =>
    have hget := h.get_eq key
    cases hfind : t.map.find key with
    | none =>
      refine followed_same h .noSuchElementException (by rw [step, hget, hfind]) ⟨rfl, ?_⟩
      rw [hfind]
    | some value =>
      refine followed_same h (.value value) (by rw [step, hget, hfind]) ⟨rfl, ?_⟩
      rw [hfind]
  | containsKey key => exact followed_same h _ rfl ⟨by rw [h.containsKey_eq], rfl⟩
  | containsValue value =>
    refine followed_same h _ rfl ⟨rfl, _, rfl, ?_⟩
    rw [h.content, List.any_eq_true, ← OrderedMap.mem_values]
    simp
  | size => exact followed_same h _ rfl ⟨by rw [StlMap.size_eq, h.content], rfl⟩
  | isEmpty =>
    refine followed_same h _ rfl ⟨congrArg StlMapAnswer.bool ?_, rfl⟩
    rw [← h.content, Bool.eq_iff_iff, List.isEmpty_iff, decide_eq_true_iff, ← OrderedMap.entries_inj]
    exact List.map_eq_nil_iff.symm
  | keySetRemove key =>
    have hthere := h.containsKey_eq key
    cases hfind : t.map.find key with
    | none =>
      rw [hfind] at hthere
      exact followed_same h (.bool false) (by simp [step, hthere]) (by simp [FiniteMap.Step, hfind])
    | some value =>
      rw [hfind] at hthere
      exact followed_change h (.bool true) (herase key) (by simp [step, hthere, change])
        (by simp [FiniteMap.Step, hfind])
  | entrySetRemove key value =>
    have hremove : Followed kind s t (.conditional (.remove key value)) := followed_conditional h (.remove key value)
    obtain ⟨t', hspec, hshows⟩ := hremove
    exact ⟨t', hspec, hshows⟩
  | conditional op => exact followed_conditional h op
  | iterator view constant => exact followed_iterator h view constant
  | hasNext i => exact followed_hasNext h i
  | next i => exact followed_next h i
  | removeCurrent i => exact followed_removeCurrent h i

omit [DecidableEq ν] [Inhabited ν] in
theorem shows_empty : Shows ({} : StlMapState κ ν) {} := ⟨StlMap.addressed_empty, rfl, .nil⟩

instance (s : StlMapState κ ν) : Decidable (AllStale s) :=
  inferInstanceAs (Decidable (∀ it ∈ s.iterators, it.expectedModCount ≠ s.map.modCount))

instance (m : StlMap κ ν) (source : OrderedMap κ ν) : (o : Option (κ × ν)) → Decidable (m.ComparableAt source o)
  | none => inferInstanceAs (Decidable (_ ≤ _))
  | some _ => inferInstanceAs (Decidable (_ ≠ _))

instance (m : StlMap κ ν) (source : OrderedMap κ ν) : Decidable (m.Comparable source) :=
  inferInstanceAs (Decidable (m.ComparableAt source _))

instance (kind : StlMapKind) (s : StlMapState κ ν) : (op : StlMapOp κ ν) → Decidable (Orderly kind s op)
  | .putAll .stlMap (.other _) => inferInstanceAs (Decidable (∀ e ∈ _, _ ∨ _))
  | .putAll .map .self => inferInstanceAs (Decidable (_ ≤ _))
  | .copy .stlMap .self => inferInstanceAs (Decidable (_ ∧ _))
  | .copy .map (.other _) => inferInstanceAs (Decidable (_ → _ → _))
  | .copy .map .self => inferInstanceAs (Decidable (_ ∧ (_ → _)))
  | .equals .map _ => inferInstanceAs (Decidable (StlMap.Comparable _ _))
  | .conditional _ => inferInstanceAs (Decidable (_ = _))
  | .clear | .copy .stlMap (.other _) => inferInstanceAs (Decidable (AllStale s))
  | .putAll .stlMap .self | .putAll .map (.other _) | .equals .stlMap _ | .put _ _ | .putOld _ _ | .remove _ | .get _
  | .containsKey _ | .containsValue _ | .size | .isEmpty | .keySetRemove _ | .entrySetRemove _ _ | .iterator _ _
  | .hasNext _ | .next _ | .removeCurrent _ => inferInstanceAs (Decidable True)

end StlMapState

end ActiveMQCpp.Decaf
