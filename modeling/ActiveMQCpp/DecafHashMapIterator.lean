import ActiveMQCpp.DecafHashMap
import ActiveMQCpp.LibRefinement
import Mathlib.Data.Set.Basic

/-! The iterators over the entry set, the key set and the values of a `HashMap`, and runs of a map with any
number of them. An iterator refers to entries by their addresses. -/

namespace ActiveMQCpp.Decaf

open Runs Refinement HashMap List Option

inductive View where
  | entrySet
  | keySet
  | values
  deriving DecidableEq

structure AbstractMapIterator where
  view : View
  position : Nat := 0
  expectedModCount : Nat
  futureEntry : Option Nat := none
  currentEntry : Option Nat := none
  prevEntry : Option Nat := none
  deriving DecidableEq

inductive MapAnswer (κ ν : Type) where
  | done
  | replaced (oldValue : Option ν)
  | value (v : ν)
  | key (k : κ)
  | entry (k : κ) (v : ν)
  | bool (b : Bool)
  | noSuchElementException
  | concurrentModificationException
  | illegalStateException
  | noMemory
  | dangling
  | noIterator
  deriving DecidableEq

/-- What `next` returns for an entry. -/
def View.answer {κ ν : Type} (view : View) (k : κ) (v : ν) : MapAnswer κ ν :=
  match view with
  | .entrySet => .entry k v
  | .keySet => .key k
  | .values => .value v

namespace HashMap

variable {κ ν : Type}

def follow (address : Nat) : List (HashMapEntry κ ν) → List (HashMapEntry κ ν)
  | [] => []
  | e :: chain => if e.address = address then chain else follow address chain

/-- The chain that the `next` of an entry points to. -/
def nextOf (address : Nat) (m : HashMap κ ν) : List (HashMapEntry κ ν) := m.elementData.flatMap (follow address)

/-- An assignment to the `next` of an entry. -/
def relink (address : Nat) (chain : List (HashMapEntry κ ν)) : List (HashMapEntry κ ν) → List (HashMapEntry κ ν)
  | [] => []
  | e :: rest => if e.address = address then e :: chain else e :: relink address chain rest

def entryAt (address : Nat) (m : HashMap κ ν) : Option (HashMapEntry κ ν) :=
  m.entries.find? fun e => e.address = address

end HashMap

namespace AbstractMapIterator

variable {κ ν : Type} (m : HashMap κ ν) (it : AbstractMapIterator)

/-- `checkHasNext` moves the position over empty buckets. -/
def skipEmpty : AbstractMapIterator :=
  { it with position := it.position + ((m.elementData.drop it.position).takeWhile List.isEmpty).length }

def checkHasNext : Bool × AbstractMapIterator :=
  if it.futureEntry ≠ none then (true, it)
  else (decide ((it.skipEmpty m).position < m.elementData.length), it.skipEmpty m)

/-- `makeNext` once there is a next entry. -/
def advance : AbstractMapIterator :=
  match it.futureEntry with
  | none =>
    let chain := m.elementData.getD it.position []
    { it with
      currentEntry := chain.head?.map HashMapEntry.address
      futureEntry := chain.tail.head?.map HashMapEntry.address
      prevEntry := none
      position := it.position + 1 }
  | some address =>
    { it with
      prevEntry := if it.currentEntry ≠ none then it.currentEntry else it.prevEntry
      currentEntry := some address
      futureEntry := (m.nextOf address).head?.map HashMapEntry.address }

def next : MapAnswer κ ν × AbstractMapIterator :=
  if it.expectedModCount ≠ m.modCount then (.concurrentModificationException, it)
  else
    let (hasNext, it) := it.checkHasNext m
    if hasNext then
      let it := it.advance m
      match it.currentEntry.bind m.entryAt with
      | some e => (it.view.answer e.key e.value, it)
      | none => (.dangling, it)
    else (.noSuchElementException, it)

def unlink (e : HashMapEntry κ ν) : List (List (HashMapEntry κ ν)) :=
  match it.prevEntry with
  | none => m.elementData.modify (HashMap.indexFor e.origKeyHash m.elementData.length) List.tail
  | some prev => m.elementData.map (HashMap.relink prev (m.nextOf e.address))

def doRemove : MapAnswer κ ν × AbstractMapIterator × HashMap κ ν :=
  if it.expectedModCount ≠ m.modCount then (.concurrentModificationException, it, m)
  else
    match it.currentEntry with
    | none => (.illegalStateException, it, m)
    | some address =>
      match m.entryAt address with
      | none => (.dangling, it, m)
      | some e =>
        (.done, { it with currentEntry := none, expectedModCount := it.expectedModCount + 1 },
          { m with
            elementData := it.unlink m e
            modCount := m.modCount + 1
            elementCount := m.elementCount - 1 })

end AbstractMapIterator

/-! ### Runs -/

inductive MapOp (κ ν : Type) where
  | put (key : κ) (value : ν)
  | putAll (entries : List (κ × ν))
  | remove (key : κ)
  | clear
  | get (key : κ)
  | containsKey (key : κ)
  | containsValue (value : ν)
  | iterator (view : View)
  | hasNext (iterator : Nat)
  | next (iterator : Nat)
  | removeCurrent (iterator : Nat)

/-- A map and the iterators made for it. -/
structure MapState (κ ν : Type) where
  map : HashMap κ ν
  iterators : List AbstractMapIterator := []

namespace MapState

variable {κ ν : Type} [DecidableEq κ] [DecidableEq ν] [Inhabited ν] (config : HashMapConfig κ)

def step (s : MapState κ ν) : MapOp κ ν → MapAnswer κ ν × MapState κ ν
  | .put key value =>
    match s.map.putImpl config key value with
    | (some oldValue, map) => (.replaced oldValue, { s with map := map })
    | (none, map) => (.noMemory, { s with map := map })
  | .putAll entries =>
    match s.map.putAll config entries with
    | (some _, map) => (.done, { s with map := map })
    | (none, map) => (.noMemory, { s with map := map })
  | .remove key =>
    match s.map.removeEntry config key with
    | some (e, map) => (.value e.value, { s with map := map })
    | none => (.noSuchElementException, s)
  | .clear => (.done, { s with map := s.map.clear })
  | .get key =>
    match s.map.get config key with
    | some value => (.value value, s)
    | none => (.noSuchElementException, s)
  | .containsKey key => (.bool (s.map.containsKey config key), s)
  | .containsValue value => (.bool (s.map.containsValue value), s)
  | .iterator view =>
    (.done, { s with iterators := s.iterators ++ [{ view := view, expectedModCount := s.map.modCount }] })
  | .hasNext i =>
    match s.iterators[i]? with
    | none => (.noIterator, s)
    | some it =>
      (.bool (it.checkHasNext s.map).1, { s with iterators := s.iterators.set i (it.checkHasNext s.map).2 })
  | .next i =>
    match s.iterators[i]? with
    | none => (.noIterator, s)
    | some it => ((it.next s.map).1, { s with iterators := s.iterators.set i (it.next s.map).2 })
  | .removeCurrent i =>
    match s.iterators[i]? with
    | none => (.noIterator, s)
    | some it =>
      let result := it.doRemove s.map
      (result.1, { map := result.2.2, iterators := s.iterators.set i result.2.1 })

end MapState

/-! ### The abstract map -/

structure SpecIterator (κ : Type) where
  view : View
  remaining : Set κ
  last : Option κ := none
  stale : Bool := false

def SpecIterator.visit {κ : Type} (it : SpecIterator κ) (key : κ) : SpecIterator κ :=
  { it with remaining := it.remaining.diff {key}, last := some key }

/-- A finite map with iterators that visit its keys in some order; one that was not used for a change of the keys
is stale after it. -/
structure SpecMap (κ ν : Type) where
  map : κ → Option ν := fun _ => none
  iterators : List (SpecIterator κ) := []

namespace SpecMap

variable {κ ν : Type} [DecidableEq κ]

def invalidate (iterators : List (SpecIterator κ)) : List (SpecIterator κ) :=
  iterators.map fun it => { it with stale := true }

/-- The answers that the map may give, and the map afterwards. -/
def Step (s : SpecMap κ ν) : MapOp κ ν → MapAnswer κ ν → SpecMap κ ν → Prop
  | .put key value, answer, s' =>
    answer = .replaced (s.map key) ∧ s' =
      { map := Function.update s.map key (some value)
        iterators := if (s.map key).isNone then invalidate s.iterators else s.iterators }
  | .putAll entries, answer, s' =>
    answer = .done ∧ s' =
      { map := entries.foldl (fun map e => Function.update map e.1 (some e.2)) s.map
        iterators := if entries.any fun e => (s.map e.1).isNone then invalidate s.iterators else s.iterators }
  | .remove key, answer, s' =>
    (∃ value, s.map key = some value ∧ answer = .value value ∧
      s' = { map := Function.update s.map key none, iterators := invalidate s.iterators }) ∨
    s.map key = none ∧ answer = .noSuchElementException ∧ s' = s
  | .clear, answer, s' =>
    answer = .done ∧ ((∀ key, s.map key = none) ∧ s' = s ∨
      (∃ key, s.map key ≠ none) ∧ s' = { map := fun _ => none, iterators := invalidate s.iterators })
  | .get key, answer, s' =>
    s' = s ∧ answer = match s.map key with
      | some value => .value value
      | none => .noSuchElementException
  | .containsKey key, answer, s' => s' = s ∧ answer = .bool (s.map key).isSome
  | .containsValue value, answer, s' => s' = s ∧ ∃ b : Bool, answer = .bool b ∧ (b = true ↔ ∃ key, s.map key = some value)
  | .iterator view, answer, s' =>
    answer = .done ∧
      s' = { s with iterators := s.iterators ++ [{ view := view, remaining := fun key => s.map key ≠ none }] }
  | .hasNext i, answer, s' =>
    s' = s ∧ match s.iterators[i]? with
      | none => answer = .noIterator
      | some it => ∃ b : Bool, answer = .bool b ∧ (it.stale = false → (b = true ↔ it.remaining.Nonempty))
  | .next i, answer, s' =>
    match s.iterators[i]? with
    | none => answer = .noIterator ∧ s' = s
    | some it =>
      it.stale = true ∧ answer = .concurrentModificationException ∧ s' = s ∨
      it.stale = false ∧ it.remaining = ∅ ∧ answer = .noSuchElementException ∧ s' = s ∨
      it.stale = false ∧ ∃ key ∈ it.remaining, ∃ value, s.map key = some value ∧
        answer = it.view.answer key value ∧
        s' = { s with iterators := s.iterators.set i (it.visit key) }
  | .removeCurrent i, answer, s' =>
    match s.iterators[i]? with
    | none => answer = .noIterator ∧ s' = s
    | some it =>
      it.stale = true ∧ answer = .concurrentModificationException ∧ s' = s ∨
      it.stale = false ∧ it.last = none ∧ answer = .illegalStateException ∧ s' = s ∨
      it.stale = false ∧ ∃ key, it.last = some key ∧ answer = .done ∧
        s' = { map := Function.update s.map key none
               iterators := (invalidate s.iterators).set i { it with last := none } }

end SpecMap

/-! ### Addresses in a well-formed table -/

namespace HashMap

variable {κ ν : Type} {config : HashMapConfig κ} {m : HashMap κ ν} {i j : Nat} {e e' : HashMapEntry κ ν}
  {chain chain' front back : List (HashMapEntry κ ν)}
variable {address : Nat} {α : Type}

theorem Inv.eq_of_address (h : Inv config m) (he : e ∈ m.entries) (he' : e' ∈ m.entries)
    (haddress : e.address = e'.address) : e = e' :=
  inj_on_of_nodup_map h.addresses he he' haddress

theorem Inv.entryAt_eq (h : Inv config m) (he : e ∈ m.entries) : m.entryAt e.address = some e := by
  cases hfind : m.entryAt e.address with
  | none => exact absurd (decide_eq_true rfl) (List.find?_eq_none.mp hfind e he)
  | some e' =>
    have hdecide : decide (e'.address = e.address) = true :=
      List.find?_some (p := fun x : HashMapEntry κ ν => decide (x.address = e.address)) hfind
    have haddress := of_decide_eq_true hdecide
    rw [h.eq_of_address (mem_of_find?_eq_some hfind) he haddress]

theorem Inv.bucket_unique (h : Inv config m) (hi : m.elementData[i]? = some chain)
    (hj : m.elementData[j]? = some chain') (he : e ∈ chain) (he' : e' ∈ chain')
    (haddress : e.address = e'.address) : i = j := by
  have hsame := h.eq_of_address (mem_entries.mpr ⟨i, chain, hi, he⟩) (mem_entries.mpr ⟨j, chain', hj, he'⟩) haddress
  subst hsame
  exact (h.placed i chain hi e he).symm.trans (h.placed j chain' hj e he')

theorem Inv.nodup_chain (h : Inv config m) (hi : m.elementData[i]? = some chain) :
    (chain.map HashMapEntry.address).Nodup :=
  h.addresses.sublist ((sublist_flatten_of_mem (mem_of_getElem? hi)).map _)

theorem follow_of_notMem (h : ∀ e ∈ chain, e.address ≠ address) : follow address chain = [] := by
  induction chain with
  | nil => rfl
  | cons e chain ih =>
    rw [follow, if_neg (h e mem_cons_self)]
    exact ih fun e' he' => h e' (mem_cons_of_mem _ he')

theorem follow_append (h : ∀ e' ∈ front, e'.address ≠ e.address) : follow e.address (front ++ e :: back) = back := by
  induction front with
  | nil => exact if_pos rfl
  | cons e' front ih =>
    rw [cons_append, follow, if_neg (h e' mem_cons_self)]
    exact ih fun e'' he'' => h e'' (mem_cons_of_mem _ he'')

theorem relink_of_notMem (h : ∀ e ∈ chain, e.address ≠ address) : relink address chain' chain = chain := by
  induction chain with
  | nil => rfl
  | cons e chain ih =>
    rw [relink, if_neg (h e mem_cons_self), ih fun e' he' => h e' (mem_cons_of_mem _ he')]

theorem relink_append (h : ∀ e' ∈ front, e'.address ≠ e.address) :
    relink e.address chain (front ++ e :: back) = front ++ e :: chain := by
  induction front with
  | nil => exact if_pos rfl
  | cons e' front ih =>
    rw [cons_append, relink, if_neg (h e' mem_cons_self), cons_append]
    rw [ih fun e'' he'' => h e'' (mem_cons_of_mem _ he'')]

theorem Inv.address_front (h : Inv config m) (hi : m.elementData[i]? = some (front ++ e :: back)) :
    ∀ e' ∈ front, e'.address ≠ e.address := by
  have hnodup := h.nodup_chain hi
  rw [map_append, map_cons, nodup_middle, nodup_cons] at hnodup
  intro e' he' heq
  exact hnodup.1 (mem_append_left _ (heq ▸ mem_map_of_mem he'))

theorem flatMap_single {data : List (List α)} {chain : List α} {f : List α → List α}
    (hi : data[i]? = some chain) (hothers : ∀ (j : Nat) (c : List α), data[j]? = some c → j ≠ i → f c = []) :
    data.flatMap f = f chain := by
  induction data generalizing i with
  | nil => cases hi
  | cons head data ih =>
    rw [flatMap_cons]
    cases i with
    | zero =>
      cases hi
      have hrest : data.flatMap f = [] := by
        rw [flatMap_eq_nil_iff]
        intro c hc
        obtain ⟨j, hj⟩ := List.getElem?_of_mem hc
        exact hothers (j + 1) c hj (Nat.succ_ne_zero j)
      rw [hrest, append_nil]
    | succ i =>
      rw [hothers 0 head rfl (Nat.succ_ne_zero i).symm, nil_append]
      refine ih hi fun j c hj hne => hothers (j + 1) c hj fun heq => hne (Nat.succ.inj heq)

theorem Inv.nextOf_eq (h : Inv config m) (hi : m.elementData[i]? = some (front ++ e :: back)) :
    m.nextOf e.address = back := by
  rw [nextOf, flatMap_single hi, follow_append (h.address_front hi)]
  intro j c hj hne
  refine follow_of_notMem fun e' he' heq => hne ?_
  exact h.bucket_unique hj hi he' (mem_append_right _ mem_cons_self) heq

theorem Inv.map_relink (h : Inv config m) (hi : m.elementData[i]? = some (front ++ e :: back)) :
    m.elementData.map (relink e.address chain) = m.elementData.set i (front ++ e :: chain) := by
  apply ext_getElem?
  intro j
  rw [List.getElem?_map, List.getElem?_set]
  by_cases hij : i = j
  · subst hij
    have hlt : i < m.elementData.length := (List.getElem?_eq_some_iff.mp hi).1
    rw [if_pos rfl, if_pos hlt, hi, map_some, relink_append (h.address_front hi)]
  · rw [if_neg hij]
    cases hj : m.elementData[j]? with
    | none => rfl
    | some c =>
      rw [map_some, relink_of_notMem fun e' he' heq => hij ?_]
      exact (h.bucket_unique hj hi he' (mem_append_right _ mem_cons_self) heq).symm

theorem modify_eq_set {data : List α} {f : α → α} {a : α} (hi : data[i]? = some a) :
    data.modify i f = data.set i (f a) := by
  apply ext_getElem?
  intro j
  rw [List.getElem?_modify, List.getElem?_set]
  by_cases hij : i = j
  · subst hij
    obtain ⟨hlt, heq⟩ := List.getElem?_eq_some_iff.mp hi
    simp [hlt, heq]
  · simp [hij]

theorem Inv.unlinked [DecidableEq κ] (h : Inv config m) (hi : m.elementData[i]? = some (front ++ e :: back)) :
    Inv config { m with
      elementData := m.elementData.set i (front ++ back)
      modCount := m.modCount + 1
      elementCount := m.elementCount - 1 } ∧
      (get config · { m with
        elementData := m.elementData.set i (front ++ back)
        modCount := m.modCount + 1
        elementCount := m.elementCount - 1 }) = Function.update (get config · m) e.key none := by
  obtain ⟨rest, hbefore, hafter⟩ := flatten_modify_perm (fun _ => front ++ back) hi
  rw [modify_eq_set hi] at hafter
  refine h.of_removed ?_ ?_ ?_ rfl rfl
  · show 0 < (m.elementData.set i _).length
    rw [length_set]
    exact h.nonempty
  · intro j c hj e' he'
    rw [length_set]
    rw [List.getElem?_set] at hj
    split_ifs at hj with hij hlt
    · cases hj
      subst hij
      refine h.placed i _ hi e' ?_
      rw [mem_append] at he' ⊢
      exact he'.imp id (mem_cons_of_mem _)
    · exact h.placed j c hj e' he'
  · refine hbefore.trans ?_
    rw [append_assoc, cons_append]
    refine perm_middle.trans ?_
    rw [← append_assoc]
    exact hafter.symm.cons e

end HashMap

/-! ### An iterator at work -/

/-- Where an iterator stands in its chain: behind `before`, at its current entry or where that was, and in front
of `behind`. -/
structure Cursor {κ ν : Type} (m : HashMap κ ν) (it : AbstractMapIterator) (before : List (HashMapEntry κ ν))
    (here : Option (HashMapEntry κ ν)) (behind : List (HashMapEntry κ ν)) : Prop where
  current : it.currentEntry = here.map HashMapEntry.address
  future : it.futureEntry = behind.head?.map HashMapEntry.address
  chain : here ≠ none ∨ behind ≠ [] → it.prevEntry = before.getLast?.map HashMapEntry.address ∧
    ∃ i < it.position, m.elementData[i]? = some (before ++ here.toList ++ behind)

section Cursors

variable {κ ν : Type} {config : HashMapConfig κ} {m : HashMap κ ν} {it : AbstractMapIterator}
  {before behind : List (HashMapEntry κ ν)} {here : Option (HashMapEntry κ ν)} {e : HashMapEntry κ ν}

def pending (m : HashMap κ ν) (it : AbstractMapIterator) (behind : List (HashMapEntry κ ν)) : List (HashMapEntry κ ν) :=
  behind ++ (m.elementData.drop it.position).flatten

theorem drop_takeWhile_isEmpty (data : List (List (HashMapEntry κ ν))) :
    (data.drop (data.takeWhile List.isEmpty).length).flatten = data.flatten ∧
      (data.drop (data.takeWhile List.isEmpty).length = [] ∨
        ∃ e chain rest, data.drop (data.takeWhile List.isEmpty).length = (e :: chain) :: rest) := by
  induction data with
  | nil => exact ⟨rfl, .inl rfl⟩
  | cons chain data ih =>
    cases chain with
    | nil => exact ih
    | cons e chain => exact ⟨rfl, .inr ⟨e, chain, data, rfl⟩⟩

theorem pending_skipEmpty : pending m (it.skipEmpty m) behind = pending m it behind := by
  rw [pending, pending, AbstractMapIterator.skipEmpty, ← drop_drop, (drop_takeWhile_isEmpty _).1]

theorem skipEmpty_cases (m : HashMap κ ν) (it : AbstractMapIterator) :
    m.elementData.drop (it.skipEmpty m).position = [] ∨
      ∃ e chain rest, m.elementData.drop (it.skipEmpty m).position = (e :: chain) :: rest := by
  rw [AbstractMapIterator.skipEmpty, ← drop_drop]
  exact (drop_takeWhile_isEmpty _).2

theorem Cursor.skipEmpty (h : Cursor m it before here behind) : Cursor m (it.skipEmpty m) before here behind where
  current := h.current
  future := h.future
  chain := by
    intro hne
    obtain ⟨hprev, i, hi, hchain⟩ := h.chain hne
    exact ⟨hprev, i, Nat.lt_of_lt_of_le hi (Nat.le_add_right _ _), hchain⟩

theorem Cursor.future_eq_none (h : Cursor m it before here behind) : it.futureEntry = none ↔ behind = [] := by
  rw [h.future, map_eq_none_iff, List.head?_eq_none_iff]

theorem Cursor.checkHasNext (h : Cursor m it before here behind) :
    ((it.checkHasNext m).1 = true ↔ pending m it behind ≠ []) ∧
      Cursor m (it.checkHasNext m).2 before here behind ∧
      pending m (it.checkHasNext m).2 behind = pending m it behind := by
  rw [AbstractMapIterator.checkHasNext]
  split_ifs with hfuture
  · have hbehind : behind ≠ [] := fun heq => hfuture (h.future_eq_none.mpr heq)
    refine ⟨iff_of_true rfl fun heq => ?_, h, rfl⟩
    exact hbehind (append_eq_nil_iff.mp heq).1
  · have hbehind : behind = [] := h.future_eq_none.mp (not_not.mp hfuture)
    refine ⟨?_, h.skipEmpty, pending_skipEmpty⟩
    rw [← pending_skipEmpty, pending, hbehind, nil_append, decide_eq_true_eq]
    rcases skipEmpty_cases m it with hend | ⟨e, chain, rest, hdrop⟩
    · rw [hend]
      refine iff_of_false (fun hlt => ?_) fun hne => hne rfl
      exact absurd (drop_eq_nil_iff.mp hend) (not_le.mpr hlt)
    · rw [hdrop]
      refine iff_of_true ?_ (cons_ne_nil _ _)
      by_contra hge
      rw [drop_eq_nil_of_le (not_lt.mp hge)] at hdrop
      cases hdrop

theorem Cursor.advance (hinv : HashMap.Inv config m) (h : Cursor m it before here behind)
    {rest : List (HashMapEntry κ ν)}
    (hposition : behind = [] → ∃ e chain later, m.elementData.drop it.position = (e :: chain) :: later)
    (hpending : pending m it behind = e :: rest) :
    ∃ before' behind', Cursor m (it.advance m) before' (some e) behind' ∧ pending m (it.advance m) behind' = rest ∧
      (it.advance m).view = it.view ∧ (it.advance m).expectedModCount = it.expectedModCount := by
  cases behind with
  | nil =>
    obtain ⟨e₀, chain, later, hdrop⟩ := hposition rfl
    have hchain : m.elementData[it.position]? = some (e₀ :: chain) := by
      rw [← List.head?_drop, hdrop]
      rfl
    have hlater : m.elementData.drop (it.position + 1) = later := by
      rw [← tail_drop, hdrop]
      rfl
    rw [pending, hdrop] at hpending
    obtain ⟨rfl, rfl⟩ := List.cons.inj hpending
    have hadvance : it.advance m = { it with
        currentEntry := some e₀.address
        futureEntry := chain.head?.map HashMapEntry.address
        prevEntry := none
        position := it.position + 1 } := by
      rw [AbstractMapIterator.advance, h.future_eq_none.mpr rfl, getD_eq_getElem?_getD, hchain]
      rfl
    rw [hadvance]
    refine ⟨[], chain, ⟨rfl, rfl, fun _ => ⟨rfl, it.position, Nat.lt_succ_self _, hchain⟩⟩, ?_, rfl, rfl⟩
    rw [pending, hlater]
    rfl
  | cons e₀ behind =>
    obtain ⟨hprev, i, hi, hchain⟩ := h.chain (.inr (cons_ne_nil _ _))
    obtain ⟨rfl, rfl⟩ := List.cons.inj hpending
    have hadvance : it.advance m = { it with
        prevEntry := (before ++ here.toList).getLast?.map HashMapEntry.address
        currentEntry := some e₀.address
        futureEntry := behind.head?.map HashMapEntry.address } := by
      rw [AbstractMapIterator.advance, h.future]
      simp only [List.head?_cons, map_some]
      rw [hinv.nextOf_eq hchain, h.current, hprev]
      cases here with
      | none => simp
      | some c => simp
    rw [hadvance]
    refine ⟨before ++ here.toList, behind, ⟨rfl, rfl, fun _ => ⟨rfl, i, hi, ?_⟩⟩, rfl, rfl, rfl⟩
    rw [hchain, toList_some, append_assoc _ [e₀], singleton_append]

theorem Cursor.unlink (hinv : HashMap.Inv config m) (h : Cursor m it before (some e) behind) :
    ∃ i < it.position, m.elementData[i]? = some (before ++ e :: behind) ∧
      it.unlink m e = m.elementData.set i (before ++ behind) := by
  obtain ⟨hprev, i, hi, hchain⟩ := h.chain (.inl (some_ne_none _))
  rw [toList_some, append_assoc, singleton_append] at hchain
  refine ⟨i, hi, hchain, ?_⟩
  rw [AbstractMapIterator.unlink, hprev]
  rcases eq_nil_or_concat' before with rfl | ⟨front, prev, rfl⟩
  · have hindex := hinv.placed i _ hchain e mem_cons_self
    rw [List.getLast?_nil, map_none]
    simp only [hindex]
    rw [modify_eq_set hchain]
    rfl
  · rw [append_assoc, singleton_append] at hchain
    have hchain' : m.elementData[i]? = some ((front ++ [prev]) ++ e :: behind) := by
      rw [hchain, append_assoc, singleton_append]
    have hnext := hinv.nextOf_eq hchain'
    simp only [List.getLast?_append, List.getLast?_singleton, some_or, map_some]
    rw [hnext, hinv.map_relink hchain, append_assoc, singleton_append]

/-- An iterator and its abstract counterpart. -/
structure Follows (m : HashMap κ ν) (it : AbstractMapIterator) (abstract : SpecIterator κ) : Prop where
  view : abstract.view = it.view
  expected : it.expectedModCount ≤ m.modCount
  stale : abstract.stale = decide (it.expectedModCount ≠ m.modCount)
  live : it.expectedModCount = m.modCount → ∃ before here behind, Cursor m it before here behind ∧
    abstract.last = here.map HashMapEntry.key ∧
    abstract.remaining = fun key => ∃ e ∈ pending m it behind, e.key = key

variable {m' : HashMap κ ν} {abstract : SpecIterator κ}

theorem Follows.stale_eq_true (h : Follows m it abstract) (hne : it.expectedModCount ≠ m.modCount) :
    abstract.stale = true := by
  rw [h.stale, decide_eq_true hne]

theorem Follows.stale_eq_false (h : Follows m it abstract) (heq : it.expectedModCount = m.modCount) :
    abstract.stale = false := by
  rw [h.stale, decide_eq_false (not_not.mpr heq)]

theorem Follows.invalidate (h : Follows m it abstract) (hlt : m.modCount < m'.modCount) :
    Follows m' it { abstract with stale := true } where
  view := h.view
  expected := Nat.le_of_lt (Nat.lt_of_le_of_lt h.expected hlt)
  stale := (decide_eq_true (Nat.ne_of_lt (Nat.lt_of_le_of_lt h.expected hlt))).symm
  live := fun heq => absurd heq (Nat.ne_of_lt (Nat.lt_of_le_of_lt h.expected hlt))

theorem Follows.of_stale (h : Follows m it abstract) (hne : it.expectedModCount ≠ m.modCount)
    (hmod : m'.modCount = m.modCount) : Follows m' it abstract where
  view := h.view
  expected := hmod ▸ h.expected
  stale := by rw [h.stale, hmod]
  live := fun heq => absurd (heq.trans hmod) hne

theorem follows_new (view : View) (m : HashMap κ ν) {f : κ → Option ν}
    (hf : ∀ key, f key ≠ none ↔ ∃ e ∈ m.entries, e.key = key) :
    Follows m { view := view, expectedModCount := m.modCount } { view := view, remaining := fun key => f key ≠ none } where
  view := rfl
  expected := Nat.le_refl _
  stale := (decide_eq_false (not_not.mpr rfl)).symm
  live := by
    refine fun _ => ⟨[], none, [], ⟨rfl, rfl, fun hne => ?_⟩, rfl, ?_⟩
    · rcases hne with hne | hne
      · exact absurd rfl hne
      · exact absurd rfl hne
    · funext key
      exact propext (hf key)

open HashMap in
theorem Cursor.setValue (h : Cursor m it before here behind) (address : Nat) (value : ν) :
    Cursor (m.setValue address value) it (before.map (assign address value)) (here.map (assign address value))
      (behind.map (assign address value)) where
  current := by
    rw [h.current, Option.map_map]
    congr 1
    funext e
    exact (assign_eq address value e).1.symm
  future := by
    rw [h.future, List.head?_map, Option.map_map]
    congr 1
    funext e
    exact (assign_eq address value e).1.symm
  chain := by
    intro hne
    have hne' : here ≠ none ∨ behind ≠ [] := by
      rcases hne with hne | hne
      · exact .inl fun heq => hne (by rw [heq]; rfl)
      · exact .inr fun heq => hne (by rw [heq]; rfl)
    obtain ⟨hprev, i, hi, hchain⟩ := h.chain hne'
    refine ⟨?_, i, hi, ?_⟩
    · rw [hprev, List.getLast?_map, Option.map_map]
      congr 1
      funext e
      exact (assign_eq address value e).1.symm
    · show (m.elementData.map (List.map (assign address value)))[i]? = _
      rw [List.getElem?_map, hchain, Option.map_some, List.map_append, List.map_append]
      cases here <;> rfl

theorem pending_setValue (address : Nat) (value : ν) :
    pending (m.setValue address value) it (behind.map (assign address value)) =
      (pending m it behind).map (assign address value) := by
  rw [pending, pending, map_append, map_flatten, map_drop]
  rfl

theorem Follows.setValue (h : Follows m it abstract) (address : Nat) (value : ν) :
    Follows (m.setValue address value) it abstract where
  view := h.view
  expected := h.expected
  stale := h.stale
  live := by
    intro heq
    obtain ⟨before, here, behind, hcursor, hlast, hremaining⟩ := h.live heq
    refine ⟨_, _, _, hcursor.setValue address value, ?_, ?_⟩
    · rw [hlast, Option.map_map]
      congr 1
      funext e
      exact (assign_eq address value e).2.1.symm
    · rw [hremaining]
      funext key
      rw [pending_setValue]
      refine propext ⟨?_, ?_⟩
      · rintro ⟨e, he, rfl⟩
        exact ⟨_, mem_map_of_mem he, (assign_eq address value e).2.1⟩
      · rintro ⟨_, he, rfl⟩
        obtain ⟨e, he', rfl⟩ := mem_map.mp he
        exact ⟨e, he', (assign_eq address value e).2.1.symm⟩

theorem sublist_pending (h : Cursor m it before here behind) : (pending m it behind).Sublist m.entries := by
  have hsplit : m.entries = (m.elementData.take it.position).flatten ++ (m.elementData.drop it.position).flatten := by
    rw [← flatten_append, take_append_drop]
    rfl
  rw [hsplit, pending]
  refine List.Sublist.append ?_ (List.Sublist.refl _)
  cases behind with
  | nil => exact nil_sublist _
  | cons e behind =>
    obtain ⟨-, i, hi, hchain⟩ := h.chain (.inr (cons_ne_nil _ _))
    have hmem : before ++ here.toList ++ e :: behind ∈ m.elementData.take it.position := by
      apply mem_of_getElem? (i := i)
      rw [List.getElem?_take_of_lt hi, hchain]
    exact (sublist_append_right _ _).trans (sublist_flatten_of_mem hmem)

theorem keys_pending (hinv : HashMap.Inv config m) (h : Cursor m it before here behind) :
    ((pending m it behind).map HashMapEntry.key).Nodup :=
  hinv.keys.sublist ((sublist_pending h).map _)

theorem checkHasNext_config (m : HashMap κ ν) (it : AbstractMapIterator) :
    (it.checkHasNext m).2.view = it.view ∧ (it.checkHasNext m).2.expectedModCount = it.expectedModCount := by
  rw [AbstractMapIterator.checkHasNext]
  split_ifs <;> exact ⟨rfl, rfl⟩

theorem Follows.checkHasNext (h : Follows m it abstract) : Follows m (it.checkHasNext m).2 abstract := by
  obtain ⟨hview, hexpected⟩ := checkHasNext_config m it
  refine ⟨h.view.trans hview.symm, by rw [hexpected]; exact h.expected, by rw [hexpected]; exact h.stale, fun heq => ?_⟩
  obtain ⟨before, here, behind, hcursor, hlast, hremaining⟩ := h.live (hexpected ▸ heq)
  obtain ⟨-, hcursor', hpending⟩ := hcursor.checkHasNext
  exact ⟨before, here, behind, hcursor', hlast, by rw [hremaining, hpending]⟩

theorem Follows.hasNext (h : Follows m it abstract) (hfresh : abstract.stale = false) :
    (it.checkHasNext m).1 = true ↔ abstract.remaining.Nonempty := by
  have heq : it.expectedModCount = m.modCount := by
    by_contra hne
    rw [h.stale_eq_true hne] at hfresh
    cases hfresh
  obtain ⟨before, here, behind, hcursor, -, hremaining⟩ := h.live heq
  rw [hcursor.checkHasNext.1, hremaining]
  constructor
  · intro hne
    obtain ⟨e, he⟩ := exists_mem_of_ne_nil _ hne
    exact ⟨e.key, e, he, rfl⟩
  · rintro ⟨key, e, he, -⟩
    exact ne_nil_of_mem he

theorem Follows.next [DecidableEq κ] (hinv : HashMap.Inv config m) (h : Follows m it abstract)
    (heq : it.expectedModCount = m.modCount) :
    (abstract.remaining = ∅ ∧ (it.next m).1 = .noSuchElementException ∧ Follows m (it.next m).2 abstract) ∨
      ∃ key ∈ abstract.remaining, ∃ value, m.get config key = some value ∧
        (it.next m).1 = abstract.view.answer key value ∧ Follows m (it.next m).2 (abstract.visit key) := by
  obtain ⟨before, here, behind, hcursor, hlast, hremaining⟩ := h.live heq
  obtain ⟨hhas, hcursor', hpending'⟩ := hcursor.checkHasNext
  obtain ⟨hview', hexpected'⟩ := checkHasNext_config m it
  have hnext : it.next m = if (it.checkHasNext m).1 then
      match (((it.checkHasNext m).2.advance m).currentEntry).bind m.entryAt with
      | some e => (((it.checkHasNext m).2.advance m).view.answer e.key e.value, (it.checkHasNext m).2.advance m)
      | none => (.dangling, (it.checkHasNext m).2.advance m)
      else (.noSuchElementException, (it.checkHasNext m).2) := by
    rw [AbstractMapIterator.next, if_neg (not_not.mpr heq)]
  cases hrest : pending m it behind with
  | nil =>
    have hfalse : (it.checkHasNext m).1 = false := by
      rw [Bool.eq_false_iff, ne_eq, hhas, hrest]
      exact not_not.mpr rfl
    rw [hnext, hfalse, if_neg Bool.false_ne_true]
    refine .inl ⟨?_, rfl, h.checkHasNext⟩
    rw [hremaining, hrest]
    refine Set.eq_empty_of_forall_notMem ?_
    rintro key ⟨e, he, -⟩
    cases he
  | cons e rest =>
    have htrue : (it.checkHasNext m).1 = true := hhas.mpr (by rw [hrest]; exact cons_ne_nil _ _)
    have hposition : behind = [] → ∃ e chain later,
        m.elementData.drop (it.checkHasNext m).2.position = (e :: chain) :: later := by
      intro hbehind
      have hskip : (it.checkHasNext m).2 = it.skipEmpty m := by
        rw [AbstractMapIterator.checkHasNext, if_neg (not_not.mpr (hcursor.future_eq_none.mpr hbehind))]
      rw [hskip] at hpending' ⊢
      rcases skipEmpty_cases m it with hend | hfound
      · rw [hrest, pending, hbehind, hend] at hpending'
        cases hpending'
      · exact hfound
    obtain ⟨before', behind', hadvanced, hrest', hview, hexpected⟩ :=
      hcursor'.advance hinv hposition (hpending'.trans hrest)
    have hmem : e ∈ m.entries := (sublist_pending hcursor).subset (hrest ▸ mem_cons_self)
    rw [hnext, htrue, if_pos rfl, hadvanced.current]
    simp only [map_some, bind_some, hinv.entryAt_eq hmem]
    refine .inr ⟨e.key, ?_, e.value, hinv.get_eq_some.mpr ⟨e, hmem, rfl, rfl⟩, ?_, ?_⟩
    · rw [hremaining]
      exact ⟨e, hrest ▸ mem_cons_self, rfl⟩
    · rw [hview, hview', h.view]
    · refine ⟨?_, ?_, ?_, fun _ => ⟨before', some e, behind', hadvanced, rfl, ?_⟩⟩
      · exact h.view.trans (hview'.symm.trans hview.symm)
      · rw [hexpected, hexpected']
        exact h.expected
      · rw [hexpected, hexpected']
        exact h.stale
      · have hnodup := keys_pending hinv hcursor
        rw [hrest, map_cons, nodup_cons] at hnodup
        rw [hrest']
        funext key
        show (abstract.remaining key ∧ ¬key = e.key) = _
        rw [hremaining, hrest]
        refine propext ⟨?_, ?_⟩
        · rintro ⟨⟨e', he', rfl⟩, hne⟩
          rcases mem_cons.mp he' with rfl | hmem'
          · exact absurd rfl hne
          · exact ⟨e', hmem', rfl⟩
        · rintro ⟨e', he', rfl⟩
          refine ⟨⟨e', mem_cons_of_mem _ he', rfl⟩, fun hsame => ?_⟩
          exact hnodup.1 (hsame ▸ mem_map_of_mem he')

theorem Follows.doRemove [DecidableEq κ] (hinv : HashMap.Inv config m) (h : Follows m it abstract)
    (heq : it.expectedModCount = m.modCount) :
    (abstract.last = none ∧ it.doRemove m = (.illegalStateException, it, m)) ∨
      ∃ key it' m', abstract.last = some key ∧ it.doRemove m = (.done, it', m') ∧ HashMap.Inv config m' ∧
        m'.get config = Function.update (m.get config) key none ∧ m'.modCount = m.modCount + 1 ∧
        Follows m' it' { abstract with last := none } := by
  obtain ⟨before, here, behind, hcursor, hlast, hremaining⟩ := h.live heq
  rw [AbstractMapIterator.doRemove, if_neg (not_not.mpr heq), hcursor.current]
  cases here with
  | none => exact .inl ⟨hlast, rfl⟩
  | some e =>
    obtain ⟨i, hi, hchain, hunlink⟩ := hcursor.unlink hinv
    have hmem : e ∈ m.entries :=
      mem_entries.mpr ⟨i, _, hchain, mem_append_right _ mem_cons_self⟩
    obtain ⟨hinv', hget⟩ := hinv.unlinked hchain
    simp only [map_some, hinv.entryAt_eq hmem, hunlink]
    refine .inr ⟨e.key, _, _, hlast, rfl, hinv', hget, rfl, ?_⟩
    refine ⟨h.view, Nat.succ_le_succ h.expected, ?_, fun _ => ⟨before, none, behind, ⟨rfl, hcursor.future, ?_⟩, rfl, ?_⟩⟩
    · rw [h.stale_eq_false heq]
      exact (decide_eq_false (not_not.mpr (congrArg (· + 1) heq))).symm
    · intro hne
      refine ⟨(hcursor.chain (.inl (some_ne_none _))).1, i, hi, ?_⟩
      have hlt : i < m.elementData.length := (List.getElem?_eq_some_iff.mp hchain).1
      show (m.elementData.set i (before ++ behind))[i]? = _
      rw [List.getElem?_set_self hlt, toList_none, append_nil]
    · have hlater : (m.elementData.set i (before ++ behind)).drop it.position = m.elementData.drop it.position :=
        drop_set_of_lt hi
      simp only [pending, hlater]
      exact hremaining

end Cursors

/-! ### Refinement -/

section Refinement

variable {κ ν : Type}
variable {m : HashMap κ ν} {its : List AbstractMapIterator} {abstracts : List (SpecIterator κ)} {key : κ}
  {entries : List (κ × ν)}
variable {m' : HashMap κ ν} {f : κ → Option ν}

/-- What a change of the keys from outside does to the iterators. -/
theorem follows_invalidate (h : List.Forall₂ (Follows m) its abstracts) (hlt : m.modCount < m'.modCount) :
    List.Forall₂ (Follows m') its (SpecMap.invalidate abstracts) := by
  rw [SpecMap.invalidate, forall₂_map_right_iff]
  exact h.imp fun it abstract hit => hit.invalidate hlt

theorem follows_stale
    (h : List.Forall₂ (Follows m) its abstracts) (hstale : ∀ it ∈ its, it.expectedModCount ≠ m.modCount)
    (hmod : m'.modCount = m.modCount) : List.Forall₂ (Follows m') its abstracts := by
  induction h with
  | nil => exact .nil
  | cons hhead htail ih =>
    refine .cons (hhead.of_stale (hstale _ mem_cons_self) hmod) (ih fun it hit => ?_)
    exact hstale it (mem_cons_of_mem _ hit)

theorem follows_set
    (h : List.Forall₂ (Follows m) its abstracts) (i : Nat) {it : AbstractMapIterator} {abstract : SpecIterator κ}
    (hit : Follows m it abstract) : List.Forall₂ (Follows m) (its.set i it) (abstracts.set i abstract) := by
  induction h generalizing i with
  | nil => exact .nil
  | cons hhead htail ih =>
    cases i with
    | zero => exact .cons hit htail
    | succ i => exact .cons hhead (ih i)

theorem follows_getElem? (h : List.Forall₂ (Follows m) its abstracts) (i : Nat) :
    its[i]? = none ∧ abstracts[i]? = none ∨
      ∃ it abstract, its[i]? = some it ∧ abstracts[i]? = some abstract ∧ Follows m it abstract := by
  induction h generalizing i with
  | nil => exact .inl ⟨rfl, rfl⟩
  | cons hhead htail ih =>
    cases i with
    | zero => exact .inr ⟨_, _, rfl, rfl, hhead⟩
    | succ i => exact ih i

theorem set_of_getElem? {α : Type} {l : List α} {i : Nat} {a : α} (h : l[i]? = some a) : l.set i a = l := by
  obtain ⟨hlt, rfl⟩ := List.getElem?_eq_some_iff.mp h
  exact set_getElem_self hlt

theorem isNone_eq_true (h : f key = none) : (f key).isNone = true := by rw [h]; rfl

theorem isNone_eq_false (h : f key ≠ none) : (f key).isNone = false := by
  cases hf : f key with
  | none => exact absurd hf h
  | some _ => rfl

variable [DecidableEq κ] {config : HashMapConfig κ}

structure Refines (config : HashMapConfig κ) (s : MapState κ ν) (t : SpecMap κ ν) : Prop where
  inv : HashMap.Inv config s.map
  map : t.map = s.map.get config
  iterators : List.Forall₂ (Follows s.map) s.iterators t.iterators

variable [Inhabited ν] {s : MapState κ ν} {t : SpecMap κ ν}

/-- The room that `putAllImpl` makes before it puts the entries. -/
def roomFor (config : HashMapConfig κ) (count : Nat) (m : HashMap κ ν) : HashMap κ ν :=
  if m.elementCount + count > m.threshold then (m.rehash config (m.elementCount + count)).getD m else m

def EachFits (config : HashMapConfig κ) : List (κ × ν) → HashMap κ ν → Prop
  | [], _ => True
  | e :: entries, m => HashMap.PutFits config e.1 m ∧ EachFits config entries (m.putImpl config e.1 e.2).2

/-- Whether `putAll` enlarges the table although it adds no key. -/
def RehashesInPlace (config : HashMapConfig κ) (entries : List (κ × ν)) (m : HashMap κ ν) : Prop :=
  entries ≠ [] ∧ m.elementCount + entries.length > m.threshold ∧ ∀ e ∈ entries, m.get config e.1 ≠ none

/-- No table becomes too large, and none is enlarged under an iterator at work without a new key. -/
def Orderly (config : HashMapConfig κ) (s : MapState κ ν) : MapOp κ ν → Prop
  | .put key _ => HashMap.PutFits config key s.map
  | .putAll entries =>
    (s.map.elementCount + entries.length > s.map.threshold → s.map.elementCount + entries.length < 2 ^ 30) ∧
    EachFits config entries (roomFor config entries.length s.map) ∧
    (RehashesInPlace config entries s.map → ∀ it ∈ s.iterators, it.expectedModCount ≠ s.map.modCount)
  | _ => True

theorem putImpl_eq (hinv : HashMap.Inv config m) (hfits : HashMap.PutFits config key m)
    (value : ν) : ∃ m', m.putImpl config key value = (some (m.get config key), m') ∧ HashMap.Inv config m' ∧
      m'.get config = Function.update (m.get config) key (some value) ∧
      (m.get config key = none ∧ m'.modCount = m.modCount + 1 ∨
        m.get config key ≠ none ∧ m'.modCount = m.modCount ∧
          ∀ it abstract, Follows m it abstract → Follows m' it abstract) := by
  cases hentry : m.getEntry config key with
  | none =>
    have hnone := get_eq_none.mpr hentry
    obtain ⟨m', hput, hinv', hget, hmod⟩ := hinv.putImpl_of_none hentry hfits value
    exact ⟨m', by rw [hput, hnone], hinv', hget, .inl ⟨hnone, hmod⟩⟩
  | some e =>
    obtain ⟨hmem, rfl⟩ := hinv.getEntry_eq_some.mp hentry
    have hsome : m.get config e.key ≠ none := by
      rw [HashMap.get, hentry]
      exact some_ne_none _
    refine ⟨_, putImpl_of_some hentry value, hinv.setValue _ _, get_setValue hinv hmem value, ?_⟩
    exact .inr ⟨hsome, rfl, fun it abstract h => h.setValue _ _⟩

theorem putEach_eq (hinv : HashMap.Inv config m)
    (hfits : EachFits config entries m) : ∃ m', m.putEach config entries = (some (), m') ∧ HashMap.Inv config m' ∧
      m'.get config = entries.foldl (fun (map : κ → Option ν) e => Function.update map e.1 (some e.2)) (m.get config) ∧
      ((entries.any fun e => (m.get config e.1).isNone) = true ∧ m.modCount < m'.modCount ∨
        (entries.any fun e => (m.get config e.1).isNone) = false ∧ m'.modCount = m.modCount ∧
          ∀ it abstract, Follows m it abstract → Follows m' it abstract) := by
  induction entries generalizing m with
  | nil => exact ⟨m, rfl, hinv, rfl, .inr ⟨rfl, rfl, fun _ _ h => h⟩⟩
  | cons e entries ih =>
    obtain ⟨m₁, hput, hinv₁, hget₁, hiterators₁⟩ := putImpl_eq hinv hfits.1 e.2
    have hrest := hfits.2
    rw [hput] at hrest
    obtain ⟨m₂, heach, hinv₂, hget₂, hiterators₂⟩ := ih hinv₁ hrest
    refine ⟨m₂, ?_, hinv₂, ?_, ?_⟩
    · rw [putEach, hput]
      exact heach
    · rw [hget₂, hget₁, foldl_cons]
    · have hle : m₁.modCount ≤ m₂.modCount := by
        rcases hiterators₂ with ⟨-, hlt⟩ | ⟨-, heq, -⟩
        · exact Nat.le_of_lt hlt
        · exact Nat.le_of_eq heq.symm
      rw [any_cons]
      rcases hiterators₁ with ⟨hnone, hmod⟩ | ⟨hsome, hmod, hfollows⟩
      · left
        rw [isNone_eq_true hnone, Bool.true_or]
        exact ⟨rfl, by omega⟩
      · -- the keys that are missing are the same ones after the first entry
        have hany : (entries.any fun e' => (m₁.get config e'.1).isNone) =
            entries.any fun e' => (m.get config e'.1).isNone := by
          congr 1
          funext e'
          have hat := congrFun hget₁ e'.1
          simp only [Function.update_apply] at hat
          rw [hat]
          split_ifs with heq
          · rw [heq]
            exact (isNone_eq_false hsome).symm
          · rfl
        rw [isNone_eq_false hsome, Bool.false_or, ← hany, ← hmod]
        rcases hiterators₂ with hnew | ⟨hold, heq, hfollows₂⟩
        · exact .inl hnew
        · exact .inr ⟨hold, heq, fun it abstract h => hfollows₂ it abstract (hfollows it abstract h)⟩

variable [DecidableEq ν]

theorem refines_put (h : Refines config s t) {value : ν} (horderly : Orderly config s (.put key value)) :
    ∃ t', t.Step (.put key value) (s.step config (.put key value)).1 t' ∧
      Refines config (s.step config (.put key value)).2 t' := by
  obtain ⟨m', hput, hinv, hget, hiterators⟩ := putImpl_eq h.inv horderly value
  have hstep : s.step config (.put key value) = (.replaced (s.map.get config key), { s with map := m' }) := by
    rw [MapState.step, hput]
  rw [hstep]
  refine ⟨_, ⟨by rw [h.map], rfl⟩, hinv, by rw [hget, h.map], ?_⟩
  rcases hiterators with ⟨hnone, hmod⟩ | ⟨hsome, -, hfollows⟩
  · rw [h.map, isNone_eq_true hnone, if_pos rfl]
    exact follows_invalidate h.iterators (hmod ▸ Nat.lt_succ_self _)
  · rw [h.map, isNone_eq_false hsome, if_neg Bool.false_ne_true]
    exact h.iterators.imp hfollows

omit [DecidableEq ν] in
theorem roomFor_eq (h : Refines config s t) (hne : entries ≠ []) (horderly : Orderly config s (.putAll entries)) :
    ∃ m, roomFor config entries.length s.map = m ∧ s.map.putAll config entries = m.putEach config entries ∧
      HashMap.Inv config m ∧ m.get config = s.map.get config ∧ m.modCount = s.map.modCount ∧
      ((entries.any fun e => (s.map.get config e.1).isNone) = false →
        List.Forall₂ (Follows m) s.iterators t.iterators) := by
  obtain ⟨hroom, -, hplace⟩ := horderly
  have hempty : entries.isEmpty = false := isEmpty_eq_false_iff.mpr hne
  by_cases hgrow : s.map.elementCount + entries.length > s.map.threshold
  · obtain ⟨m, hrehash, hinv, hperm, hmod, -⟩ := h.inv.rehash (hroom hgrow)
    refine ⟨m, ?_, ?_, hinv, get_of_perm h.inv hinv hperm, hmod, fun hall => ?_⟩
    · rw [roomFor, if_pos hgrow, hrehash]
      rfl
    · rw [putAll, hempty, if_neg Bool.false_ne_true, if_pos hgrow, hrehash]
    · have hplace' : RehashesInPlace config entries s.map := by
        refine ⟨hne, hgrow, fun e he hnone => ?_⟩
        have hfalse := any_eq_false.mp hall e he
        rw [isNone_eq_true hnone] at hfalse
        exact hfalse rfl
      have hstale := hplace hplace'
      exact follows_stale h.iterators hstale hmod
  · refine ⟨s.map, ?_, ?_, h.inv, rfl, rfl, fun _ => h.iterators⟩
    · rw [roomFor, if_neg hgrow]
    · rw [putAll, hempty, if_neg Bool.false_ne_true, if_neg hgrow]

theorem refines_putAll (h : Refines config s t) (horderly : Orderly config s (.putAll entries)) :
    ∃ t', t.Step (.putAll entries) (s.step config (.putAll entries)).1 t' ∧
      Refines config (s.step config (.putAll entries)).2 t' := by
  by_cases hne : entries = []
  · subst hne
    exact ⟨t, ⟨rfl, rfl⟩, h⟩
  · obtain ⟨m₁, hroomFor, hputAll, hinv₁, hget₁, hmod₁, hfollows₁⟩ := roomFor_eq h hne horderly
    have heach := horderly.2.1
    rw [hroomFor] at heach
    obtain ⟨m₂, hputEach, hinv₂, hget₂, hiterators⟩ := putEach_eq hinv₁ heach
    have hstep : s.step config (.putAll entries) = (.done, { s with map := m₂ }) := by
      rw [MapState.step, hputAll, hputEach]
    rw [hstep]
    have hany : (entries.any fun e => (m₁.get config e.1).isNone) = entries.any fun e => (t.map e.1).isNone := by
      congr 1
      funext e
      rw [h.map, ← hget₁]
    have hany' : (entries.any fun e => (s.map.get config e.1).isNone) = entries.any fun e => (t.map e.1).isNone := by
      congr 1
      funext e
      rw [h.map]
    refine ⟨_, ⟨rfl, rfl⟩, hinv₂, ?_, ?_⟩
    · rw [hget₂, hget₁, h.map]
    · rw [hany] at hiterators
      rcases hiterators with ⟨hnew, hlt⟩ | ⟨hold, -, hfollows⟩
      · rw [hnew, if_pos rfl]
        exact follows_invalidate h.iterators (hmod₁ ▸ hlt)
      · rw [hold, if_neg Bool.false_ne_true]
        exact (hfollows₁ (hany'.trans hold)).imp hfollows

theorem refines_remove (h : Refines config s t) (key : κ) :
    ∃ t', t.Step (.remove key) (s.step config (.remove key)).1 t' ∧ Refines config (s.step config (.remove key)).2 t' := by
  cases hentry : s.map.getEntry config key with
  | none =>
    have hremove : s.map.removeEntry config key = none := by rw [removeEntry, hentry]
    rw [MapState.step, hremove]
    refine ⟨t, .inr ⟨?_, rfl, rfl⟩, h⟩
    rw [h.map]
    exact get_eq_none.mpr hentry
  | some e =>
    obtain ⟨hmem, hkey⟩ := h.inv.getEntry_eq_some.mp hentry
    obtain ⟨m', hremove, hinv, hget, hmod⟩ := h.inv.removeEntry hentry
    rw [MapState.step, hremove]
    refine ⟨_, .inl ⟨e.value, ?_, rfl, rfl⟩, hinv, by rw [hget, h.map], ?_⟩
    · rw [h.map]
      exact h.inv.get_eq_some.mpr ⟨e, hmem, hkey, rfl⟩
    · exact follows_invalidate h.iterators (hmod ▸ Nat.lt_succ_self _)

theorem refines_clear (h : Refines config s t) :
    ∃ t', t.Step .clear (s.step config .clear).1 t' ∧ Refines config (s.step config .clear).2 t' := by
  rw [MapState.step]
  by_cases hcount : s.map.elementCount = 0
  · refine ⟨t, ⟨rfl, .inl ⟨?_, rfl⟩⟩, ?_⟩
    · rw [h.map]
      exact h.inv.count_eq_zero.mp hcount
    · rw [clear_of_empty hcount]
      exact h
  · obtain ⟨hinv, hget, hmod⟩ := h.inv.clear (Nat.pos_of_ne_zero hcount)
    refine ⟨_, ⟨rfl, .inr ⟨?_, rfl⟩⟩, hinv, hget.symm, follows_invalidate h.iterators (hmod ▸ Nat.lt_succ_self _)⟩
    rw [h.map]
    by_contra hnone
    exact hcount (h.inv.count_eq_zero.mpr fun key => not_not.mp fun hne => hnone ⟨key, hne⟩)

theorem refines_iterator (h : Refines config s t) (view : View) :
    ∃ t', t.Step (.iterator view) (s.step config (.iterator view)).1 t' ∧
      Refines config (s.step config (.iterator view)).2 t' := by
  refine ⟨_, ⟨rfl, rfl⟩, h.inv, h.map, ?_⟩
  refine rel_append h.iterators (.cons (follows_new view s.map fun key => ?_) .nil)
  rw [h.map, ne_none_iff_exists']
  simp only [h.inv.get_eq_some]
  constructor
  · rintro ⟨value, e, he, hkey, -⟩
    exact ⟨e, he, hkey⟩
  · rintro ⟨e, he, hkey⟩
    exact ⟨e.value, e, he, hkey, rfl⟩

theorem refines_hasNext (h : Refines config s t) (i : Nat) :
    ∃ t', t.Step (.hasNext i) (s.step config (.hasNext i)).1 t' ∧ Refines config (s.step config (.hasNext i)).2 t' := by
  rw [MapState.step]
  rcases follows_getElem? h.iterators i with ⟨hit, habstract⟩ | ⟨it, abstract, hit, habstract, hfollows⟩
  · rw [hit]
    refine ⟨t, ⟨rfl, ?_⟩, h⟩
    rw [habstract]
  · rw [hit]
    refine ⟨t, ⟨rfl, ?_⟩, h.inv, h.map, ?_⟩
    · rw [habstract]
      exact ⟨_, rfl, hfollows.hasNext⟩
    · have hset := follows_set h.iterators i hfollows.checkHasNext
      rwa [set_of_getElem? habstract] at hset

theorem refines_next (h : Refines config s t) (i : Nat) :
    ∃ t', t.Step (.next i) (s.step config (.next i)).1 t' ∧ Refines config (s.step config (.next i)).2 t' := by
  rw [MapState.step]
  rcases follows_getElem? h.iterators i with ⟨hit, habstract⟩ | ⟨it, abstract, hit, habstract, hfollows⟩
  · rw [hit]
    refine ⟨t, ?_, h⟩
    rw [SpecMap.Step, habstract]
    exact ⟨rfl, rfl⟩
  · rw [hit]
    simp only [SpecMap.Step, habstract]
    have hsame : Follows s.map (it.next s.map).2 abstract →
        List.Forall₂ (Follows s.map) (s.iterators.set i (it.next s.map).2) t.iterators := by
      intro hnext
      have hset := follows_set h.iterators i hnext
      rwa [set_of_getElem? habstract] at hset
    by_cases heq : it.expectedModCount = s.map.modCount
    · have hfresh := hfollows.stale_eq_false heq
      rcases hfollows.next h.inv heq with ⟨hempty, hanswer, hnext⟩ | ⟨key, hkey, value, hvalue, hanswer, hnext⟩
      · refine ⟨t, .inr (.inl ⟨hfresh, hempty, hanswer, rfl⟩), h.inv, h.map, hsame hnext⟩
      · refine ⟨_, .inr (.inr ⟨hfresh, key, hkey, value, ?_, hanswer, rfl⟩), h.inv, h.map, ?_⟩
        · rw [h.map]
          exact hvalue
        · exact follows_set h.iterators i hnext
    · have hnext : it.next s.map = (.concurrentModificationException, it) := if_pos heq
      refine ⟨t, .inl ⟨hfollows.stale_eq_true heq, by rw [hnext], rfl⟩, h.inv, h.map, hsame ?_⟩
      rw [hnext]
      exact hfollows

theorem refines_removeCurrent (h : Refines config s t) (i : Nat) :
    ∃ t', t.Step (.removeCurrent i) (s.step config (.removeCurrent i)).1 t' ∧
      Refines config (s.step config (.removeCurrent i)).2 t' := by
  rw [MapState.step]
  rcases follows_getElem? h.iterators i with ⟨hit, habstract⟩ | ⟨it, abstract, hit, habstract, hfollows⟩
  · rw [hit]
    refine ⟨t, ?_, h⟩
    rw [SpecMap.Step, habstract]
    exact ⟨rfl, rfl⟩
  · rw [hit]
    simp only [SpecMap.Step, habstract]
    have hsame : s.iterators.set i it = s.iterators := set_of_getElem? hit
    by_cases heq : it.expectedModCount = s.map.modCount
    · have hfresh := hfollows.stale_eq_false heq
      rcases hfollows.doRemove h.inv heq with ⟨hlast, hremove⟩ |
        ⟨key, it', m', hlast, hremove, hinv, hget, hmod, hfollows'⟩
      · rw [hremove, hsame]
        exact ⟨t, .inr (.inl ⟨hfresh, hlast, rfl, rfl⟩), h⟩
      · rw [hremove]
        refine ⟨_, .inr (.inr ⟨hfresh, key, hlast, rfl, rfl⟩), hinv, by rw [hget, h.map], ?_⟩
        have hlt : s.map.modCount < m'.modCount := hmod ▸ Nat.lt_succ_self _
        exact follows_set (follows_invalidate h.iterators hlt) i hfollows'
    · have hremove : it.doRemove s.map = (.concurrentModificationException, it, s.map) := if_pos heq
      rw [hremove, hsame]
      exact ⟨t, .inl ⟨hfollows.stale_eq_true heq, rfl, rfl⟩, h⟩

theorem refines_step (h : Refines config s t) (op : MapOp κ ν) (horderly : Orderly config s op) :
    ∃ t', t.Step op (s.step config op).1 t' ∧ Refines config (s.step config op).2 t' := by
  cases op with
  | put key value => exact refines_put h horderly
  | putAll entries => exact refines_putAll h horderly
  | remove key => exact refines_remove h key
  | clear => exact refines_clear h
  | get key =>
    have hmap : t.map key = s.map.get config key := by rw [h.map]
    rw [MapState.step]
    cases hget : s.map.get config key with
    | none => exact ⟨t, ⟨rfl, by rw [hmap, hget]⟩, h⟩
    | some value => exact ⟨t, ⟨rfl, by rw [hmap, hget]⟩, h⟩
  | containsKey key =>
    refine ⟨t, ⟨rfl, ?_⟩, h⟩
    rw [h.map]
    show MapAnswer.bool (s.map.getEntry config key).isSome = .bool ((s.map.getEntry config key).map _).isSome
    rw [isSome_map]
  | containsValue value =>
    refine ⟨t, ⟨rfl, _, rfl, ?_⟩, h⟩
    rw [h.map]
    exact h.inv.containsValue
  | iterator view => exact refines_iterator h view
  | hasNext i => exact refines_hasNext h i
  | next i => exact refines_next h i
  | removeCurrent i => exact refines_removeCurrent h i

end Refinement

/-- Numbers hash to themselves; the load factor is 0.75. -/
def numberConfig : HashMapConfig Nat := ⟨fun key => BitVec.ofNat 32 key, fun length => length * 3 / 4⟩

end ActiveMQCpp.Decaf
