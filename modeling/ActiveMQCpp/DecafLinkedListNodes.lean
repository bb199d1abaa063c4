import ActiveMQCpp.DecafLinkedList
import Mathlib.Data.List.Perm.Subperm

/-! The nodes of a `LinkedList`: the links mirror each other between the head and the tail, whatever is put in or
taken out, and the loops over the nodes find the values in their order. -/

namespace ActiveMQCpp.Decaf

open Refinement Chain LinkedList List Option

namespace LinkedList

variable {ε : Type} {l l' : LinkedList ε} {addresses : List Nat} {xs : List ε} {r r' previous next : NodeRef}
  {value : ε} {i j p : Nat}
variable {a : NodeRef} {zs : List NodeRef} {index : Int} {fuel : Nat}

/-! ### Nodes that are linked -/

def places (addresses : List Nat) : List NodeRef := .head :: (addresses.map .node ++ [.tail])

theorem length_places : (places addresses).length = addresses.length + 2 := by
  rw [places, length_cons, length_append, length_map, length_singleton]

theorem places_zero : (places addresses)[0]? = some .head := rfl

theorem places_succ (hi : i < addresses.length) : (places addresses)[i + 1]? = some (.node addresses[i]) := by
  rw [places, List.getElem?_cons_succ, List.getElem?_append_left (by rwa [length_map]), List.getElem?_map,
    List.getElem?_eq_getElem hi]
  rfl

theorem places_last : (places addresses)[addresses.length + 1]? = some .tail := by
  rw [places, List.getElem?_cons_succ, List.getElem?_append_right (by rw [length_map]), length_map,
    Nat.sub_self]
  rfl

theorem exists_place (addresses : List Nat) (hi : i < addresses.length + 2) : ∃ r, (places addresses)[i]? = some r :=
  ⟨_, List.getElem?_eq_getElem (by rwa [length_places])⟩

theorem place_lt (h : (places addresses)[i]? = some r) : i < addresses.length + 2 := by
  have hi := (List.getElem?_eq_some_iff.mp h).1
  rwa [length_places] at hi

theorem places_insert {a : Nat} (hp : p ≤ addresses.length) : places (addresses.take p ++ a :: addresses.drop p) =
      (places addresses).take (p + 1) ++ .node a :: (places addresses).drop (p + 1) := by
  have hmap : p ≤ (addresses.map NodeRef.node).length := by rwa [length_map]
  rw [places, places, take_succ_cons, drop_succ_cons, take_append_of_le_length hmap,
    drop_append_of_le_length hmap, map_append, map_cons, map_take, map_drop,
    append_assoc, cons_append, cons_append]

theorem places_erase (hj : j < addresses.length) :
    places (addresses.eraseIdx j) = (places addresses).take (j + 1) ++ (places addresses).drop (j + 2) := by
  have htake : j ≤ (addresses.map NodeRef.node).length := by rw [length_map]; omega
  have hdrop : j + 1 ≤ (addresses.map NodeRef.node).length := by rw [length_map]; omega
  rw [places, places, eraseIdx_eq_take_drop_succ, take_succ_cons, drop_succ_cons,
    take_append_of_le_length htake, drop_append_of_le_length hdrop, map_append, map_take,
    map_drop, append_assoc, cons_append]

theorem place_insert {a : Nat} (hp : p ≤ addresses.length) :
    (places (addresses.take p ++ a :: addresses.drop p))[p + 1]? = some (.node a) := by
  have htake : ((places addresses).take (p + 1)).length = p + 1 := by
    rw [length_take, length_places]
    omega
  rw [places_insert hp, List.getElem?_append_right (by omega), htake, Nat.sub_self]
  rfl

theorem place_erase_before (hj : j < addresses.length) (hi : i ≤ j) :
    (places (addresses.eraseIdx j))[i]? = (places addresses)[i]? := by
  rw [places_erase hj, List.getElem?_append_left, List.getElem?_take_of_lt (by omega)]
  rw [length_take, length_places]
  omega

theorem place_erase_behind (hj : j < addresses.length) :
    (places (addresses.eraseIdx j))[j + 1]? = (places addresses)[j + 2]? := by
  have htake : ((places addresses).take (j + 1)).length = j + 1 := by
    rw [length_take, length_places]
    omega
  rw [places_erase hj, List.getElem?_append_right (by omega), htake, Nat.sub_self, List.getElem?_drop]

/-- The values in the nodes are those of a sequence. -/
structure Holds (l : LinkedList ε) (addresses : List Nat) (xs : List ε) : Prop where
  path : l.links.Path (places addresses)
  values : addresses.map (fun a => l.valueAt (.node a)) = xs.map some
  below : ∀ a ∈ addresses, a < l.allocated

/-- The size is right, too, and an `int`. -/
structure Represents (l : LinkedList ε) (addresses : List Nat) (xs : List ε) : Prop extends Holds l addresses xs where
  size : l.listSize = xs.length
  bounded : l.listSize < 2 ^ 31

theorem Holds.length_eq (h : Holds l addresses xs) : addresses.length = xs.length := by
  have hlength := congrArg List.length h.values
  rwa [length_map, length_map] at hlength

theorem Holds.nodup (h : Holds l addresses xs) : (places addresses).Nodup := by
  have hleaves := h.path.leaves
  have henters := h.path.enters
  rw [places, ← cons_append, dropLast_concat, nodup_cons] at hleaves
  rw [places, tail_cons] at henters
  rw [places, nodup_cons, mem_append, mem_singleton]
  exact ⟨by simp [hleaves.1], henters⟩

theorem Holds.next_eq (h : Holds l addresses xs) (hr : (places addresses)[i]? = some r)
    (hr' : (places addresses)[i + 1]? = some r') : l.next r = some r' := (h.path.chained.linked hr hr').1

theorem Holds.prev_eq (h : Holds l addresses xs) (hr : (places addresses)[i]? = some r)
    (hr' : (places addresses)[i + 1]? = some r') : l.prev r' = some r := (h.path.chained.linked hr hr').2

theorem Holds.place_inj (h : Holds l addresses xs) (hi : (places addresses)[i]? = some r)
    (hj : (places addresses)[j]? = some r) : i = j := by
  have hlt := place_lt hi
  rw [← length_places] at hlt
  exact (List.getElem?_inj hlt h.nodup).mp (hi.trans hj.symm)

theorem Holds.memory_eq (h : Holds l addresses xs) (hr : (places addresses)[i]? = some r) :
    ∃ node, l.memory r = some node := by
  have hlt := place_lt hr
  -- every place has a link that can be followed
  have hlink : l.next r ≠ none ∨ l.prev r ≠ none := by
    by_cases hi : i < addresses.length + 1
    · obtain ⟨r', hr'⟩ := exists_place addresses (show i + 1 < addresses.length + 2 by omega)
      left
      rw [h.next_eq hr hr']
      exact some_ne_none _
    · obtain ⟨i, rfl⟩ : ∃ k, i = k + 1 := ⟨i - 1, by omega⟩
      obtain ⟨r', hr'⟩ := exists_place addresses (show i < addresses.length + 2 by omega)
      right
      rw [h.prev_eq hr' hr]
      exact some_ne_none _
  cases hmemory : l.memory r with
  | some node => exact ⟨node, rfl⟩
  | none => simp [next, prev, hmemory] at hlink

theorem Holds.valueAt_eq (h : Holds l addresses xs) (hr : (places addresses)[i + 1]? = some r) (hi : xs[i]? = some value) :
    l.valueAt r = some value := by
  have hlt : i < addresses.length := by
    rw [h.length_eq]
    exact (List.getElem?_eq_some_iff.mp hi).1
  rw [places_succ hlt] at hr
  have hvalues := congrArg (fun ys => ys[i]?) h.values
  simp only [List.getElem?_map, hi, List.getElem?_eq_getElem hlt, map_some, Option.some.injEq] at hvalues
  rw [← Option.some.inj hr, hvalues]

theorem Holds.not_mem_allocated (h : Holds l addresses xs) : NodeRef.node l.allocated ∉ places addresses := by
  intro hmem
  rw [places, mem_cons, mem_append, List.mem_map, mem_singleton] at hmem
  obtain hhead | ⟨a, ha, heq⟩ | htail := hmem
  · cases hhead
  · cases heq
    exact absurd (h.below _ ha) (lt_irrefl _)
  · cases htail

theorem Holds.length_le (h : Holds l addresses xs) : addresses.length ≤ l.allocated := by
  have hnodup : addresses.Nodup := by
    have hplaces := h.nodup
    rw [places, nodup_cons] at hplaces
    exact (List.Nodup.of_append_left hplaces.2).of_map _
  have hsubset : addresses ⊆ List.range l.allocated := fun a ha => mem_range.mpr (h.below a ha)
  have hle := (subperm_of_subset hnodup hsubset).length_le
  rwa [length_range] at hle

/-! ### Changes to the nodes -/

section Write

variable {node : ListNode ε} {u : NodeRef}

theorem memory_write : (l.write r node).memory u = if u = r then some node else l.memory u :=
  Function.update_apply _ _ _ _

theorem next_write : (l.write r node).next u = if u = r then some node.next else l.next u := by
  rw [next, memory_write]
  split_ifs <;> rfl

theorem prev_write : (l.write r node).prev u = if u = r then some node.prev else l.prev u := by
  rw [prev, memory_write]
  split_ifs <;> rfl

theorem valueAt_write : (l.write r node).valueAt u = if u = r then some node.value else l.valueAt u := by
  rw [valueAt, memory_write]
  split_ifs <;> rfl

theorem memory_new : (l.new node).memory u = if u = .node l.allocated then some node else l.memory u := memory_write

theorem next_new : (l.new node).next u = if u = .node l.allocated then some node.next else l.next u := next_write

theorem prev_new : (l.new node).prev u = if u = .node l.allocated then some node.prev else l.prev u := prev_write

theorem valueAt_new : (l.new node).valueAt u = if u = .node l.allocated then some node.value else l.valueAt u :=
  valueAt_write

theorem setNext_eq (h : l.memory r = some node) (next : NodeRef) :
    l.setNext r next = some (l.write r { node with next := next }) := by
  rw [setNext, h, map_some]

theorem setPrev_eq (h : l.memory r = some node) (prev : NodeRef) :
    l.setPrev r prev = some (l.write r { node with prev := prev }) := by
  rw [setPrev, h, map_some]

theorem next_of_memory (h : l.memory r = some node) : l.next r = some node.next := by
  rw [next, h, map_some]

theorem prev_of_memory (h : l.memory r = some node) : l.prev r = some node.prev := by
  rw [prev, h, map_some]

theorem valueAt_of_memory (h : l.memory r = some node) : l.valueAt r = some node.value := by
  rw [valueAt, h, map_some]

theorem link_eq (value : ε) (hprevious : previous ≠ .node l.allocated) (hnext : next ≠ .node l.allocated)
    (hne : previous ≠ next) (hp : ∃ node, l.memory previous = some node) (hn : ∃ node, l.memory next = some node) :
    ∃ l', l.link previous next value = some l' ∧
      (∀ u, l'.next u = if u = previous then some (.node l.allocated)
        else if u = .node l.allocated then some next else l.next u) ∧
      (∀ u, l'.prev u = if u = next then some (.node l.allocated)
        else if u = .node l.allocated then some previous else l.prev u) ∧
      (∀ u, l'.valueAt u = if u = .node l.allocated then some value else l.valueAt u) ∧
      l'.listSize = l.listSize ∧ l'.modCount = l.modCount ∧ l'.allocated = l.allocated + 1 := by
  obtain ⟨before, hp⟩ := hp
  obtain ⟨behind, hn⟩ := hn
  have hfirst : (l.new ⟨value, previous, next⟩).memory previous = some before := by
    rw [memory_new, if_neg hprevious, hp]
  have hsecond : ((l.new ⟨value, previous, next⟩).write previous { before with next := .node l.allocated }).memory next =
      some behind := by
    rw [memory_write, if_neg hne.symm, memory_new, if_neg hnext, hn]
  refine ⟨((l.new ⟨value, previous, next⟩).write previous { before with next := .node l.allocated }).write next
    { behind with prev := .node l.allocated }, ?_, fun u => ?_, fun u => ?_, fun u => ?_, rfl, rfl, rfl⟩
  · rw [link, setNext_eq hfirst, bind_eq_bind, bind_some, setPrev_eq hsecond]
  · rw [next_write, next_write, next_new]
    split_ifs with h1 h2 h3 <;> grind [next_of_memory]
  · rw [prev_write, prev_write, prev_new]
    split_ifs with h1 h2 h3 <;> grind [prev_of_memory]
  · rw [valueAt_write, valueAt_write, valueAt_new]
    split_ifs with h1 h2 h3 <;> grind [valueAt_of_memory]

theorem memory_delete : (l.delete r).memory u = if u = r then none else l.memory u := Function.update_apply _ _ _ _

theorem unlink_eq {old : NodeRef} (hne : previous ≠ next)
    (hp : ∃ node, l.memory previous = some node) (hn : ∃ node, l.memory next = some node) :
    ∃ l', l.unlink previous next old = some l' ∧
      (∀ u, u ≠ old → l'.next u = if u = previous then some next else l.next u) ∧
      (∀ u, u ≠ old → l'.prev u = if u = next then some previous else l.prev u) ∧
      (∀ u, u ≠ old → l'.valueAt u = l.valueAt u) ∧
      l'.listSize = l.listSize ∧ l'.modCount = l.modCount ∧ l'.allocated = l.allocated := by
  obtain ⟨before, hp⟩ := hp
  obtain ⟨behind, hn⟩ := hn
  have hsecond : (l.write previous { before with next := next }).memory next = some behind := by
    rw [memory_write, if_neg hne.symm, hn]
  have hread : ∀ (l : LinkedList ε) (u : NodeRef), u ≠ old → (l.delete old).memory u = l.memory u := by
    intro l u hu
    rw [memory_delete, if_neg hu]
  refine ⟨((l.write previous { before with next := next }).write next { behind with prev := previous }).delete old,
    ?_, fun u hu => ?_, fun u hu => ?_, fun u hu => ?_, rfl, rfl, rfl⟩
  · rw [unlink, setNext_eq hp, bind_eq_bind, bind_some, setPrev_eq hsecond]
    rfl
  · rw [LinkedList.next, hread _ _ hu, ← LinkedList.next, next_write, next_write]
    split_ifs with h1 h2 <;> grind [next_of_memory]
  · rw [prev, hread _ _ hu, ← prev, prev_write, prev_write]
    split_ifs with h1 h2 <;> grind [prev_of_memory]
  · rw [valueAt, hread _ _ hu, ← valueAt, valueAt_write, valueAt_write]
    split_ifs with h1 h2 <;> grind [valueAt_of_memory]

end Write

/-! ### Insertion and removal -/

theorem split_places {b : NodeRef} (ha : zs[p]? = some a) (hb : zs[p + 1]? = some b) :
    zs = zs.take p ++ a :: b :: zs.drop (p + 2) := by
  obtain ⟨hlt, rfl⟩ := List.getElem?_eq_some_iff.mp ha
  obtain ⟨hlt', rfl⟩ := List.getElem?_eq_some_iff.mp hb
  rw [getElem_cons_drop, getElem_cons_drop, take_append_drop]

theorem take_place (ha : zs[p]? = some a) : zs.take (p + 1) = zs.take p ++ [a] := by
  rw [take_add_one, ha]
  rfl

theorem drop_place (ha : zs[p]? = some a) : zs.drop p = a :: zs.drop (p + 1) := by
  obtain ⟨hlt, rfl⟩ := List.getElem?_eq_some_iff.mp ha
  exact (getElem_cons_drop hlt).symm

theorem Holds.link (h : Holds l addresses xs) (hp : (places addresses)[p]? = some previous)
    (hn : (places addresses)[p + 1]? = some next) (value : ε) :
    ∃ l', l.link previous next value = some l' ∧
      Holds l' (addresses.take p ++ l.allocated :: addresses.drop p) (xs.take p ++ value :: xs.drop p) ∧
      l'.listSize = l.listSize ∧ l'.modCount = l.modCount ∧ l'.allocated = l.allocated + 1 := by
  have hlt := place_lt hn
  have hfresh := h.not_mem_allocated
  have hmem : ∀ {i r}, (places addresses)[i]? = some r → r ∈ places addresses :=
    fun hr => mem_of_getElem? hr
  have hprevious : previous ≠ .node l.allocated := fun heq => hfresh (heq ▸ hmem hp)
  have hnext : next ≠ .node l.allocated := fun heq => hfresh (heq ▸ hmem hn)
  have hne : previous ≠ next := by
    rintro rfl
    exact absurd (h.place_inj hp hn) (Nat.succ_ne_self p).symm
  obtain ⟨l', hl', hnexts, hprevs, hvalues, hsize, hcount, hallocated⟩ :=
    link_eq value hprevious hnext hne (h.memory_eq hp) (h.memory_eq hn)
  have hsplit := split_places hp hn
  refine ⟨l', hl', ⟨?_, ?_, ?_⟩, hsize, hcount, hallocated⟩
  · have hold := h.path
    rw [hsplit] at hold hfresh
    have hnew : l'.links.Path ((places addresses).take p ++ previous :: .node l.allocated :: next ::
        (places addresses).drop (p + 2)) := by
      refine hold.insert hfresh ⟨?_, ?_⟩ ⟨?_, ?_⟩ (fun u hu hx => ?_) (fun u hu hx => ?_)
      · exact (hnexts previous).trans (if_pos rfl)
      · exact (hprevs _).trans (by rw [if_neg hnext.symm, if_pos rfl])
      · exact (hnexts _).trans (by rw [if_neg hprevious.symm, if_pos rfl])
      · exact (hprevs next).trans (if_pos rfl)
      · exact (hnexts u).trans (by rw [if_neg hu, if_neg hx]; rfl)
      · exact (hprevs u).trans (by rw [if_neg hu, if_neg hx]; rfl)
    rwa [places_insert (by omega), take_place hp, drop_place hn, append_assoc]
  · have hkeep : addresses.map (fun a => l'.valueAt (.node a)) = xs.map some := by
      rw [← h.values]
      apply map_congr_left
      intro a ha
      rw [hvalues, if_neg]
      intro heq
      cases heq
      exact absurd (h.below _ ha) (lt_irrefl _)
    rw [map_append, map_cons, map_take, map_drop, hkeep, hvalues, if_pos rfl, map_append,
      map_cons, map_take, map_drop]
  · intro a ha
    rw [mem_append, mem_cons] at ha
    rw [hallocated]
    obtain ha | rfl | ha := ha
    · exact Nat.lt_succ_of_lt (h.below a (mem_of_mem_take ha))
    · exact Nat.lt_succ_self _
    · exact Nat.lt_succ_of_lt (h.below a (mem_of_mem_drop ha))

theorem Holds.unlink {old : NodeRef} (h : Holds l addresses xs) (hp : (places addresses)[j]? = some previous)
    (ho : (places addresses)[j + 1]? = some old) (hn : (places addresses)[j + 2]? = some next) :
    ∃ l', l.unlink previous next old = some l' ∧ Holds l' (addresses.eraseIdx j) (xs.eraseIdx j) ∧
      l'.listSize = l.listSize ∧ l'.modCount = l.modCount ∧ l'.allocated = l.allocated := by
  have hlt := place_lt hn
  have hj : j < addresses.length := by omega
  have hne : previous ≠ next := by
    rintro rfl
    exact absurd (h.place_inj hp hn) (by omega)
  have hprevious : previous ≠ old := by
    rintro rfl
    exact absurd (h.place_inj hp ho) (by omega)
  have hnext : next ≠ old := by
    rintro rfl
    exact absurd (h.place_inj hn ho) (by omega)
  obtain ⟨l', hl', hnexts, hprevs, hvalues, hsize, hcount, hallocated⟩ :=
    unlink_eq hne (h.memory_eq hp) (h.memory_eq hn)
  refine ⟨l', hl', ⟨?_, ?_, ?_⟩, hsize, hcount, hallocated⟩
  · have hold := h.path
    rw [split_places hp ho, drop_place hn] at hold
    have hnew : l'.links.Path ((places addresses).take j ++ previous :: next :: (places addresses).drop (j + 3)) := by
      refine hold.unlink ⟨?_, ?_⟩ (fun u hu hx => ?_) (fun u hu hx => ?_)
      · exact (hnexts previous hprevious).trans (if_pos rfl)
      · exact (hprevs next hnext).trans (if_pos rfl)
      · exact (hnexts u hx).trans (if_neg hu)
      · exact (hprevs u hx).trans (if_neg hu)
    rwa [places_erase hj, take_place hp, drop_place hn, append_assoc]
  · have hkeep : (addresses.eraseIdx j).map (fun a => l'.valueAt (.node a)) =
        (addresses.eraseIdx j).map (fun a => l.valueAt (.node a)) := by
      apply map_congr_left
      intro a ha
      apply hvalues
      rintro rfl
      obtain ⟨i, hi, ha⟩ := mem_eraseIdx_iff_getElem?.mp ha
      obtain ⟨hilt, rfl⟩ := List.getElem?_eq_some_iff.mp ha
      have hplace := h.place_inj (places_succ hilt) ho
      omega
    rw [hkeep, ← eraseIdx_map, h.values, eraseIdx_map]
  · intro a ha
    rw [hallocated]
    exact h.below a (mem_of_mem_eraseIdx ha)

theorem resize_represents {amount : Int} (h : Holds l addresses xs) (hsize : l.listSize + amount = xs.length)
    (hfits : l.listSize + amount < 2 ^ 31) :
    ∃ l', l.resize amount = some l' ∧ Represents l' addresses xs ∧ l'.modCount = l.modCount + 1 :=
  ⟨_, if_pos hfits, ⟨⟨h.path, h.values, h.below⟩, hsize, hfits⟩, rfl⟩

theorem Represents.takeOut {old : NodeRef} (h : Represents l addresses xs)
    (hp : (places addresses)[j]? = some previous) (ho : (places addresses)[j + 1]? = some old)
    (hn : (places addresses)[j + 2]? = some next) :
    ∃ l', l.takeOut previous next old = some l' ∧ Represents l' (addresses.eraseIdx j) (xs.eraseIdx j) ∧
      l'.modCount = l.modCount + 1 := by
  have hlt := place_lt hn
  have hlength := h.length_eq
  have hbounded := h.bounded
  obtain ⟨l', hl', hholds, hsize, hcount, -⟩ := h.toHolds.unlink hp ho hn
  have hshort : l'.listSize + -1 = ((xs.eraseIdx j).length : Int) := by
    rw [hsize, h.size, length_eraseIdx_of_lt (by omega)]
    omega
  obtain ⟨l'', hl'', hrepresents, hcount'⟩ := resize_represents hholds hshort (by omega)
  refine ⟨l'', ?_, hrepresents, by rw [hcount', hcount]⟩
  rw [LinkedList.takeOut, hl', Option.bind_eq_bind, Option.bind_some, hl'']

theorem Represents.putIn (h : Represents l addresses xs) (hp : (places addresses)[p]? = some previous)
    (hn : (places addresses)[p + 1]? = some next) (value : ε) (hfits : l.listSize + 1 < 2 ^ 31) :
    ∃ l', l.putIn previous next value = some l' ∧
      Represents l' (addresses.take p ++ l.allocated :: addresses.drop p) (xs.take p ++ value :: xs.drop p) ∧
      l'.modCount = l.modCount + 1 := by
  have hlt := place_lt hn
  have hlength := h.length_eq
  obtain ⟨l', hl', hholds, hsize, hcount, -⟩ := h.toHolds.link hp hn value
  have hlong : l'.listSize + 1 = ((xs.take p ++ value :: xs.drop p).length : Int) := by
    rw [hsize, h.size, length_append, length_cons, length_take, length_drop]
    omega
  obtain ⟨l'', hl'', hrepresents, hcount'⟩ := resize_represents hholds hlong (by omega)
  refine ⟨l'', ?_, hrepresents, by rw [hcount', hcount]⟩
  rw [LinkedList.putIn, hl', Option.bind_eq_bind, Option.bind_some, hl'']

theorem Represents.follow_head (h : Represents l addresses xs) (hr : (places addresses)[i]? = some r) :
    follow l.links.next i .head = some r := by
  apply h.path.chained.follow_next places_zero
  rwa [Nat.zero_add]

theorem Represents.follow_tail {n : Nat} (h : Represents l addresses xs) (hr : (places addresses)[i]? = some r)
    (hn : i + n = addresses.length + 1) : follow l.links.prev n .tail = some r := by
  refine h.path.chained.follow_prev ?_ hr
  rw [hn]
  exact places_last

/-! ### Operations of the list -/

/-- A list that has been changed: the iterators made before can tell. -/
def Changed (l l' : LinkedList ε) (ys : List ε) : Prop :=
  ∃ addresses, Represents l' addresses ys ∧ l.modCount < l'.modCount

theorem addToFront_changed (h : Represents l addresses xs) (hfits : l.listSize + 1 < 2 ^ 31) (value : ε) :
    ∃ l', l.addToFront value = some l' ∧ Changed l l' (value :: xs) := by
  obtain ⟨next, hnext⟩ := exists_place addresses (show 1 < addresses.length + 2 by omega)
  obtain ⟨l', hl', hrepresents, hcount⟩ := h.putIn places_zero hnext value hfits
  refine ⟨l', ?_, _, hrepresents, by omega⟩
  rw [addToFront, h.next_eq places_zero hnext, bind_eq_bind, bind_some, ← hl']

theorem addToEnd_changed (h : Represents l addresses xs) (hfits : l.listSize + 1 < 2 ^ 31) (value : ε) :
    ∃ l', l.addToEnd value = some l' ∧ Changed l l' (xs ++ [value]) := by
  have hlength := h.length_eq
  obtain ⟨previous, hprevious⟩ := exists_place addresses
    (show addresses.length < addresses.length + 2 by omega)
  obtain ⟨l', hl', hrepresents, hcount⟩ := h.putIn hprevious places_last value hfits
  rw [hlength, take_length, drop_length] at hrepresents
  refine ⟨l', ?_, _, hrepresents, by omega⟩
  rw [addToEnd, h.prev_eq hprevious places_last, bind_eq_bind, bind_some, ← hl']

theorem addAtLocation_changed (h : Represents l addresses xs) (hlow : 0 ≤ index)
    (hhigh : index ≤ xs.length) (hfits : l.listSize + 1 < 2 ^ 31) (value : ε) :
    ∃ l', l.addAtLocation index value = some l' ∧
      Changed l l' (xs.take index.toNat ++ value :: xs.drop index.toNat) := by
  have hlength := h.length_eq
  have hsize := h.size
  obtain ⟨previous, hprevious⟩ := exists_place addresses
    (show index.toNat < addresses.length + 2 by omega)
  obtain ⟨location, hlocation⟩ := exists_place addresses
    (show index.toNat + 1 < addresses.length + 2 by omega)
  obtain ⟨l', hl', hrepresents, hcount⟩ := h.putIn hprevious hlocation value hfits
  have hlocate : l.locateForAdd index = some location := by
    rw [locateForAdd]
    split_ifs
    · exact h.follow_head hlocation
    · exact h.follow_tail hlocation (by omega)
  refine ⟨l', ?_, _, hrepresents, by omega⟩
  rw [← hl', addAtLocation, hlocate, bind_eq_bind, bind_some, h.prev_eq hprevious hlocation]
  rfl

theorem before_eq (h : Represents l addresses xs) (hlow : 0 ≤ index) (hhigh : index ≤ xs.length)
    (hr : (places addresses)[index.toNat]? = some r) : l.before index = some r := by
  have hlength := h.length_eq
  have hsize := h.size
  rw [before]
  split_ifs
  · exact h.follow_head hr
  · exact h.follow_tail hr (by omega)

theorem linkAll_holds (values : List ε) (h : Holds l addresses xs) (hp : p ≤ xs.length)
    (hr : (places addresses)[p]? = some previous) :
    ∃ l' addresses', l.linkAll previous values = some l' ∧ Holds l' addresses' (xs.take p ++ (values ++ xs.drop p)) ∧
      l'.listSize = l.listSize ∧ l'.modCount = l.modCount := by
  induction values generalizing l addresses xs previous p with
  | nil =>
    refine ⟨l, addresses, rfl, ?_, rfl, rfl⟩
    rwa [nil_append, take_append_drop]
  | cons value values ih =>
    have hlength := h.length_eq
    obtain ⟨next, hnext⟩ := exists_place addresses (show p + 1 < addresses.length + 2 by omega)
    obtain ⟨l', hl', hholds, hsize, hcount, -⟩ := h.link hr hnext value
    have hplace := place_insert (a := l.allocated) (show p ≤ addresses.length by omega)
    have hlong : p + 1 ≤ (xs.take p ++ value :: xs.drop p).length := by
      rw [length_append, length_cons, length_take_of_le hp]
      omega
    obtain ⟨l'', addresses'', hl'', hholds', hsize', hcount'⟩ := ih hholds hlong hplace
    have htail : (xs.take p ++ value :: xs.drop p).take (p + 1) = xs.take p ++ [value] := by
      rw [take_append, take_of_length_le (by rw [length_take]; omega), length_take_of_le hp]
      simp
    have hrest : (xs.take p ++ value :: xs.drop p).drop (p + 1) = xs.drop p := by
      rw [drop_append, drop_eq_nil_of_le (by rw [length_take]; omega), length_take_of_le hp]
      simp
    rw [htail, hrest, append_assoc] at hholds'
    refine ⟨l'', addresses'', ?_, hholds', by rw [hsize', hsize], by rw [hcount', hcount]⟩
    rw [← hl'', linkAll, h.next_eq hr hnext, bind_eq_bind, bind_some, hl']
    rfl

theorem addAllAtLocation_changed (h : Represents l addresses xs) (hlow : 0 ≤ index)
    (hhigh : index ≤ xs.length) (values : List ε) (hfits : l.listSize + values.length < 2 ^ 31) :
    ∃ l', l.addAllAtLocation index values = some l' ∧
      Changed l l' (xs.take index.toNat ++ (values ++ xs.drop index.toNat)) := by
  have hlength := h.length_eq
  obtain ⟨previous, hprevious⟩ := exists_place addresses
    (show index.toNat < addresses.length + 2 by omega)
  obtain ⟨l', addresses', hl', hholds, hsize, hcount⟩ := linkAll_holds values h.toHolds (by omega) hprevious
  have hlong : l'.listSize + values.length =
      ((xs.take index.toNat ++ (values ++ xs.drop index.toNat)).length : Int) := by
    rw [hsize, h.size, length_append, length_append, length_take, length_drop]
    omega
  obtain ⟨l'', hl'', hrepresents, hcount'⟩ := resize_represents hholds hlong (by rw [hsize]; exact hfits)
  refine ⟨l'', ?_, addresses', hrepresents, by omega⟩
  rw [← hl'', addAllAtLocation, before_eq h hlow hhigh hprevious, bind_eq_bind, bind_some, hl']
  rfl

theorem next_head_eq_tail_iff (h : Represents l addresses xs) : l.next .head = some .tail ↔ xs = [] := by
  have hlength := h.length_eq
  obtain ⟨r, hr⟩ := exists_place addresses (show 1 < addresses.length + 2 by omega)
  rw [h.next_eq places_zero hr]
  constructor
  · intro heq
    cases heq
    have hplace := h.place_inj hr places_last
    exact length_eq_zero_iff.mp (by omega)
  · rintro rfl
    rw [length_nil] at hlength
    have hlast : (places addresses)[addresses.length + 1]? = some .tail := places_last
    rw [hlength] at hlast
    exact hr.symm.trans hlast

theorem removeAtFront_empty (h : Represents l addresses ([] : List ε)) :
    l.removeAtFront = (.noSuchElementException, l) := by
  rw [removeAtFront, if_pos ((next_head_eq_tail_iff h).mpr rfl)]

theorem removeAtFront_cons (h : Represents l addresses (value :: xs)) :
    ∃ l', l.removeAtFront = (.value value, l') ∧ Changed l l' xs := by
  have hlength := h.length_eq
  rw [length_cons] at hlength
  obtain ⟨old, hold⟩ := exists_place addresses (show 0 + 1 < addresses.length + 2 by omega)
  obtain ⟨next, hnext⟩ := exists_place addresses (show 0 + 2 < addresses.length + 2 by omega)
  obtain ⟨l', hl', hrepresents, hcount⟩ := h.takeOut places_zero hold hnext
  refine ⟨l', ?_, _, hrepresents, by omega⟩
  have hne : l.next .head ≠ some .tail := mt (next_head_eq_tail_iff h).mp (cons_ne_nil value xs)
  rw [removeAtFront, if_neg hne]
  simp only [h.next_eq places_zero hold, h.valueAt_eq hold rfl, h.next_eq hold hnext, hl', settle]

theorem removeAtEnd_empty (h : Represents l addresses ([] : List ε)) :
    l.removeAtEnd = (.noSuchElementException, l) := by
  rw [removeAtEnd, if_pos ((next_head_eq_tail_iff h).mpr rfl)]

theorem removeAtEnd_concat (h : Represents l addresses (xs ++ [value])) :
    ∃ l', l.removeAtEnd = (.value value, l') ∧ Changed l l' xs := by
  have hlength := h.length_eq
  rw [length_append, length_singleton] at hlength
  obtain ⟨previous, hprevious⟩ := exists_place addresses (show xs.length < addresses.length + 2 by omega)
  obtain ⟨old, hold⟩ := exists_place addresses (show xs.length + 1 < addresses.length + 2 by omega)
  have htail : (places addresses)[xs.length + 2]? = some .tail := by
    have hlast : (places addresses)[addresses.length + 1]? = some .tail := places_last
    rwa [hlength] at hlast
  obtain ⟨l', hl', hrepresents, hcount⟩ := h.takeOut hprevious hold htail
  have hshort : (xs ++ [value]).eraseIdx xs.length = xs := by
    rw [eraseIdx_append_of_length_le le_rfl, Nat.sub_self]
    exact append_nil xs
  rw [hshort] at hrepresents
  refine ⟨l', ?_, _, hrepresents, by omega⟩
  have hne : l.next .head ≠ some .tail := mt (next_head_eq_tail_iff h).mp (by simp)
  have hvalue : (xs ++ [value])[xs.length]? = some value := List.getElem?_concat_length
  rw [removeAtEnd, if_neg hne]
  simp only [h.prev_eq hold htail, h.valueAt_eq hold hvalue, h.prev_eq hprevious hold, hl', settle]

/-! ### Loops over the nodes -/

/-- What a loop over the nodes finds on its way from a node to the end. -/
inductive Walk (l : LinkedList ε) (link : ListNode ε → NodeRef) (stop : NodeRef) : NodeRef → List ε → Prop where
  | done : Walk l link stop stop []
  | step {r : NodeRef} {node : ListNode ε} {xs : List ε} (hr : r ≠ stop) (hnode : l.memory r = some node)
      (hrest : Walk l link stop (link node) xs) : Walk l link stop r (node.value :: xs)

theorem Holds.node_eq (h : Holds l addresses xs) (hr : (places addresses)[i + 1]? = some r)
    (hi : xs[i]? = some value) :
    ∃ node, l.memory r = some node ∧ node.value = value ∧ (places addresses)[i + 2]? = some node.next ∧
      (places addresses)[i]? = some node.prev := by
  obtain ⟨node, hnode⟩ := h.memory_eq hr
  have hlt := (List.getElem?_eq_some_iff.mp hi).1
  rw [← h.length_eq] at hlt
  obtain ⟨r', hr'⟩ := exists_place addresses (show i + 2 < addresses.length + 2 by omega)
  obtain ⟨r'', hr''⟩ := exists_place addresses (show i < addresses.length + 2 by omega)
  have hnext := (next_of_memory hnode).symm.trans (h.next_eq hr hr')
  have hprev := (prev_of_memory hnode).symm.trans (h.prev_eq hr'' hr)
  have hvalue := (valueAt_of_memory hnode).symm.trans (h.valueAt_eq hr hi)
  exact ⟨node, hnode, Option.some.inj hvalue, hr'.trans hnext.symm, hr''.trans hprev.symm⟩

theorem Represents.walk_next (h : Represents l addresses xs) {k : Nat} (hk : i + k = xs.length)
    (hr : (places addresses)[i + 1]? = some r) : Walk l ListNode.next .tail r (xs.drop i) := by
  have hlength := h.length_eq
  induction k generalizing i r with
  | zero =>
    have hlast : (places addresses)[addresses.length + 1]? = some .tail := places_last
    rw [hlength, ← hk, Nat.add_zero] at hlast
    rw [drop_eq_nil_of_le (by omega), ← Option.some.inj (hlast.symm.trans hr)]
    exact .done
  | succ k ih =>
    have hi : xs[i]? = some xs[i] := List.getElem?_eq_getElem (by omega)
    obtain ⟨node, hnode, hvalue, hnext, -⟩ := h.node_eq hr hi
    have hne : r ≠ .tail := by
      rintro rfl
      have hplace := h.place_inj hr places_last
      omega
    rw [drop_eq_getElem_cons (by omega), ← hvalue]
    exact .step hne hnode (ih (by omega) hnext)

theorem Represents.walk_prev (h : Represents l addresses xs) (hi : i ≤ xs.length)
    (hr : (places addresses)[i]? = some r) : Walk l ListNode.prev .head r (xs.take i).reverse := by
  induction i generalizing r with
  | zero =>
    rw [← Option.some.inj (places_zero.symm.trans hr)]
    exact .done
  | succ i ih =>
    have hvalue : xs[i]? = some xs[i] := List.getElem?_eq_getElem (by omega)
    obtain ⟨node, hnode, hvalue, -, hprev⟩ := h.node_eq hr hvalue
    have hne : r ≠ .head := by
      rintro rfl
      have hplace := h.place_inj hr places_zero
      omega
    rw [take_succ_eq_append_getElem (by omega), reverse_concat, ← hvalue]
    exact .step hne hnode (ih (by omega) hprev)

theorem Walk.collect_eq (h : Walk l ListNode.next .tail r xs) (hfuel : xs.length < fuel) :
    l.collect fuel r = some xs := by
  induction h generalizing fuel with
  | done =>
    obtain ⟨fuel, rfl⟩ : ∃ k, fuel = k + 1 := ⟨fuel - 1, by omega⟩
    rw [collect, if_pos rfl]
  | step hr hnode _ ih =>
    obtain ⟨fuel, rfl⟩ : ∃ k, fuel = k + 1 := ⟨fuel - 1, by omega⟩
    rw [length_cons] at hfuel
    rw [collect, if_neg hr, valueAt_of_memory hnode, next_of_memory hnode, bind_eq_bind, bind_some,
      bind_eq_bind, bind_some, ih (by omega)]
    rfl

theorem Walk.search_eq [DecidableEq ε] {link : ListNode ε → NodeRef} {stop : NodeRef} {amount : Int}
    (h : Walk l link stop r xs) (hfuel : xs.length < fuel) (i : Int) :
    l.search link stop amount value fuel r i = some (match xs.findIdx? (· = value) with
      | some k => i + amount * k
      | none => -1) := by
  induction h generalizing fuel i with
  | done =>
    obtain ⟨fuel, rfl⟩ : ∃ k, fuel = k + 1 := ⟨fuel - 1, by omega⟩
    rw [search, if_pos rfl]
    rfl
  | @step r node xs hr hnode _ ih =>
    obtain ⟨fuel, rfl⟩ : ∃ k, fuel = k + 1 := ⟨fuel - 1, by omega⟩
    rw [length_cons] at hfuel
    rw [search, if_neg hr, hnode, bind_eq_bind, bind_some, List.findIdx?_cons]
    by_cases hvalue : node.value = value
    · rw [if_pos hvalue, if_pos (decide_eq_true hvalue)]
      simp
    · rw [if_neg hvalue, if_neg (by simpa using hvalue), ih (by omega)]
      cases xs.findIdx? (· = value) with
      | none => rfl
      | some k =>
        show some (i + amount + amount * (k : Int)) = some (i + amount * ((k + 1 : Nat) : Int))
        rw [Int.natCast_succ, Int.mul_add, Int.mul_one, Int.add_comm (amount * k), Int.add_assoc]

theorem Represents.toArray_eq (h : Represents l addresses xs) : l.toArray = some xs := by
  have hle := h.length_le
  have hlength := h.length_eq
  obtain ⟨r, hr⟩ := exists_place addresses (show 0 + 1 < addresses.length + 2 by omega)
  have hwalk := h.walk_next (show 0 + xs.length = xs.length by omega) hr
  rw [toArray, h.next_eq places_zero hr, bind_eq_bind, bind_some]
  exact hwalk.collect_eq (by rw [rounds, drop_zero]; omega)

theorem Represents.valuesOf_eq (h : Represents l addresses xs) (collection : Argument ε) :
    l.valuesOf collection = some (Sequence.valuesOf xs collection) := by
  cases collection with
  | other values => rfl
  | self => exact h.toArray_eq

theorem Represents.indexOf_eq [DecidableEq ε] (h : Represents l addresses xs) (value : ε) :
    l.indexOf value = some (indexOrNone (xs.findIdx? (· = value))) := by
  have hle := h.length_le
  have hlength := h.length_eq
  have hsize := h.size
  rw [indexOf]
  split_ifs with hzero
  · obtain rfl : xs = [] := length_eq_zero_iff.mp (by omega)
    rfl
  · obtain ⟨r, hr⟩ := exists_place addresses (show 0 + 1 < addresses.length + 2 by omega)
    have hwalk := h.walk_next (show 0 + xs.length = xs.length by omega) hr
    rw [h.next_eq places_zero hr, bind_eq_bind, bind_some,
      hwalk.search_eq (by rw [rounds, drop_zero]; omega), drop_zero]
    cases xs.findIdx? (· = value) with
    | none => rfl
    | some k => simp [indexOrNone]

theorem Represents.lastIndexOf_eq [DecidableEq ε] (h : Represents l addresses xs) (value : ε) : l.lastIndexOf value =
      some (indexOrNone ((xs.reverse.findIdx? (· = value)).map fun i => xs.length - 1 - i)) := by
  have hle := h.length_le
  have hlength := h.length_eq
  have hsize := h.size
  rw [lastIndexOf]
  split_ifs with hzero
  · obtain rfl : xs = [] := length_eq_zero_iff.mp (by omega)
    rfl
  · obtain ⟨r, hr⟩ := exists_place addresses (show xs.length < addresses.length + 2 by omega)
    have hwalk := h.walk_prev le_rfl hr
    have htail : (places addresses)[xs.length + 1]? = some .tail := by
      have hlast : (places addresses)[addresses.length + 1]? = some .tail := places_last
      rwa [hlength] at hlast
    rw [take_length] at hwalk
    rw [h.prev_eq hr htail, bind_eq_bind, bind_some,
      hwalk.search_eq (by rw [rounds, length_reverse]; omega)]
    cases hfound : xs.reverse.findIdx? (· = value) with
    | none => rfl
    | some k =>
      obtain ⟨hk, -⟩ := List.findIdx?_eq_some_iff_getElem.mp hfound
      rw [length_reverse] at hk
      simp only [map_some, indexOrNone, Option.some.injEq]
      omega

theorem purgeList_eq (hchain : l.links.Chained (addresses.map .node ++ [.tail]))
    (hnodup : addresses.Nodup) (hr : (addresses.map NodeRef.node ++ [.tail])[0]? = some r)
    (hfuel : addresses.length < fuel) :
    ∃ l', l.purgeList fuel r = some l' ∧ l'.memory .head = l.memory .head ∧ l'.memory .tail = l.memory .tail ∧
      l'.modCount = l.modCount := by
  obtain ⟨fuel, rfl⟩ : ∃ k, fuel = k + 1 := ⟨fuel - 1, by omega⟩
  induction addresses generalizing l r fuel with
  | nil =>
    cases hr
    exact ⟨l, by rw [purgeList, if_pos rfl], rfl, rfl, rfl⟩
  | cons a addresses ih =>
    cases hr
    obtain ⟨hfresh, hrest⟩ := nodup_cons.mp hnodup
    rw [length_cons] at hfuel
    obtain ⟨next, hnext⟩ : ∃ next, (addresses.map NodeRef.node ++ [.tail])[0]? = some next :=
      ⟨_, List.getElem?_eq_getElem (by rw [length_append, length_singleton]; omega)⟩
    have hlink : l.next (.node a) = some next := (hchain.linked (i := 0) rfl hnext).1
    have hkeep : ∀ u ∈ addresses.map NodeRef.node ++ [.tail], (l.delete (.node a)).memory u = l.memory u := by
      intro u hu
      rw [memory_delete, if_neg]
      rintro rfl
      rw [mem_append, List.mem_map, mem_singleton] at hu
      obtain ⟨b, hb, heq⟩ | heq := hu
      · cases heq
        exact hfresh hb
      · cases heq
    have hchain' : (l.delete (.node a)).links.Chained (addresses.map .node ++ [.tail]) := by
      refine Links.Chained.congr (List.IsChain.tail hchain) (fun u hu => ?_) fun u hu => ?_
      · show ((l.delete (.node a)).memory u).map _ = (l.memory u).map _
        rw [hkeep u (dropLast_subset _ hu)]
      · show ((l.delete (.node a)).memory u).map _ = (l.memory u).map _
        rw [hkeep u (mem_of_mem_tail hu)]
    obtain ⟨fuel, rfl⟩ : ∃ k, fuel = k + 1 := ⟨fuel - 1, by omega⟩
    obtain ⟨l', hl', hhead, htail, hcount⟩ := ih hchain' hrest hnext fuel (by omega)
    refine ⟨l', ?_, ?_, ?_, hcount⟩
    · rw [purgeList, if_neg (by simp), hlink, bind_eq_bind, bind_some, hl']
    · rw [hhead, memory_delete, if_neg (by simp)]
    · rw [htail, memory_delete, if_neg (by simp)]

theorem clear_changed (h : Represents l addresses xs) : ∃ l', l.clear = some l' ∧ Changed l l' ([] : List ε) := by
  have hle := h.length_le
  obtain ⟨r, hr⟩ := exists_place addresses (show 0 + 1 < addresses.length + 2 by omega)
  have hnodup : addresses.Nodup := (List.Nodup.of_append_left (nodup_cons.mp h.nodup).2).of_map _
  have hchain : l.links.Chained (addresses.map .node ++ [.tail]) := List.IsChain.tail h.path.chained
  obtain ⟨purged, hpurged, hhead, htail, hcount⟩ := purgeList_eq hchain hnodup hr (show _ < l.rounds by rw [rounds]; omega)
  obtain ⟨head, hhead'⟩ := h.memory_eq places_zero
  obtain ⟨tail, htail'⟩ := h.memory_eq places_last
  rw [hhead'] at hhead
  rw [htail'] at htail
  have hsecond : (purged.write .head { head with next := .tail }).memory .tail = some tail := by
    rw [memory_write, if_neg (by simp), htail]
  refine ⟨{ (purged.write .head { head with next := .tail }).write .tail { tail with prev := .head } with
    listSize := 0, modCount := purged.modCount + 1 }, ?_, [], ⟨⟨⟨?_, ?_, ?_⟩, rfl, ?_⟩, rfl, ?_⟩, ?_⟩
  · rw [clear, h.next_eq places_zero hr]
    simp only [bind_eq_bind, bind_some, hpurged, setNext_eq hhead, setPrev_eq hsecond]
    rfl
  · apply chained_pair.mpr
    constructor
    · show ((purged.write .head { head with next := .tail }).write .tail { tail with prev := .head }).next .head = _
      rw [next_write, if_neg (by simp), next_write, if_pos rfl]
    · show ((purged.write .head { head with next := .tail }).write .tail { tail with prev := .head }).prev .tail = _
      rw [prev_write, if_pos rfl]
  · exact nodup_singleton _
  · exact nodup_singleton _
  · intro a ha
    cases ha
  · show (0 : Int) < 2 ^ 31
    decide
  · show l.modCount < purged.modCount + 1
    omega

theorem empty_represents [Inhabited ε] : Represents (empty : LinkedList ε) [] [] where
  path := ⟨chained_pair.mpr ⟨rfl, rfl⟩, nodup_singleton _, nodup_singleton _⟩
  values := rfl
  below := fun a ha => by cases ha
  size := rfl
  bounded := show (0 : Int) < 2 ^ 31 by decide

theorem Represents.locate_eq (h : Represents l addresses xs) (hi : i < xs.length)
    (hr : (places addresses)[i + 1]? = some r) : l.locate i = some r := by
  have hlength := h.length_eq
  have hsize := h.size
  rw [locate]
  split_ifs
  · rw [Int.toNat_natCast]
    exact h.follow_head hr
  · exact h.follow_tail hr (by omega)

theorem Represents.get_eq (h : Represents l addresses xs) (hi : xs[i]? = some value) : l.get i = some value := by
  have hlength := h.length_eq
  have hlt := (List.getElem?_eq_some_iff.mp hi).1
  obtain ⟨r, hr⟩ := exists_place addresses (show i + 1 < addresses.length + 2 by omega)
  rw [get, h.locate_eq hlt hr, bind_eq_bind, bind_some, h.valueAt_eq hr hi]

theorem Represents.setValue (h : Represents l addresses xs) (hr : (places addresses)[i + 1]? = some r)
    (hi : i < xs.length) (value : ε) :
    ∃ l', l.setValue r value = some l' ∧ Represents l' addresses (xs.set i value) ∧ l'.modCount = l.modCount := by
  obtain ⟨node, hnode⟩ := h.memory_eq hr
  have hlength := h.length_eq
  have hlt : i < addresses.length := by omega
  have hplace := places_succ hlt
  refine ⟨l.write r { node with value := value }, ?_, ⟨⟨?_, ?_, h.below⟩, ?_, h.bounded⟩, rfl⟩
  · rw [LinkedList.setValue, hnode, Option.map_some]
  · have hlinks : (l.write r { node with value := value }).links = l.links := by
      rw [links, links, Links.mk.injEq]
      constructor
      · funext u
        rw [next_write]
        split_ifs with hu
        · rw [hu, next_of_memory hnode]
        · rfl
      · funext u
        rw [prev_write]
        split_ifs with hu
        · rw [hu, prev_of_memory hnode]
        · rfl
    rw [hlinks]
    exact h.path
  · apply ext_getElem
    · rw [length_map, length_map, length_set, hlength]
    · intro k hk _
      rw [length_map] at hk
      have hvalue := h.valueAt_eq (places_succ hk) (List.getElem?_eq_getElem (by omega))
      rw [getElem_map, getElem_map, valueAt_write, getElem_set]
      split_ifs with hu hik hik
      · rfl
      · have hsame := h.place_inj (hu ▸ places_succ hk) hr
        omega
      · subst hik
        exact absurd (Option.some.inj (hplace.symm.trans hr)) hu
      · exact hvalue
  · show l.listSize = _
    rw [h.size, length_set]

theorem Represents.set_eq (h : Represents l addresses xs) {oldValue : ε} (hi : xs[i]? = some oldValue) (element : ε) :
    ∃ l', l.set i element = some (oldValue, l') ∧ Represents l' addresses (xs.set i element) ∧
      l'.modCount = l.modCount := by
  have hlength := h.length_eq
  have hlt := (List.getElem?_eq_some_iff.mp hi).1
  obtain ⟨r, hr⟩ := exists_place addresses (show i + 1 < addresses.length + 2 by omega)
  obtain ⟨l', hl', hrepresents, hcount⟩ := h.setValue hr hlt element
  refine ⟨l', ?_, hrepresents, hcount⟩
  rw [set, h.locate_eq hlt hr, bind_eq_bind, bind_some, h.valueAt_eq hr hi]
  simp only [bind_eq_bind, bind_some, hl']
  rfl

end LinkedList

end ActiveMQCpp.Decaf
