import ActiveMQCpp.DecafLinkedListIterator

/-! `LinkedList` behaves as a sequence with cursors while its iterators over a `const` list are not used after a
change and it is not assigned to itself. -/

namespace ActiveMQCpp.Decaf

open Runs Refinement Chain AnyIterator CursorSequence LinkedList LinkedListIterator List Option
  ReverseIterator Sequence
open LinkedList (places exists_place place_lt places_zero places_succ places_last Represents)

section Iterators

variable {ε : Type} {l l' : LinkedList ε} {addresses : List Nat} {xs : List ε} {c : SequenceCursor} {value : ε}

namespace LinkedListState

/-- The list holds the sequence, and every iterator belongs to a cursor. -/
def Refines (s : LinkedListState ε) (t : CursorSequence ε) : Prop :=
  ∃ addresses, Represents s.list addresses t.values ∧
    List.Forall₂ (fun it c => it.Follows s.list addresses c) s.iterators t.cursors

/-- What an operation of the list does, and what it does to the sequence. -/
def Outcome (l : LinkedList ε) (t : CursorSequence ε) (result : ListAnswer ε × LinkedList ε)
    (spec : ListAnswer ε × CursorSequence ε) : Prop :=
  result.1 = spec.1 ∧
    (result.2 = l ∧ spec.2 = t ∨ ∃ ys, LinkedList.Changed l result.2 ys ∧ spec.2 = t.become ys)

variable {s : LinkedListState ε} {t : CursorSequence ε} {result : ListAnswer ε × LinkedList ε}
  {spec : ListAnswer ε × CursorSequence ε} {answer : ListAnswer ε} {ys : List ε}
variable {addresses' : List Nat} {index : Int}
variable {end? : Option ε} {P : ε → Bool}

theorem outcome_same (l : LinkedList ε) (t : CursorSequence ε) (answer : ListAnswer ε) :
    Outcome l t (answer, l) (answer, t) := ⟨rfl, .inl ⟨rfl, rfl⟩⟩

theorem outcome_changed (h : LinkedList.Changed l l' ys) : Outcome l t (answer, l') (answer, t.become ys) :=
  ⟨rfl, .inr ⟨ys, h, rfl⟩⟩

theorem outcome_settle {changed : Option (LinkedList ε)} (h : ∃ l', changed = some l' ∧ LinkedList.Changed l l' ys) :
    Outcome l t (l.settle answer changed) (answer, t.become ys) := by
  obtain ⟨l', rfl, hchanged⟩ := h
  exact outcome_changed hchanged

theorem follows_stale {it : AnyIterator} (hf : it.Follows l addresses c)
    (hless : l.modCount < l'.modCount) : it.Follows l' addresses' { c with stale := true } where
  constant := hf.constant
  descending := hf.descending
  stale := fun _ => by
    cases hstale : c.stale with
    | true => exact (hf.stale hstale).trans hless
    | false =>
      rw [(hf.fresh hstale).1]
      exact hless
  fresh := fun hfresh => by cases hfresh

theorem forall_stale {its : List AnyIterator} {cursors : List SequenceCursor}
    (h : List.Forall₂ (fun it c => it.Follows l addresses c) its cursors) (hless : l.modCount < l'.modCount) :
    List.Forall₂ (fun it c => it.Follows l' addresses' c) its (cursors.map fun c => { c with stale := true }) := by
  induction h with
  | nil => exact .nil
  | cons hf _ ih => exact .cons (follows_stale hf hless) ih

theorem refines_change (h : Refines s t) (houtcome : Outcome s.list t result spec) :
    (s.change result).1 = spec.1 ∧ Refines (s.change result).2 spec.2 := by
  obtain ⟨addresses, hlist, hits⟩ := h
  obtain ⟨hanswer, ⟨hsame, hspec⟩ | ⟨ys, ⟨addresses', hrepresents, hless⟩, hspec⟩⟩ := houtcome
  · refine ⟨hanswer, ?_⟩
    rw [change, hsame, hspec]
    exact ⟨addresses, hlist, hits⟩
  · refine ⟨hanswer, ?_⟩
    rw [hspec]
    exact ⟨addresses', hrepresents, forall_stale hits hless⟩

/-! ### Operations of iterators -/

section Cursors

variable {i : Nat} {op : LinkedListOp ε} {it it' : AnyIterator} {c' : SequenceCursor}
variable {act' : SequenceCursor → ListAnswer ε × CursorSequence ε}

theorem refines_set (hlist : Represents s.list addresses t.values)
    (hits : List.Forall₂ (fun it c => it.Follows s.list addresses c) s.iterators t.cursors)
    (hf : it'.Follows s.list addresses c') :
    Refines { s with iterators := s.iterators.set i it' } { t with cursors := t.cursors.set i c' } :=
  ⟨addresses, hlist, forall₂_set hits i hf⟩

theorem refines_changeBy {addresses' : List Nat}
    (hits : List.Forall₂ (fun it c => it.Follows s.list addresses c) s.iterators t.cursors)
    (hrepresents : Represents l' addresses' ys) (hless : s.list.modCount < l'.modCount)
    (hf : it'.Follows l' addresses' c') :
    Refines { list := l', iterators := s.iterators.set i it' } (t.changeBy i c' ys) :=
  ⟨addresses', hrepresents, forall₂_set (forall_stale hits hless) i hf⟩

theorem refines_same (h : Refines s t) (hit : s.iterators[i]? = some it) :
    Refines { list := s.list, iterators := s.iterators.set i it } t := by
  rw [set_of_getElem? hit]
  exact h

/-- The answer and the state after an operation of an iterator. -/
def AgreesAs (op : LinkedListOp ε) (t : CursorSequence ε) (result : ListAnswer ε × LinkedListState ε)
    (spec : ListAnswer ε × CursorSequence ε) : Prop :=
  (result.1 = spec.1 ∨ t.Open op result.1) ∧ Refines result.2 spec.2

theorem withIterator_agrees (h : Refines s t) {act : AnyIterator → ListAnswer ε × AnyIterator × LinkedList ε}
    (hact : ∀ addresses it c, Represents s.list addresses t.values →
      List.Forall₂ (fun it c => it.Follows s.list addresses c) s.iterators t.cursors →
      s.iterators[i]? = some it → t.cursors[i]? = some c → it.Follows s.list addresses c →
      AgreesAs op t ((act it).1, { list := (act it).2.2, iterators := s.iterators.set i (act it).2.1 }) (act' c)) :
    AgreesAs op t (s.withIterator i act) (t.withCursor i act') := by
  obtain ⟨addresses, hlist, hits⟩ := id h
  rw [withIterator, withCursor]
  cases hit : s.iterators[i]? with
  | none =>
    rw [getElem?_none_of_rel hits hit]
    exact ⟨.inl rfl, h⟩
  | some it =>
    obtain ⟨c, hc, hf⟩ := rel_of_getElem? hits hit
    rw [hc]
    exact hact addresses it c hlist hits hit hc hf

theorem onList_agrees (h : Refines s t) {act : LinkedListIterator → ListAnswer ε × LinkedListIterator × LinkedList ε}
    (hact : ∀ addresses it c, Represents s.list addresses t.values →
      List.Forall₂ (fun it c => it.Follows s.list addresses c) s.iterators t.cursors →
      s.iterators[i]? = some (.list it) → t.cursors[i]? = some c → (AnyIterator.list it).Follows s.list addresses c →
      AgreesAs op t ((act it).1, { list := (act it).2.2, iterators := s.iterators.set i (.list (act it).2.1) })
        (act' c)) :
    AgreesAs op t (s.withIterator i (onList s.list act)) (t.withCursor i (t.onList act')) := by
  apply withIterator_agrees h
  intro addresses it c hlist hits hit hc hf
  cases it with
  | list it =>
    rw [CursorSequence.onList, ← hf.descending]
    exact hact addresses it c hlist hits hit hc hf
  | reverse it =>
    rw [CursorSequence.onList, ← hf.descending]
    exact ⟨.inl rfl, refines_same h hit⟩

end Cursors

/-! ### Operations that are right -/

def Fits (amount : Nat) (l : LinkedList ε) : Prop := l.listSize + amount < 2 ^ 31

def InRange (index : Int) (l : LinkedList ε) : Prop := 0 ≤ index ∧ index ≤ l.listSize

/-- The iterators over a `const` list are not used after a change, the list is not assigned to itself unless it is
empty, its size stays an `int`, and `hasNext` is not asked of an iterator that stands at a node that is gone. -/
def Orderly (s : LinkedListState ε) : LinkedListOp ε → Prop
  | .add _ | .offer _ | .offerLast _ | .addLast _ | .offerFirst _ | .addFirst _ | .push _ => Fits 1 s.list
  | .addAt index _ => InRange index s.list → Fits 1 s.list
  | .addAll collection => ∀ values ∈ s.list.valuesOf collection, Fits values.length s.list
  | .addAllAt index collection =>
    InRange index s.list → ∀ values ∈ s.list.valuesOf collection, Fits values.length s.list
  | .copy collection | .assign collection =>
    (collection.isSelf → s.list.listSize = 0) ∧ ∀ values ∈ s.list.valuesOf collection, (values.length : Int) < 2 ^ 31
  | .hasNext i =>
    ∀ it ∈ s.iterators[i]?, it.expectedModCount = s.list.modCount ∨ (s.list.memory it.current).isSome
  | .next i => ∀ it ∈ s.iterators[i]?, it.constant = true → it.expectedModCount = s.list.modCount
  | .previous i =>
    ∀ it ∈ s.iterators[i]?, it.descending = false → it.constant = true → it.expectedModCount = s.list.modCount
  | .addCurrent i _ =>
    ∀ it ∈ s.iterators[i]?, it.descending = false → it.constant = false → it.expectedModCount = s.list.modCount →
      Fits 1 s.list
  | _ => True

theorem insertAll_outcome (h : Represents l addresses t.values) (hlow : 0 ≤ index)
    (hhigh : index ≤ t.values.length) (collection : Argument ε)
    (hfits : ∀ values ∈ l.valuesOf collection, Fits values.length l) :
    Outcome l t (l.addCollection index collection)
      (t.insertAll index.toNat (valuesOf t.values collection)) := by
  have hsize := h.size
  have hvalues := h.valuesOf_eq collection
  rw [addCollection, if_neg (by omega), hvalues]
  cases hadded : valuesOf t.values collection with
  | nil => exact outcome_same l t _
  | cons value values =>
    rw [hadded] at hvalues
    exact outcome_settle (addAllAtLocation_changed h hlow hhigh _ (hfits _ hvalues))

theorem addCollection_outside (h : Represents l addresses t.values)
    (hout : ¬(0 ≤ index ∧ index ≤ (t.values.length : Int))) (collection : Argument ε) :
    l.addCollection index collection = (.indexOutOfBoundsException, l) := by
  have hsize := h.size
  rw [addCollection, if_pos (by omega)]

theorem copy_outcome (h : Represents l addresses t.values) (collection : Argument ε)
    (hself : collection.isSelf → l.listSize = 0)
    (hfits : ∀ values ∈ l.valuesOf collection, (values.length : Int) < 2 ^ 31) :
    Outcome l t (l.copy collection) (.done, t.become (valuesOf t.values collection)) := by
  obtain ⟨cleared, hcleared, addresses', hempty, hless⟩ := clear_changed h
  have hvalues : cleared.valuesOf collection = some (valuesOf t.values collection) := by
    cases hcollection : collection with
    | other values => rfl
    | self =>
      have hzero := hself (by rw [hcollection]; rfl)
      rw [h.size] at hzero
      rw [hempty.valuesOf_eq]
      exact congrArg some (length_eq_zero_iff.mp (Int.natCast_eq_zero.mp hzero)).symm
  have hlength := hfits _ (h.valuesOf_eq collection)
  have hzero : cleared.listSize = 0 := hempty.size
  rw [copy, hcleared]
  dsimp only
  rw [addCollection, if_neg (by omega), hvalues]
  cases hadded : valuesOf t.values collection with
  | nil => exact outcome_changed ⟨addresses', hempty, hless⟩
  | cons value values =>
    rw [hadded] at hlength
    obtain ⟨l', hl', addresses'', hrepresents, hless'⟩ :=
      addAllAtLocation_changed hempty (le_refl 0) (Int.natCast_nonneg _) (value :: values)
        (by rw [hzero, Int.zero_add]; exact hlength)
    simp only [hl', settle]
    rw [take_nil, drop_nil, nil_append, append_nil] at hrepresents
    exact outcome_changed ⟨addresses'', hrepresents, hless.trans hless'⟩

theorem takeFirst_outcome (h : Represents l addresses t.values) :
    Outcome l t l.removeAtFront (t.takeFirst .noSuchElementException) := by
  rw [takeFirst]
  cases hvalues : t.values with
  | nil =>
    rw [hvalues] at h
    rw [removeAtFront_empty h]
    exact outcome_same l t _
  | cons value values =>
    rw [hvalues] at h
    obtain ⟨l', hl', hchanged⟩ := removeAtFront_cons h
    rw [hl']
    exact outcome_changed hchanged

theorem takeLast_outcome (h : Represents l addresses t.values) :
    Outcome l t l.removeAtEnd (t.takeLast .noSuchElementException) := by
  rw [takeLast]
  cases hlast : t.values.getLast? with
  | none =>
    rw [List.getLast?_eq_none_iff.mp hlast] at h
    rw [removeAtEnd_empty h]
    exact outcome_same l t _
  | some value =>
    obtain ⟨values, hvalues⟩ := List.getLast?_eq_some_iff.mp hlast
    rw [hvalues] at h
    obtain ⟨l', hl', hchanged⟩ := removeAtEnd_concat h
    rw [hl', hvalues, dropLast_concat]
    exact outcome_changed hchanged

theorem first_eq (h : Represents l addresses xs) : l.first = xs.head? ∨ xs = [] := by
  cases xs with
  | nil => exact .inr rfl
  | cons value xs =>
    left
    obtain ⟨r, hr⟩ := exists_place addresses (show 0 + 1 < addresses.length + 2 by omega)
    rw [first, h.next_eq places_zero hr, bind_eq_bind, bind_some, h.valueAt_eq hr rfl]
    rfl

theorem last_eq (h : Represents l addresses xs) : l.last = xs.getLast? ∨ xs = [] := by
  have hlength := h.length_eq
  cases hlast : xs.getLast? with
  | none => exact .inr (List.getLast?_eq_none_iff.mp hlast)
  | some value =>
    left
    obtain ⟨values, rfl⟩ := List.getLast?_eq_some_iff.mp hlast
    rw [length_append, length_singleton] at hlength
    obtain ⟨r, hr⟩ := exists_place addresses (show values.length + 1 < addresses.length + 2 by omega)
    have htail : (places addresses)[values.length + 2]? = some .tail := by
      have hend : (places addresses)[addresses.length + 1]? = some .tail := places_last
      rwa [hlength] at hend
    rw [last, h.prev_eq hr htail, bind_eq_bind, bind_some,
      h.valueAt_eq hr List.getElem?_concat_length]

theorem peekOr_eq {shown : Option ε} (h : Represents l addresses xs)
    (hend : end? = shown ∨ xs = []) (hshown : shown = none ↔ xs = []) (whenEmpty : ListAnswer ε) :
    l.peekOr whenEmpty end? = showOr whenEmpty shown := by
  have hsize := h.size
  rw [peekOr]
  split_ifs with hzero
  · rw [hshown.mpr (length_eq_zero_iff.mp (by omega))]
    rfl
  · have hne : xs ≠ [] := by
      rintro rfl
      exact hzero hsize
    rw [hend.resolve_right hne]
    cases shown with
    | none => exact absurd (hshown.mp rfl) hne
    | some value => rfl

theorem poll_outcome {removed : ListAnswer ε × LinkedList ε}
    (take : ListAnswer ε → ListAnswer ε × CursorSequence ε) (h : Represents l addresses t.values)
    (hnone : t.values = [] → take (.bool false) = (.bool false, t))
    (hsome : t.values ≠ [] → ∃ value l' ys, end? = some value ∧ removed = (.value value, l') ∧
      LinkedList.Changed l l' ys ∧ take (.bool false) = (.value value, t.become ys)) :
    Outcome l t (l.pollOr end? removed) (take (.bool false)) := by
  have hsize := h.size
  unfold pollOr
  split_ifs with hzero
  · rw [hnone (length_eq_zero_iff.mp (by omega))]
    exact outcome_same l t _
  · have hne : t.values ≠ [] := by
      intro heq
      rw [heq] at hsize
      exact hzero hsize
    obtain ⟨value, l', ys, rfl, rfl, hchanged, htake⟩ := hsome hne
    rw [htake]
    exact outcome_changed hchanged

theorem pollFirst_outcome (h : Represents l addresses t.values) :
    Outcome l t (l.pollOr l.first l.removeAtFront) (t.takeFirst (.bool false)) := by
  apply poll_outcome t.takeFirst h
  · intro hnil
    rw [takeFirst, hnil]
  · intro hne
    have hfirst := (first_eq h).resolve_right hne
    cases hvalues : t.values with
    | nil => exact absurd hvalues hne
    | cons value values =>
      rw [hvalues] at h hfirst
      obtain ⟨l', hl', hchanged⟩ := removeAtFront_cons h
      refine ⟨value, l', values, hfirst, hl', hchanged, ?_⟩
      rw [takeFirst, hvalues]

theorem pollLast_outcome (h : Represents l addresses t.values) :
    Outcome l t (l.pollOr l.last l.removeAtEnd) (t.takeLast (.bool false)) := by
  apply poll_outcome t.takeLast h
  · intro hnil
    rw [takeLast, hnil]
    rfl
  · intro hne
    have hlast := (last_eq h).resolve_right hne
    cases hvalue : t.values.getLast? with
    | none => exact absurd (List.getLast?_eq_none_iff.mp hvalue) hne
    | some value =>
      obtain ⟨values, hvalues⟩ := List.getLast?_eq_some_iff.mp hvalue
      rw [hvalue] at hlast
      rw [hvalues] at h
      obtain ⟨l', hl', hchanged⟩ := removeAtEnd_concat h
      refine ⟨value, l', values, hlast, hl', hchanged, ?_⟩
      rw [takeLast, hvalue, hvalues, dropLast_concat]

theorem outcome_sweep {b : Bool} (hrepresents : Represents l' addresses' ys)
    (hcount : if b then l.modCount < l'.modCount else l' = l) :
    Outcome l t (.bool b, l') (.bool b, if b then t.become ys else t) := by
  cases b with
  | true => exact outcome_changed ⟨addresses', hrepresents, hcount⟩
  | false =>
    rw [if_neg Bool.false_ne_true] at hcount
    rw [hcount]
    exact outcome_same l t _

theorem without_congr {Q : ε → Bool} (hPQ : ∀ v ∈ t.values, P v = Q v) : t.without P = t.without Q := by
  have hany : t.values.any P = t.values.any Q := by
    rw [Bool.eq_iff_iff, List.any_eq_true, List.any_eq_true]
    constructor
    · rintro ⟨v, hv, hp⟩
      exact ⟨v, hv, by rw [← hPQ v hv, hp]⟩
    · rintro ⟨v, hv, hq⟩
      exact ⟨v, hv, by rw [hPQ v hv, hq]⟩
  have hfilter : t.values.filter (fun v => !P v) = t.values.filter fun v => !Q v :=
    filter_congr fun v hv => by rw [hPQ v hv]
  rw [without, without, hany, hfilter]

theorem without_outcome {test : ε → LinkedList ε → Option Bool} (htest : LinkedList.Tests test P)
    (h : Represents l addresses t.values) : Outcome l t (l.sweepForward false test) (t.without P) := by
  obtain ⟨l', addresses', hsweep, hrepresents, hcount⟩ := sweepForward_eq false htest h
  rw [kept, if_neg Bool.false_ne_true] at hrepresents
  rw [hsweep]
  exact outcome_sweep hrepresents hcount

section Equality

variable [DecidableEq ε]

theorem any_eq_mem (value : ε) : xs.any (fun v => decide (v = value)) = decide (value ∈ xs) := by
  rw [Bool.eq_iff_iff, List.any_eq_true, decide_eq_true_iff]
  constructor
  · rintro ⟨v, hv, heq⟩
    rwa [← of_decide_eq_true heq]
  · exact fun hmem => ⟨value, hmem, decide_eq_true rfl⟩

theorem eraseP_eq_erase (value : ε) : xs.eraseP (fun v => decide (v = value)) = xs.erase value :=
  (erase_eq_eraseP' value xs).symm

theorem removeFirstOccurrence_outcome (h : Represents l addresses t.values) (value : ε) :
    Outcome l t (l.removeFirstOccurrence value) (t.eraseFirst value) := by
  have htest : LinkedList.Tests (fun v _ => some (decide (v = value))) fun v => decide (v = value) := fun _ _ => rfl
  obtain ⟨l', addresses', hsweep, hrepresents, hcount⟩ := sweepForward_eq true htest h
  rw [any_eq_mem] at hsweep hcount
  rw [kept, if_pos rfl, eraseP_eq_erase] at hrepresents
  have houtcome := outcome_sweep (t := t) hrepresents hcount
  rw [removeFirstOccurrence, hsweep, eraseFirst]
  simpa only [decide_eq_true_eq] using houtcome

theorem removeLastOccurrence_outcome (h : Represents l addresses t.values) (value : ε) :
    Outcome l t (l.removeLastOccurrence value) (t.eraseLast value) := by
  have hle := h.length_le
  have hlength := h.length_eq
  have htest : LinkedList.Tests (fun v _ => some (decide (v = value))) fun v => decide (v = value) := fun _ _ => rfl
  have hf := ReverseIterator.new_follows h false
  have hall : Represents l addresses (t.values.reverse.reverse ++ []) := by
    rwa [List.reverse_reverse, List.append_nil]
  have hposition : t.values.length = t.values.reverse.length := List.length_reverse.symm
  obtain ⟨l', addresses', hsweep, hrepresents, hcount⟩ :=
    sweep_backward false htest hall hf rfl rfl rfl hposition
      (show t.values.reverse.length < l.rounds by rw [rounds]; omega)
  rw [any_eq_mem] at hsweep hcount
  rw [eraseP_eq_erase, List.append_nil] at hrepresents
  have houtcome := outcome_sweep (t := t) hrepresents hcount
  rw [removeLastOccurrence, hsweep, eraseLast, Bool.false_or]
  simpa only [List.mem_reverse, decide_eq_true_eq] using houtcome

/-- What `contains` of a collection answers for an element of the list. -/
def contained : Argument ε → ε → Bool
  | .other values, v => decide (v ∈ values)
  | .self, _ => true

theorem contained_eq {v : ε} (hv : v ∈ xs) (collection : Argument ε) :
    contained collection v = decide (v ∈ valuesOf xs collection) := by
  cases collection with
  | other values => rfl
  | self => exact (decide_eq_true hv).symm

theorem collectionContains_tests (collection : Argument ε) :
    LinkedList.Tests (collectionContains collection) (contained collection) := by
  intro l addresses xs value h hmem
  cases collection with
  | other values => rfl
  | self =>
    rw [collectionContains, h.indexOf_eq, map_some]
    exact congrArg some (decide_eq_true (indexOrNone_ne_iff.mpr hmem))

theorem removeAll_outcome (h : Represents l addresses t.values) (collection : Argument ε) :
    Outcome l t (l.removeAll collection) (t.without fun v => decide (v ∈ valuesOf t.values collection)) := by
  rw [← without_congr fun v hv => contained_eq hv collection]
  exact without_outcome (collectionContains_tests collection) h

theorem retainAll_outcome (h : Represents l addresses t.values) (collection : Argument ε) :
    Outcome l t (l.retainAll collection) (t.without fun v => decide (v ∉ valuesOf t.values collection)) := by
  have htest : LinkedList.Tests (fun v l => (collectionContains collection v l).map (!·))
      fun v => !contained collection v := by
    intro l addresses xs value h hmem
    dsimp only
    rw [collectionContains_tests collection h hmem, map_some]
  have hcongr : t.without (fun v => !contained collection v) =
      t.without fun v => decide (v ∉ valuesOf t.values collection) := by
    apply without_congr
    intro v hv
    rw [contained_eq hv, decide_not]
  rw [← hcongr]
  exact without_outcome htest h

end Equality

theorem get?_eq_none_iff : get? index xs = none ↔ ¬(0 ≤ index ∧ index < xs.length) := by
  rw [get?]
  split_ifs with hneg
  · exact iff_of_true rfl (by omega)
  · rw [List.getElem?_eq_none_iff]
    omega

theorem get?_of_range (hlow : 0 ≤ index) : get? index xs = xs[index.toNat]? := by
  rw [get?, if_neg (by omega)]

theorem removeAt_outcome (h : Represents l addresses t.values) (index : Int) :
    Outcome l t (l.removeAt index) (match get? index t.values with
      | none => (.indexOutOfBoundsException, t)
      | some old => (.value old, t.become (t.values.eraseIdx index.toNat))) := by
  rw [removeAt]
  by_cases hrange : 0 ≤ index ∧ index ≤ (t.values.length : Int)
  · obtain ⟨hlow, hhigh⟩ := hrange
    obtain ⟨it, hnew, hf⟩ := new_follows h false hlow hhigh
    obtain ⟨hcount, hat⟩ := hf.fresh rfl
    obtain ⟨hanswer, hat', hconstant, hcount'⟩ := it.next_agrees h hat hcount
    rw [hnew, get?_of_range hlow]
    rw [SequenceCursor.forward] at hanswer hat'
    generalize hit' : (it.next l).2 = it' at hat' hconstant hcount'
    cases hvalue : t.values[index.toNat]? with
    | none =>
      rw [hvalue] at hanswer
      have hstep : it.next l = (.noSuchElementException, it') := Prod.ext hanswer hit'
      simp only [hstep]
      exact outcome_same l t _
    | some old =>
      rw [hvalue] at hanswer hat'
      have hstep : it.next l = (.value old, it') := Prod.ext hanswer hit'
      obtain ⟨it'', l', hremove, hrepresents, hless, -⟩ :=
        it'.remove_some h hat' (hcount'.trans hcount) (hconstant.trans hf.constant) rfl
      simp only [hstep, hremove]
      exact outcome_changed ⟨_, hrepresents, by omega⟩
  · rw [new_none h false hrange, get?_eq_none_iff.mpr (by omega)]
    exact outcome_same l t _

section Cursors

variable {i : Nat} {it : AnyIterator}
variable {op : LinkedListOp ε}
variable {e : ε}

theorem modified_stale (hconstant : it.constant = false) (hcount : it.expectedModCount < l.modCount) :
    it.next l = (.concurrentModificationException, it) ∧ it.remove l = (.concurrentModificationException, it, l) := by
  cases it with
  | list it =>
    have hmodified : it.modified l = true := by
      rw [LinkedListIterator.modified, show it.constant = false from hconstant]
      exact decide_eq_true hcount.ne
    rw [AnyIterator.next, AnyIterator.remove, LinkedListIterator.next, LinkedListIterator.remove, hmodified,
      show it.constant = false from hconstant]
    exact ⟨rfl, rfl⟩
  | reverse it =>
    have hmodified : it.modified l = true := by
      rw [ReverseIterator.modified, show it.constant = false from hconstant]
      exact decide_eq_true hcount.ne
    rw [AnyIterator.next, AnyIterator.remove, ReverseIterator.next, ReverseIterator.remove, hmodified,
      show it.constant = false from hconstant]
    exact ⟨rfl, rfl⟩

theorem list_modified_stale {it : LinkedListIterator} (hconstant : it.constant = false)
    (hcount : it.expectedModCount < l.modCount) : it.modified l = true := by
  rw [LinkedListIterator.modified, hconstant]
  exact decide_eq_true hcount.ne

theorem hasNext_bool {node : ListNode ε} (hnode : l.memory it.current = some node) : ∃ b, it.hasNext l = .bool b := by
  cases it with
  | list it =>
    have hlink : l.next it.current = some node.next := next_of_memory hnode
    rw [AnyIterator.hasNext, LinkedListIterator.hasNext, hlink]
    exact ⟨_, rfl⟩
  | reverse it =>
    have hlink : l.prev it.current = some node.prev := prev_of_memory hnode
    rw [AnyIterator.hasNext, ReverseIterator.hasNext, hlink]
    exact ⟨_, rfl⟩

theorem hasNext_agrees (h : Refines s t) (horderly : Orderly s (.hasNext i)) :
    AgreesAs (.hasNext i) t (s.withIterator i fun it => (it.hasNext s.list, it, s.list))
      (t.withCursor i fun c => fresh c t (.bool (c.hasNext t.values), t)) := by
  apply withIterator_agrees h
  intro addresses it c hlist hits hit hc hf
  rw [fresh]
  refine ⟨?_, ?_⟩
  · cases hstale : c.stale with
    | false => exact .inl (AnyIterator.hasNext_agrees hlist hf hstale)
    | true =>
      obtain hcount | hthere := horderly it hit
      · exact absurd hcount (hf.stale hstale).ne
      · obtain ⟨node, hnode⟩ := isSome_iff_exists.mp hthere
        obtain ⟨b, hb⟩ := hasNext_bool hnode
        exact .inr ⟨c, b, hc, hstale, hb⟩
  · split_ifs <;> exact refines_same h hit

theorem next_agrees (h : Refines s t) (horderly : Orderly s (.next i)) :
    AgreesAs (.next i) t (s.withIterator i fun it => ((it.next s.list).1, (it.next s.list).2, s.list))
      (t.withCursor i fun c => fresh c t (t.moved i (c.next t.values))) := by
  apply withIterator_agrees h
  intro addresses it c hlist hits hit hc hf
  rw [fresh]
  cases hstale : c.stale with
  | false =>
    obtain ⟨hanswer, hf'⟩ := AnyIterator.next_agrees hlist hf hstale
    exact ⟨.inl hanswer, refines_set hlist hits hf'⟩
  | true =>
    have hless := hf.stale hstale
    have hconstant : it.constant = false := by
      cases hconstant : it.constant with
      | false => rfl
      | true => exact absurd (horderly it hit hconstant) hless.ne
    rw [(modified_stale hconstant hless).1]
    exact ⟨.inl rfl, refines_same h hit⟩

theorem previous_agrees (h : Refines s t) (horderly : Orderly s (.previous i)) : AgreesAs (.previous i) t
      (s.withIterator i (onList s.list fun it => ((it.previous s.list).1, (it.previous s.list).2, s.list)))
      (t.withCursor i (t.onList fun c => CursorSequence.fresh c t (t.moved i (c.backward t.values)))) := by
  apply onList_agrees h
  intro addresses it c hlist hits hit hc hf
  rw [CursorSequence.fresh]
  cases hstale : c.stale with
  | false =>
    obtain ⟨hcount, hat⟩ := hf.fresh hstale
    obtain ⟨hanswer, hat', hconstant, hcount'⟩ := it.previous_agrees hlist hat hcount
    refine ⟨?_, refines_set hlist hits (hf.moved hstale hat' rfl hconstant (hcount'.trans hcount) ?_)⟩
    · obtain hanswer | ⟨hzero, hanswer⟩ := hanswer
      · exact .inl hanswer
      · exact .inr ⟨c, hc, hstale, hzero, hanswer⟩
    · exact AnyIterator.backward_kept c
  | true =>
    have hless : it.expectedModCount < s.list.modCount := hf.stale hstale
    have hconstant : it.constant = false := by
      cases hconstant : it.constant with
      | false => rfl
      | true => exact absurd (horderly (.list it) hit rfl hconstant) hless.ne
    rw [LinkedListIterator.previous, list_modified_stale hconstant hless]
    exact ⟨.inl rfl, refines_same h hit⟩

theorem query_agrees (h : Refines s t) {ask : LinkedListIterator → ListAnswer ε}
    {ask' : SequenceCursor → ListAnswer ε}
    (hfresh : ∀ addresses it c, Represents s.list addresses t.values → LinkedListIterator.At addresses it c →
      ask it = ask' c)
    (hopen : ∀ it c, t.cursors[i]? = some c → c.stale = true → t.Open op (ask it)) :
    AgreesAs op t (s.withIterator i (onList s.list fun it => (ask it, it, s.list)))
      (t.withCursor i (t.onList fun c => fresh c t (ask' c, t))) := by
  apply onList_agrees h
  intro addresses it c hlist hits hit hc hf
  rw [fresh]
  cases hstale : c.stale with
  | false => exact ⟨.inl (hfresh addresses it c hlist (hf.fresh hstale).2), refines_same h hit⟩
  | true => exact ⟨.inr (hopen it c hc hstale), refines_same h hit⟩

theorem removeCurrent_agrees (h : Refines s t) : AgreesAs op t (s.withIterator i fun it => it.remove s.list)
      (t.withCursor i fun c => t.writing c (t.removeLast i c)) := by
  apply withIterator_agrees h
  intro addresses it c hlist hits hit hc hf
  rw [writing, fresh]
  cases hconstant : c.constant with
  | true =>
    have hremove : it.remove s.list = (.unsupportedOperationException, it, s.list) := by
      have hsame := hf.constant.trans hconstant
      cases it with
      | list it =>
        rw [AnyIterator.remove, LinkedListIterator.remove, if_pos (show it.constant = true from hsame)]
      | reverse it =>
        rw [AnyIterator.remove, ReverseIterator.remove, if_pos (show it.constant = true from hsame)]
    rw [hremove]
    exact ⟨.inl rfl, refines_same h hit⟩
  | false =>
    cases hstale : c.stale with
    | true =>
      rw [(modified_stale (hf.constant.trans hconstant) (hf.stale hstale)).2]
      exact ⟨.inl rfl, refines_same h hit⟩
    | false =>
      cases hlast : c.last with
      | none =>
        rw [remove_none hf hstale hconstant hlast, removeLast, hlast]
        exact ⟨.inl rfl, refines_same h hit⟩
      | some j =>
        obtain ⟨it', l', addresses', hremove, hrepresents, hless, hf'⟩ :=
          remove_some hlist hf hstale hconstant hlast
        rw [hremove, removeLast, hlast]
        exact ⟨.inl rfl, refines_changeBy hits hrepresents hless hf'⟩

theorem addCurrent_agrees (h : Refines s t) (horderly : Orderly s (.addCurrent i e)) :
    AgreesAs (.addCurrent i e) t (s.withIterator i (onList s.list fun it => it.add s.list e))
      (t.withCursor i (t.onList fun c => t.writing c (t.addBefore i c e))) := by
  apply onList_agrees h
  intro addresses it c hlist hits hit hc hf
  rw [CursorSequence.writing, CursorSequence.fresh]
  have hsame : it.constant = c.constant := hf.constant
  cases hconstant : c.constant with
  | true =>
    rw [LinkedListIterator.add, if_pos (hsame.trans hconstant)]
    exact ⟨.inl rfl, refines_same h hit⟩
  | false =>
    have hfalse := hsame.trans hconstant
    cases hstale : c.stale with
    | true =>
      rw [LinkedListIterator.add, hfalse, list_modified_stale hfalse (hf.stale hstale)]
      exact ⟨.inl rfl, refines_same h hit⟩
    | false =>
      obtain ⟨hcount, hat⟩ := hf.fresh hstale
      have hfits := horderly (.list it) hit rfl hfalse hcount
      obtain ⟨it', l', addresses', hadd, hrepresents, hcount', hat', hconstant', hexpected⟩ :=
        it.add_agrees hlist hat hcount hfalse hfits e
      have hless : s.list.modCount < l'.modCount := by omega
      rw [hadd]
      refine ⟨.inl rfl, refines_changeBy hits hrepresents hless ?_⟩
      exact hf.moved hstale hat' rfl hconstant' hexpected ⟨rfl, rfl, rfl⟩

theorem forall_kept {its : List AnyIterator} {cursors : List SequenceCursor}
    (h : List.Forall₂ (fun it c => it.Follows l addresses c) its cursors) (hcount : l'.modCount = l.modCount) :
    List.Forall₂ (fun it c => it.Follows l' addresses c) its cursors :=
  h.imp fun _ _ hf => ⟨hf.constant, hf.descending, hcount ▸ hf.stale, hcount ▸ hf.fresh⟩

theorem setCurrent_agrees (h : Refines s t) :
    AgreesAs op t (s.withIterator i (onList s.list fun it => ((it.set s.list e).1, it, (it.set s.list e).2)))
      (t.withCursor i (t.onList fun c => t.writing c (t.setLast c e))) := by
  apply onList_agrees h
  intro addresses it c hlist hits hit hc hf
  rw [CursorSequence.writing, CursorSequence.fresh]
  have hsame : it.constant = c.constant := hf.constant
  cases hconstant : c.constant with
  | true =>
    rw [LinkedListIterator.set, if_pos (hsame.trans hconstant)]
    exact ⟨.inl rfl, refines_same h hit⟩
  | false =>
    have hfalse := hsame.trans hconstant
    cases hstale : c.stale with
    | true =>
      rw [LinkedListIterator.set, hfalse, list_modified_stale hfalse (hf.stale hstale)]
      exact ⟨.inl rfl, refines_same h hit⟩
    | false =>
      obtain ⟨hcount, hat⟩ := hf.fresh hstale
      cases hlast : c.last with
      | none =>
        rw [it.set_none hat hcount hfalse hlast, CursorSequence.setLast, hlast]
        exact ⟨.inl rfl, refines_same h hit⟩
      | some j =>
        obtain ⟨l', hset, hrepresents, hcount'⟩ := it.set_some hlist hat hcount hfalse hlast e
        rw [hset, CursorSequence.setLast, hlast, set_of_getElem? hit]
        exact ⟨.inl rfl, addresses, hrepresents, forall_kept hits hcount'⟩

end Cursors

theorem iterate_agrees (h : Refines s t) (constant : Bool) (index : Int) :
    (s.iterate ((LinkedListIterator.new s.list constant index).map fun it => it.map AnyIterator.list)).1 =
        (if 0 ≤ index ∧ index ≤ t.values.length then .done else .indexOutOfBoundsException) ∧
      Refines (s.iterate ((LinkedListIterator.new s.list constant index).map fun it => it.map AnyIterator.list)).2
        (if 0 ≤ index ∧ index ≤ t.values.length then { t with cursors := t.cursors ++
          [{ constant := constant, descending := false, position := index.toNat }] } else t) := by
  obtain ⟨addresses, hlist, hits⟩ := id h
  by_cases hrange : 0 ≤ index ∧ index ≤ (t.values.length : Int)
  · obtain ⟨it, hnew, hf⟩ := new_follows hlist constant hrange.1 hrange.2
    rw [hnew, if_pos hrange, if_pos hrange]
    exact ⟨rfl, addresses, hlist, forall₂_concat hits hf⟩
  · rw [new_none hlist constant hrange, if_neg hrange, if_neg hrange]
    exact ⟨rfl, h⟩

variable [DecidableEq ε]

theorem step_agrees (h : Refines s t) (op : LinkedListOp ε) (horderly : Orderly s op) :
    AgreesAs op t (s.step op) (t.step op) := by
  obtain ⟨addresses, hlist, hits⟩ := id h
  have hsize := hlist.size
  have hsimple : ∀ {result : ListAnswer ε × LinkedList ε} {spec : ListAnswer ε × CursorSequence ε},
      Outcome s.list t result spec → AgreesAs op t (s.change result) spec := by
    intro result spec houtcome
    obtain ⟨hanswer, hrefines⟩ := refines_change h houtcome
    exact ⟨.inl hanswer, hrefines⟩
  have hquery : ∀ {answer : ListAnswer ε} {answer' : ListAnswer ε}, answer = answer' →
      AgreesAs op t (answer, s) (answer', t) := fun heq => ⟨.inl heq, h⟩
  cases op with
  | add value | offer value | offerLast value | addLast value =>
    exact hsimple (outcome_settle (LinkedList.addToEnd_changed hlist horderly value))
  | offerFirst value | addFirst value | push value =>
    exact hsimple (outcome_settle (LinkedList.addToFront_changed hlist horderly value))
  | addAt index value =>
    rw [step, CursorSequence.step]
    apply hsimple
    rw [LinkedList.addChecked]
    by_cases hrange : InRange index s.list
    · obtain ⟨hlow, hhigh⟩ := id hrange
      rw [if_neg (by omega), if_pos (by omega)]
      exact outcome_settle (LinkedList.addAtLocation_changed hlist hlow (by omega) (horderly hrange) value)
    · rw [InRange] at hrange
      rw [if_pos (by omega), if_neg (by omega)]
      exact outcome_same _ t _
  | addAll collection =>
    have houtcome := insertAll_outcome hlist (Int.natCast_nonneg _) le_rfl collection horderly
    rw [Int.toNat_natCast, ← hsize] at houtcome
    exact hsimple houtcome
  | addAllAt index collection =>
    rw [step, CursorSequence.step]
    apply hsimple
    by_cases hrange : InRange index s.list
    · obtain ⟨hlow, hhigh⟩ := id hrange
      rw [if_pos (by omega)]
      exact insertAll_outcome hlist hlow (by omega) collection (horderly hrange)
    · rw [InRange] at hrange
      rw [if_neg (by omega), addCollection_outside hlist (by omega)]
      exact outcome_same _ t _
  | copy collection | assign collection => exact hsimple (copy_outcome hlist collection horderly.1 horderly.2)
  | get index =>
    rw [step, CursorSequence.step]
    by_cases hrange : 0 ≤ index ∧ index < (t.values.length : Int)
    · have hvalue : t.values[index.toNat]? = some t.values[index.toNat] := List.getElem?_eq_getElem (by omega)
      have hget := hlist.get_eq hvalue
      rw [Int.toNat_of_nonneg hrange.1] at hget
      rw [if_neg (by omega), hget, get?_of_range hrange.1, hvalue]
      exact hquery rfl
    · rw [if_pos (by omega), get?_eq_none_iff.mpr hrange]
      exact hquery rfl
  | set index element =>
    rw [step, CursorSequence.step]
    by_cases hrange : 0 ≤ index ∧ index < (t.values.length : Int)
    · have hvalue : t.values[index.toNat]? = some t.values[index.toNat] := List.getElem?_eq_getElem (by omega)
      obtain ⟨l', hset, hrepresents, hcount⟩ := hlist.set_eq hvalue element
      rw [Int.toNat_of_nonneg hrange.1] at hset
      rw [if_neg (by omega), hset, get?_of_range hrange.1, hvalue]
      exact ⟨.inl rfl, addresses, hrepresents, forall_kept hits hcount⟩
    · rw [if_pos (by omega), get?_eq_none_iff.mpr hrange]
      exact hquery rfl
  | removeAt index =>
    have houtcome := removeAt_outcome hlist index
    rw [step, CursorSequence.step]
    exact hsimple houtcome
  | removeValue value | removeFirstOccurrence value => exact hsimple (removeFirstOccurrence_outcome hlist value)
  | removeLastOccurrence value => exact hsimple (removeLastOccurrence_outcome hlist value)
  | removeAll collection => exact hsimple (removeAll_outcome hlist collection)
  | retainAll collection => exact hsimple (retainAll_outcome hlist collection)
  | clear => exact hsimple (outcome_settle (LinkedList.clear_changed hlist))
  | isEmpty =>
    apply hquery
    rw [hsize, ListAnswer.bool.injEq, Bool.eq_iff_iff, decide_eq_true_iff, List.isEmpty_iff]
    exact Int.natCast_eq_zero.trans List.length_eq_zero_iff
  | size => exact hquery (congrArg ListAnswer.index hsize)
  | contains value =>
    apply hquery
    rw [hlist.indexOf_eq]
    exact congrArg ListAnswer.bool (decide_eq_decide.mpr Sequence.indexOrNone_ne_iff)
  | indexOf value =>
    apply hquery
    rw [hlist.indexOf_eq]
    rfl
  | lastIndexOf value =>
    apply hquery
    rw [hlist.lastIndexOf_eq]
    rfl
  | toArray =>
    apply hquery
    rw [hlist.toArray_eq]
    rfl
  | poll | pollFirst => exact hsimple (pollFirst_outcome hlist)
  | pollLast => exact hsimple (pollLast_outcome hlist)
  | remove | removeFirst | pop => exact hsimple (takeFirst_outcome hlist)
  | removeLast => exact hsimple (takeLast_outcome hlist)
  | peek | peekFirst | element | getFirst =>
    exact hquery (peekOr_eq hlist (first_eq hlist) List.head?_eq_none_iff _)
  | peekLast | getLast => exact hquery (peekOr_eq hlist (last_eq hlist) List.getLast?_eq_none_iff _)
  | iterator constant =>
    obtain ⟨hanswer, hrefines⟩ := iterate_agrees h constant 0
    rw [if_pos ⟨le_refl 0, Int.natCast_nonneg _⟩] at hanswer hrefines
    exact ⟨.inl hanswer, hrefines⟩
  | listIterator constant index =>
    obtain ⟨hanswer, hrefines⟩ := iterate_agrees h constant index
    rw [step, CursorSequence.step]
    split_ifs at hanswer hrefines ⊢ with hrange
    · exact ⟨.inl hanswer, hrefines⟩
    · exact ⟨.inl hanswer, hrefines⟩
  | descendingIterator constant =>
    exact ⟨.inl rfl, addresses, hlist, forall₂_concat hits (ReverseIterator.new_follows hlist constant)⟩
  | hasNext i => exact hasNext_agrees h horderly
  | next i => exact next_agrees h horderly
  | hasPrevious i =>
    refine query_agrees h (fun addresses it c hlist hat => ?_) fun it c hc hstale => ?_
    · exact congrArg ListAnswer.bool (it.hasPrevious_agrees hlist hat)
    · exact ⟨c, _, hc, hstale, rfl⟩
  | previous i => exact previous_agrees h horderly
  | nextIndex i =>
    refine query_agrees h (fun addresses it c hlist hat => ?_) fun it c hc hstale => ?_
    · rw [LinkedListIterator.nextIndex, hat.index, Int.sub_add_cancel]
    · exact ⟨c, _, hc, hstale, rfl⟩
  | previousIndex i =>
    refine query_agrees h (fun addresses it c hlist hat => ?_) fun it c hc hstale => ?_
    · exact congrArg ListAnswer.index hat.index
    · exact ⟨c, _, hc, hstale, rfl⟩
  | removeCurrent i => exact removeCurrent_agrees h
  | addCurrent i e => exact addCurrent_agrees h horderly
  | setCurrent i e => exact setCurrent_agrees h

omit [DecidableEq ε] in
theorem construct_represents [Inhabited ε] {values : List ε} (hl : LinkedList.construct values = some l) :
    ∃ addresses, Represents l addresses values := by
  have hempty : Represents (LinkedList.empty : LinkedList ε) [] [] := LinkedList.empty_represents
  rw [LinkedList.construct] at hl
  have hsize : (LinkedList.empty : LinkedList ε).listSize = 0 := rfl
  rw [LinkedList.addCollection, if_neg (by omega)] at hl
  cases values with
  | nil =>
    cases hl
    exact ⟨[], hempty⟩
  | cons value values =>
    by_cases hfits : Fits (value :: values).length (LinkedList.empty : LinkedList ε)
    · obtain ⟨l', hl', addresses, hrepresents, -⟩ :=
        LinkedList.addAllAtLocation_changed hempty (le_refl 0) (Int.natCast_nonneg _)
          (value :: values) hfits
      simp only [LinkedList.valuesOf, hl', LinkedList.settle, Option.some.injEq] at hl
      subst hl
      rw [List.take_nil, List.drop_nil, List.nil_append, List.append_nil] at hrepresents
      exact ⟨addresses, hrepresents⟩
    · obtain ⟨l', addresses, hlink, -, hcount, -⟩ :=
        LinkedList.linkAll_holds (value :: values) hempty.toHolds (Nat.zero_le _) places_zero
      have hbefore := LinkedList.before_eq hempty (le_refl 0) (Int.natCast_nonneg _) places_zero
      have hnone : l'.resize (value :: values).length = none := by
        rw [LinkedList.resize, hcount]
        exact if_neg hfits
      simp only [LinkedList.valuesOf, LinkedList.addAllAtLocation, hbefore, hlink, hnone, Option.bind_eq_bind,
        Option.bind_some, LinkedList.settle, reduceCtorEq] at hl

end LinkedListState

/-! ### Stale cursors -/

namespace CursorSequence

variable [DecidableEq ε] {t : CursorSequence ε} {op : LinkedListOp ε}
variable {j : Nat} {c : SequenceCursor}
variable {act : SequenceCursor → ListAnswer ε × CursorSequence ε}

/-- Whether an operation is one that a cursor does not make itself. -/
def Elsewhere (j : Nat) : LinkedListOp ε → Prop
  | .removeCurrent i | .addCurrent i _ => i ≠ j
  | .set _ _ | .setCurrent _ _ => False
  | _ => True

/-- How an operation that changes the structure of the sequence does so. -/
inductive Marks (t : CursorSequence ε) (j : Nat) (t' : CursorSequence ε) : Prop where
  | none (h : t'.values = t.values)
  | all (ys : List ε) (h : t' = t.become ys)
  | others (i : Nat) (c : SequenceCursor) (ys : List ε) (hi : i ≠ j) (h : t' = t.changeBy i c ys)

omit [DecidableEq ε] in
theorem Marks.of_ite {p : Prop} [Decidable p] {t₁ t₂ : CursorSequence ε} (h₁ : Marks t j t₁)
    (h₂ : Marks t j t₂) : Marks t j (if p then t₁ else t₂) := by
  split_ifs
  · exact h₁
  · exact h₂

omit [DecidableEq ε] in
theorem marks_fresh {answer : ListAnswer ε × CursorSequence ε}
    (h : Marks t j answer.2) : Marks t j (fresh c t answer).2 := by
  rw [fresh]
  split_ifs
  · exact .none rfl
  · exact h

omit [DecidableEq ε] in
theorem marks_withCursor {i : Nat} (h : ∀ c, Marks t j (act c).2) : Marks t j (t.withCursor i act).2 := by
  rw [withCursor]
  cases t.cursors[i]? with
  | none => exact .none rfl
  | some c => exact h c

omit [DecidableEq ε] in
theorem marks_onList (c : SequenceCursor) (h : Marks t j (act c).2) : Marks t j (t.onList act c).2 := by
  rw [onList]
  split_ifs
  · exact .none rfl
  · exact h

theorem step_marks (t : CursorSequence ε) (op : LinkedListOp ε) (helse : Elsewhere j op) :
    Marks t j (t.step op).2 := by
  cases op with
  | add value | offer value | offerLast value | addLast value | offerFirst value | addFirst value | push value
  | copy collection | assign collection | clear => exact .all _ rfl
  | addAt index value =>
    rw [step]
    split_ifs
    · exact .all _ rfl
    · exact .none rfl
  | addAll collection =>
    rw [step]
    cases hvalues : valuesOf t.values collection with
    | nil => exact .none rfl
    | cons value values => exact .all _ rfl
  | addAllAt index collection =>
    rw [step]
    split_ifs
    · cases hvalues : valuesOf t.values collection with
      | nil => exact .none rfl
      | cons value values => exact .all _ rfl
    · exact .none rfl
  | removeAt index =>
    rw [step]
    cases get? index t.values with
    | none => exact .none rfl
    | some old => exact .all _ rfl
  | removeValue value | removeFirstOccurrence value | removeLastOccurrence value | removeAll collection
  | retainAll collection => exact Marks.of_ite (.all _ rfl) (.none rfl)
  | poll | pollFirst | remove | removeFirst | pop =>
    rw [step, takeFirst]
    split
    · exact .none rfl
    · exact .all _ rfl
  | pollLast | removeLast =>
    rw [step, takeLast]
    split
    · exact .none rfl
    · exact .all _ rfl
  | set index element => exact helse.elim
  | setCurrent i e => exact helse.elim
  | get index | isEmpty | size | contains value | indexOf value | lastIndexOf value | toArray | peek | peekFirst
  | peekLast | element | getFirst | getLast | iterator constant | descendingIterator constant => exact .none rfl
  | listIterator constant index =>
    rw [step]
    split_ifs
    · exact .none rfl
    · exact .none rfl
  | hasNext i | next i => exact marks_withCursor fun c => marks_fresh (.none rfl)
  | hasPrevious i | previous i | nextIndex i | previousIndex i =>
    exact marks_withCursor fun c => marks_onList c (marks_fresh (.none rfl))
  | removeCurrent i =>
    refine marks_withCursor fun c => ?_
    rw [writing]
    split_ifs
    · exact .none rfl
    · apply marks_fresh
      rw [removeLast]
      cases c.last with
      | none => exact .none rfl
      | some k => exact .others i _ _ helse rfl
  | addCurrent i e =>
    refine marks_withCursor fun c => marks_onList c ?_
    rw [writing]
    split_ifs
    · exact .none rfl
    · exact marks_fresh (.others i _ _ helse rfl)

theorem stale_of_changed (helse : Elsewhere j op) (hchanged : (t.step op).2.values ≠ t.values)
    (hc : (t.step op).2.cursors[j]? = some c) : c.stale = true := by
  have hall : ∀ ys, (t.become ys).cursors[j]? = some c → c.stale = true := by
    intro ys hget
    rw [become, List.getElem?_map, map_eq_some_iff] at hget
    obtain ⟨old, -, rfl⟩ := hget
    rfl
  obtain hsame | ⟨ys, hmarked⟩ | ⟨i, own, ys, hi, hmarked⟩ := step_marks t op helse
  · exact absurd hsame hchanged
  · rw [hmarked] at hc
    exact hall ys hc
  · rw [hmarked, changeBy] at hc
    apply hall ys
    rwa [List.getElem?_set_ne hi] at hc

theorem step_stale (hc : t.cursors[j]? = some c) (hstale : c.stale = true) :
    (t.step (.next j)).1 = .concurrentModificationException ∧
      (c.descending = false → (t.step (.previous j)).1 = .concurrentModificationException) ∧
      (c.constant = false → (t.step (.removeCurrent j)).1 = .concurrentModificationException) := by
  refine ⟨?_, fun hlist => ?_, fun hwrite => ?_⟩
  · rw [step, withCursor, hc]
    exact congrArg Prod.fst (if_pos hstale)
  · rw [step, withCursor, hc]
    dsimp only
    rw [onList, hlist]
    exact congrArg Prod.fst (if_pos hstale)
  · rw [step, withCursor, hc]
    dsimp only
    rw [writing, hwrite]
    exact congrArg Prod.fst (if_pos hstale)

end CursorSequence

namespace LinkedListState

/-- The links mirror each other between the head and the tail, and the nodes hold the sequence. -/
def Mirrors (l : LinkedList ε) (xs : List ε) : Prop :=
  ∃ addresses, l.links.Path (places addresses) ∧ addresses.map (fun a => l.valueAt (.node a)) = xs.map some

instance [DecidableEq ε] (s : LinkedListState ε) : (op : LinkedListOp ε) → Decidable (Orderly s op)
  | .add _ | .offer _ | .offerLast _ | .addLast _ | .offerFirst _ | .addFirst _ | .push _ =>
    inferInstanceAs (Decidable (_ < _))
  | .addAt _ _ => inferInstanceAs (Decidable (_ ∧ _ → _ < _))
  | .addAll collection => inferInstanceAs (Decidable (∀ values ∈ s.list.valuesOf collection, _ < _))
  | .addAllAt _ collection => inferInstanceAs (Decidable (_ ∧ _ → ∀ values ∈ s.list.valuesOf collection, _ < _))
  | .copy collection | .assign collection =>
    inferInstanceAs (Decidable ((_ → _) ∧ ∀ values ∈ s.list.valuesOf collection, _ < _))
  | .hasNext i => inferInstanceAs (Decidable (∀ it ∈ s.iterators[i]?, _ ∨ _))
  | .next i => inferInstanceAs (Decidable (∀ it ∈ s.iterators[i]?, _ → _))
  | .previous i => inferInstanceAs (Decidable (∀ it ∈ s.iterators[i]?, _ → _ → _))
  | .addCurrent i _ => inferInstanceAs (Decidable (∀ it ∈ s.iterators[i]?, _ → _ → _ → _ < _))
  | .get _ | .set _ _ | .removeAt _ | .removeValue _ | .removeAll _ | .retainAll _ | .clear | .isEmpty | .size
  | .contains _ | .indexOf _ | .lastIndexOf _ | .toArray | .poll | .pollFirst | .pollLast | .remove | .removeFirst
  | .removeLast | .pop | .peek | .peekFirst | .peekLast | .element | .getFirst | .getLast
  | .removeFirstOccurrence _ | .removeLastOccurrence _ | .iterator _ | .listIterator _ _ | .descendingIterator _
  | .hasPrevious _ | .nextIndex _ | .previousIndex _ | .removeCurrent _ | .setCurrent _ _ =>
    inferInstanceAs (Decidable True)

end LinkedListState

end Iterators

namespace LinkedListState

end LinkedListState

end ActiveMQCpp.Decaf
