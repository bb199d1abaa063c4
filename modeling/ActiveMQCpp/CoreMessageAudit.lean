import ActiveMQCpp.DecafBitSetMembers
import ActiveMQCpp.DecafLinkedHashMap
import ActiveMQCpp.LibRefinement
import Mathlib.Data.Int.ConditionallyCompleteOrder

/-! `ActiveMQMessageAudit`: for every producer a bit set of the sequence ids seen from it, in a cache of the
producers used last. -/

namespace ActiveMQCpp.Core.Audit

open Decaf MachineInt Runs Refinement LinkedHashMap List Long

structure ProducerId where
  connectionId : ByteString
  sessionId : Int
  value : Int
  deriving DecidableEq

def ProducerId.toString (id : ProducerId) : ByteString :=
  id.connectionId ++ 58 :: (Long.toString id.sessionId ++ 58 :: Long.toString id.value)

structure MessageId where
  producerId : Option ProducerId
  producerSequenceId : Int
  deriving DecidableEq

/-- The constructors give the cache its default size, also the one that takes a number of producers. -/
structure ActiveMQMessageAudit where
  auditDepth : Int
  maxCacheSize : Nat := 10000
  map : List (ByteString × BitSet) := []
  deriving DecidableEq

/-- The position of a sequence id in the bit set, an `int`. -/
def scaledIndex (index : Int) : Int :=
  if index > 2147483647 then toInt32 (index - 2147483647) else toInt32 index

namespace ActiveMQMessageAudit

def put (seed : ByteString) (bits : BitSet) (audit : ActiveMQMessageAudit) : ActiveMQMessageAudit :=
  { audit with map := LinkedHashMap.evict audit.maxCacheSize (LinkedHashMap.putImpl seed bits audit.map) }

def touch (seed : ByteString) (audit : ActiveMQMessageAudit) : ActiveMQMessageAudit :=
  { audit with map := LinkedHashMap.touch true seed audit.map }

/-- The bit set is shared with the cache: a change to it is one to the cached entry. -/
def store (seed : ByteString) (bits : BitSet) (audit : ActiveMQMessageAudit) : ActiveMQMessageAudit :=
  { audit with map := LinkedHashMap.replace seed bits audit.map }

/-- `isDuplicate` once the bit set of the producer is there. -/
def mark (seed : ByteString) (index : Int) (bits : BitSet) (audit : ActiveMQMessageAudit) :
    Except BitSetException Bool × ActiveMQMessageAudit :=
  if index < 0 then (.ok false, audit)
  else
    match bits.get (scaledIndex index) with
    | .error e => (.error e, audit)
    | .ok true => (.ok true, audit)
    | .ok false =>
      match bits.set (scaledIndex index) with
      | .error e => (.error e, audit)
      | .ok bits => (.ok false, audit.store seed bits)

def isDuplicate : Option MessageId → ActiveMQMessageAudit → Except BitSetException Bool × ActiveMQMessageAudit
  | some ⟨some pid, index⟩, audit =>
    match LinkedHashMap.lookup pid.toString audit.map with
    | some bits => mark pid.toString index bits (audit.touch pid.toString)
    | none =>
      match BitSet.new audit.auditDepth with
      | .error e => (.error e, audit)
      | .ok bits => mark pid.toString index bits (audit.put pid.toString bits)
  | _, audit => (.ok false, audit)

/-- `rollback` once the bit set of the producer is found. -/
def unmark (seed : ByteString) (index : Int) (bits : BitSet) (audit : ActiveMQMessageAudit) :
    Except BitSetException Unit × ActiveMQMessageAudit :=
  if index < 0 then (.ok (), audit)
  else
    match bits.clear (scaledIndex index) with
    | .error e => (.error e, audit)
    | .ok bits => (.ok (), audit.store seed bits)

def rollback : Option MessageId → ActiveMQMessageAudit → Except BitSetException Unit × ActiveMQMessageAudit
  | some ⟨some pid, index⟩, audit =>
    match LinkedHashMap.lookup pid.toString audit.map with
    | some bits => unmark pid.toString index bits (audit.touch pid.toString)
    | none => (.ok (), audit)
  | _, audit => (.ok (), audit)

end ActiveMQMessageAudit

/-! ### The seed of a producer -/

theorem digits_injective : Function.Injective digits := by
  intro n
  induction n using Nat.strongRecOn with
  | ind n ih =>
    intro m h
    rw [digits_eq n, digits_eq m] at h
    obtain ⟨hfront, hlast⟩ := append_inj' h rfl
    have hdigit : n % 10 = m % 10 := by
      have := congrArg UInt8.toNat (singleton_inj.mp hlast)
      rw [UInt8.toNat_ofNat', UInt8.toNat_ofNat'] at this
      omega
    have hrest : n / 10 = m / 10 := by
      split_ifs at hfront with hn hm hm
      · omega
      · exact absurd hfront.symm (digits_ne_nil _)
      · exact absurd hfront (digits_ne_nil _)
      · exact ih (n / 10) (by omega) hfront
    omega

theorem toString_injective : Function.Injective toString := by
  have hsign : ∀ n m, 45 :: digits n ≠ digits m := fun n m h => digits_head h.symm rfl
  intro i j h
  rw [Long.toString, Long.toString] at h
  split_ifs at h with hi hj hj
  · have := digits_injective (List.cons.inj h).2
    omega
  · exact absurd h (hsign _ _)
  · exact absurd h.symm (hsign _ _)
  · have := digits_injective h
    omega

theorem colon_notMem_toString (i : Int) : (58 : UInt8) ∉ Long.toString i := by
  have hdigits : ∀ n, (58 : UInt8) ∉ digits n := fun n h => absurd (mem_digits h).2 (by decide)
  rw [Long.toString]
  split_ifs
  · rw [mem_cons, not_or]
    exact ⟨by decide, hdigits _⟩
  · exact hdigits _

theorem append_cons_inj_last {α : Type} {x x' z z' : List α} {a : α} (hz : a ∉ z) (hz' : a ∉ z')
    (h : x ++ a :: z = x' ++ a :: z') : x = x' ∧ z = z' := by
  have hreverse := congrArg List.reverse h
  simp only [reverse_append, reverse_cons, append_assoc, singleton_append] at hreverse
  have hsplit : z.reverse = z'.reverse ∧ x.reverse = x'.reverse := by
    rcases append_eq_append_iff.mp hreverse with ⟨middle, hmiddle, hrest⟩ | ⟨middle, hmiddle, hrest⟩
    · cases middle with
      | nil => exact ⟨by simpa using hmiddle.symm, (List.cons.inj hrest).2⟩
      | cons b middle =>
        obtain ⟨rfl, -⟩ := List.cons.inj hrest
        exact absurd (mem_reverse.mp (hmiddle ▸ mem_append_right _ mem_cons_self)) hz'
    · cases middle with
      | nil => exact ⟨by simpa using hmiddle, (List.cons.inj hrest).2.symm⟩
      | cons b middle =>
        obtain ⟨rfl, -⟩ := List.cons.inj hrest
        exact absurd (mem_reverse.mp (hmiddle ▸ mem_append_right _ mem_cons_self)) hz
  exact ⟨reverse_inj.mp hsplit.2, reverse_inj.mp hsplit.1⟩

theorem ProducerId.toString_injective : Function.Injective ProducerId.toString := by
  rintro ⟨connectionId, sessionId, value⟩ ⟨connectionId', sessionId', value'⟩ h
  simp only [ProducerId.toString] at h
  rw [← cons_append, ← append_assoc, ← cons_append, ← append_assoc] at h
  obtain ⟨hfront, hvalue⟩ := append_cons_inj_last (colon_notMem_toString _) (colon_notMem_toString _) h
  obtain ⟨hconnection, hsession⟩ :=
    append_cons_inj_last (colon_notMem_toString _) (colon_notMem_toString _) hfront
  rw [hconnection, Audit.toString_injective hsession, Audit.toString_injective hvalue]

/-! ### One call -/

namespace ActiveMQMessageAudit

def bitsOf (p : ProducerId) (audit : ActiveMQMessageAudit) : Option BitSet :=
  LinkedHashMap.lookup p.toString audit.map

structure Inv (audit : ActiveMQMessageAudit) : Prop where
  room : 0 < audit.maxCacheSize
  nodup : (audit.map.map Prod.fst).Nodup
  bits : ∀ seed bits, LinkedHashMap.lookup seed audit.map = some bits → bits.Inv

variable {audit : ActiveMQMessageAudit} {seed : ByteString} {bits : BitSet} {p q : ProducerId} {index : Int}
variable {held after : ActiveMQMessageAudit}
variable {value : Bool}

theorem inv_new (auditDepth : Int) : Inv { auditDepth := auditDepth } where
  room := Nat.zero_lt_succ 9999
  nodup := nodup_nil
  bits := by
    intro seed bits h
    cases h

theorem Inv.touch (h : audit.Inv) (seed : ByteString) : (audit.touch seed).Inv where
  room := h.room
  nodup := nodup_touch true h.nodup
  bits := by
    intro seed' bits hbits
    rw [ActiveMQMessageAudit.touch, lookup_touch] at hbits
    exact h.bits seed' bits hbits

theorem Inv.store (h : audit.Inv) (seed : ByteString) (hbits : bits.Inv) : (audit.store seed bits).Inv where
  room := h.room
  nodup := by
    rw [ActiveMQMessageAudit.store, keys_replace]
    exact h.nodup
  bits := by
    intro seed' bits' hbits'
    rw [ActiveMQMessageAudit.store, lookup_replace] at hbits'
    split_ifs at hbits' with hseed
    · obtain ⟨_, _, rfl⟩ := Option.map_eq_some_iff.mp hbits'
      exact hbits
    · exact h.bits seed' bits' hbits'

theorem put_eq (hnew : LinkedHashMap.lookup seed audit.map = none) : audit.put seed bits =
      { audit with map := LinkedHashMap.evict audit.maxCacheSize (audit.map ++ [(seed, bits)]) } := by
  rw [put, putImpl_of_lookup_none hnew]

theorem Inv.nodup_append (h : audit.Inv) (hnew : LinkedHashMap.lookup seed audit.map = none) (bits : BitSet) :
    ((audit.map ++ [(seed, bits)]).map Prod.fst).Nodup :=
  nodup_append_single h.nodup (lookup_eq_none.mp hnew)

theorem Inv.put (h : audit.Inv) (hnew : LinkedHashMap.lookup seed audit.map = none) (hbits : bits.Inv) :
    (audit.put seed bits).Inv := by
  have hnodup := h.nodup_append hnew bits
  rw [put_eq hnew]
  refine ⟨h.room, LinkedHashMap.nodup_evict _ hnodup, ?_⟩
  intro seed' bits' hbits'
  rcases LinkedHashMap.lookup_evict (k := seed') audit.maxCacheSize hnodup with hnone | hsame
  · rw [hnone] at hbits'
    cases hbits'
  · rw [hsame, LinkedHashMap.lookup_append_single hnew] at hbits'
    split_ifs at hbits' with hseed
    · exact Option.some.inj hbits' ▸ hbits
    · exact h.bits seed' bits' hbits'

theorem Inv.bitsOf_put (h : audit.Inv) (hnew : bitsOf p audit = none) (hne : q ≠ p) :
    bitsOf q (audit.put p.toString bits) = none ∨ bitsOf q (audit.put p.toString bits) = bitsOf q audit := by
  have hseed : q.toString ≠ p.toString := fun heq => hne (ProducerId.toString_injective heq)
  rw [put_eq hnew]
  rcases LinkedHashMap.lookup_evict (k := q.toString) audit.maxCacheSize (h.nodup_append hnew bits) with hnone | hsame
  · exact .inl hnone
  · rw [LinkedHashMap.lookup_append_single hnew, if_neg hseed] at hsame
    exact .inr hsame

theorem Inv.bitsOf_put_self (h : audit.Inv) (hnew : bitsOf p audit = none) :
    bitsOf p (audit.put p.toString bits) = some bits := by
  rw [put_eq hnew]
  exact LinkedHashMap.lookup_evict_append_single h.room hnew

theorem bitsOf_touch (seed : ByteString) : bitsOf q (audit.touch seed) = bitsOf q audit :=
  lookup_touch true

theorem bitsOf_store (hne : q ≠ p) : bitsOf q (audit.store p.toString bits) = bitsOf q audit := by
  have hseed : q.toString ≠ p.toString := fun heq => hne (ProducerId.toString_injective heq)
  rw [bitsOf, store, lookup_replace, if_neg hseed, bitsOf]

theorem bitsOf_store_self {old : BitSet} (h : bitsOf p audit = some old) :
    bitsOf p (audit.store p.toString bits) = some bits := by
  rw [bitsOf] at h
  rw [bitsOf, store, lookup_replace, if_pos rfl, h]
  rfl

/-- What `isDuplicate` finds or makes for the producer: its bit set, and the cache that holds it. -/
structure Holds (p : ProducerId) (bits : BitSet) (audit held : ActiveMQMessageAudit) : Prop where
  inv : held.Inv
  depth : held.auditDepth = audit.auditDepth
  own : bitsOf p held = some bits
  origin : bitsOf p audit = some bits ∨ bitsOf p audit = none ∧ ∀ n, bits.member n = false
  others : ∀ q, q ≠ p → bitsOf q held = none ∨ bitsOf q held = bitsOf q audit

theorem isDuplicate_negative (hdepth : audit.auditDepth < 0) (hnone : bitsOf p audit = none) :
    isDuplicate (some ⟨some p, index⟩) audit = (.error .negativeArraySizeException, audit) := by
  rw [bitsOf] at hnone
  rw [isDuplicate, hnone, BitSet.new, if_pos hdepth]

theorem isDuplicate_cases (h : audit.Inv) (p : ProducerId) (index : Int) :
    (isDuplicate (some ⟨some p, index⟩) audit).2 = audit ∧ audit.auditDepth < 0 ∧ bitsOf p audit = none ∨
      ∃ bits held, Holds p bits audit held ∧
        isDuplicate (some ⟨some p, index⟩) audit = mark p.toString index bits held := by
  cases hfound : bitsOf p audit with
  | some bits =>
    refine .inr ⟨bits, audit.touch p.toString, ⟨h.touch _, rfl, ?_, .inl hfound, fun q _ => ?_⟩, ?_⟩
    · rw [bitsOf_touch, hfound]
    · exact .inr (bitsOf_touch _)
    · rw [bitsOf] at hfound
      rw [isDuplicate, hfound]
  | none =>
    by_cases hdepth : audit.auditDepth < 0
    · exact .inl ⟨by rw [isDuplicate_negative hdepth hfound], hdepth, rfl⟩
    · obtain ⟨bits, hbits, hinv, hempty⟩ := BitSet.new_eq (not_lt.mp hdepth)
      refine .inr ⟨bits, audit.put p.toString bits,
        ⟨h.put hfound hinv, rfl, h.bitsOf_put_self hfound, .inr ⟨hfound, hempty⟩, fun q hq => ?_⟩, ?_⟩
      · exact h.bitsOf_put hfound hq
      · rw [bitsOf] at hfound
        rw [isDuplicate, hfound, hbits]

/-- The bit set of the producer after a call for a sequence id: the bit at its position is as given, all others
are as before. -/
structure Written (p : ProducerId) (index : Int) (value : Bool) (bits : BitSet) (held after : ActiveMQMessageAudit) :
    Prop where
  inv : after.Inv
  depth : after.auditDepth = held.auditDepth
  own : ∃ bits', bitsOf p after = some bits' ∧
    ∀ n, bits'.member n = if n = (scaledIndex index).toNat then value else bits.member n
  others : ∀ q, q ≠ p → bitsOf q after = bitsOf q held

theorem mark_eq (h : audit.Inv) (hbits : bitsOf p audit = some bits) (hindex : 0 ≤ index)
    (hscaled : 0 ≤ scaledIndex index) :
    (mark p.toString index bits audit).1 = .ok (bits.member (scaledIndex index).toNat) ∧
      Written p index true bits audit (mark p.toString index bits audit).2 := by
  have hinv := h.bits _ _ hbits
  have hget := BitSet.get_eq hinv (scaledIndex index).toNat
  rw [Int.toNat_of_nonneg hscaled] at hget
  rw [mark, if_neg (not_lt.mpr hindex), hget]
  cases hmember : bits.member (scaledIndex index).toNat with
  | true =>
    refine ⟨rfl, h, rfl, ⟨bits, hbits, fun n => ?_⟩, fun q _ => rfl⟩
    split_ifs with hn
    · rw [hn, hmember]
    · rfl
  | false =>
    obtain ⟨bits', hset, hbecomes⟩ := hinv.set (scaledIndex index).toNat
    rw [Int.toNat_of_nonneg hscaled] at hset
    simp only [hset]
    refine ⟨trivial, h.store _ hbecomes.inv, rfl, ⟨bits', bitsOf_store_self hbits, fun n => ?_⟩, fun q hq => bitsOf_store hq⟩
    rw [hbecomes.member]
    split_ifs with hn
    · rw [decide_eq_true hn, Bool.true_or]
    · rw [decide_eq_false hn, Bool.false_or]

theorem unmark_eq (h : audit.Inv) (hbits : bitsOf p audit = some bits) (hindex : 0 ≤ index)
    (hscaled : 0 ≤ scaledIndex index) :
    (unmark p.toString index bits audit).1 = .ok () ∧
      Written p index false bits audit (unmark p.toString index bits audit).2 := by
  have hinv := h.bits _ _ hbits
  obtain ⟨bits', hclear, hbecomes⟩ := hinv.clear (scaledIndex index).toNat
  rw [Int.toNat_of_nonneg hscaled] at hclear
  rw [unmark, if_neg (not_lt.mpr hindex), hclear]
  refine ⟨rfl, h.store _ hbecomes.inv, rfl, ⟨bits', bitsOf_store_self hbits, fun n => ?_⟩, fun q hq => bitsOf_store hq⟩
  rw [hbecomes.member]
  split_ifs with hn
  · rw [decide_eq_true hn, Bool.not_true, Bool.false_and]
  · rw [decide_eq_false hn, Bool.not_false, Bool.true_and]

theorem mark_refused (hindex : ¬(0 ≤ index ∧ 0 ≤ scaledIndex index)) (seed : ByteString) (bits : BitSet)
    (audit : ActiveMQMessageAudit) : (mark seed index bits audit).2 = audit := by
  rw [mark]
  split_ifs with hneg
  · rfl
  · have hscaled : scaledIndex index < 0 := not_le.mp fun hle => hindex ⟨not_lt.mp hneg, hle⟩
    rw [BitSet.get, if_pos hscaled]

theorem unmark_refused (hindex : ¬(0 ≤ index ∧ 0 ≤ scaledIndex index)) (seed : ByteString) (bits : BitSet)
    (audit : ActiveMQMessageAudit) : (unmark seed index bits audit).2 = audit := by
  rw [unmark]
  split_ifs with hneg
  · rfl
  · have hscaled : scaledIndex index < 0 := not_le.mp fun hle => hindex ⟨not_lt.mp hneg, hle⟩
    rw [BitSet.clear, if_pos hscaled]

/-- The changes of a call are to the producer it is for. -/
structure Frame (p : ProducerId) (audit after : ActiveMQMessageAudit) : Prop where
  inv : after.Inv
  depth : after.auditDepth = audit.auditDepth
  others : ∀ q, q ≠ p → bitsOf q after = none ∨ bitsOf q after = bitsOf q audit

theorem Frame.refl (h : audit.Inv) (p : ProducerId) : Frame p audit audit := ⟨h, rfl, fun _ _ => .inr rfl⟩

theorem Frame.trans {audit' audit'' : ActiveMQMessageAudit} (h : Frame p audit audit') (h' : Frame p audit' audit'') :
    Frame p audit audit'' := by
  refine ⟨h'.inv, h'.depth.trans h.depth, fun q hq => ?_⟩
  rcases h'.others q hq with hnone | hsame
  · exact .inl hnone
  · rw [hsame]
    exact h.others q hq

theorem Written.frame (h : Written p index value bits held after) : Frame p held after :=
  ⟨h.inv, h.depth, fun q hq => .inr (h.others q hq)⟩

theorem Holds.frame (h : Holds p bits audit held) : Frame p audit held :=
  ⟨h.inv, h.depth, h.others⟩

theorem frame_isDuplicate (h : audit.Inv) (p : ProducerId) (index : Int) :
    Frame p audit (isDuplicate (some ⟨some p, index⟩) audit).2 := by
  rcases isDuplicate_cases h p index with ⟨hsame, -⟩ | ⟨bits, held, hheld, heq⟩
  · rw [hsame]
    exact .refl h p
  · rw [heq]
    refine hheld.frame.trans ?_
    by_cases hindex : 0 ≤ index ∧ 0 ≤ scaledIndex index
    · exact (mark_eq hheld.inv hheld.own hindex.1 hindex.2).2.frame
    · rw [mark_refused hindex]
      exact .refl hheld.inv p

theorem frame_touch (h : audit.Inv) (p : ProducerId) : Frame p audit (audit.touch p.toString) :=
  ⟨h.touch _, rfl, fun _ _ => .inr (bitsOf_touch _)⟩

theorem rollback_of_none (hnone : bitsOf p audit = none) :
    rollback (some ⟨some p, index⟩) audit = (.ok (), audit) := by
  rw [bitsOf] at hnone
  rw [rollback, hnone]

theorem rollback_of_some (hbits : bitsOf p audit = some bits) :
    rollback (some ⟨some p, index⟩) audit = unmark p.toString index bits (audit.touch p.toString) := by
  rw [bitsOf] at hbits
  rw [rollback, hbits]

theorem frame_rollback (h : audit.Inv) (p : ProducerId) (index : Int) :
    Frame p audit (rollback (some ⟨some p, index⟩) audit).2 := by
  cases hbits : bitsOf p audit with
  | none =>
    rw [rollback_of_none hbits]
    exact .refl h p
  | some bits =>
    rw [rollback_of_some hbits]
    refine (frame_touch h p).trans ?_
    by_cases hindex : 0 ≤ index ∧ 0 ≤ scaledIndex index
    · exact (unmark_eq (h.touch _) ((bitsOf_touch _).trans hbits) hindex.1 hindex.2).2.frame
    · rw [unmark_refused hindex]
      exact .refl (h.touch _) p

/-! ### One position -/

def marked (p : ProducerId) (n : Nat) (audit : ActiveMQMessageAudit) : Bool :=
  match bitsOf p audit with
  | some bits => bits.member n
  | none => false

variable {n : Nat} {msgId : Option MessageId}

theorem marked_of_some (h : bitsOf p audit = some bits) : marked p n audit = bits.member n := by
  rw [marked, h]

theorem marked_of_none (h : bitsOf p audit = none) : marked p n audit = false := by
  rw [marked, h]

theorem Holds.marked_eq (h : Holds p bits audit held) (n : Nat) : marked p n audit = bits.member n := by
  rcases h.origin with hsome | ⟨hnone, hempty⟩
  · exact marked_of_some hsome
  · rw [marked_of_none hnone, hempty]

theorem Written.marked_eq (h : Written p index value bits held after)
    (n : Nat) : marked p n after = if n = (scaledIndex index).toNat then value else bits.member n := by
  obtain ⟨bits', hown, hmember⟩ := h.own
  rw [marked_of_some hown, hmember]

theorem marked_of_other (h : bitsOf p after = none ∨ bitsOf p after = bitsOf p audit) :
    marked p n after = false ∨ marked p n after = marked p n audit := by
  rcases h with hnone | hsame
  · exact .inl (marked_of_none hnone)
  · refine .inr ?_
    rw [marked, marked, hsame]

theorem isDuplicate_marked (h : audit.Inv) (hdepth : 0 ≤ audit.auditDepth) (hindex : 0 ≤ index)
    (hscaled : 0 ≤ scaledIndex index) :
    (isDuplicate (some ⟨some p, index⟩) audit).1 = .ok (marked p (scaledIndex index).toNat audit) ∧
      marked p (scaledIndex index).toNat (isDuplicate (some ⟨some p, index⟩) audit).2 = true := by
  rcases isDuplicate_cases h p index with ⟨-, hneg, -⟩ | ⟨bits, held, hheld, heq⟩
  · exact absurd hdepth (not_le.mpr hneg)
  · obtain ⟨hanswer, hwritten⟩ := mark_eq hheld.inv hheld.own hindex hscaled
    rw [heq, hanswer, hheld.marked_eq, hwritten.marked_eq, if_pos rfl]
    exact ⟨rfl, rfl⟩

theorem marked_isDuplicate_own (h : audit.Inv) (p : ProducerId) (index : Int) (n : Nat) :
    marked p n (isDuplicate (some ⟨some p, index⟩) audit).2 = marked p n audit ∨
      marked p n (isDuplicate (some ⟨some p, index⟩) audit).2 = true ∧ (n : Int) = scaledIndex index := by
  rcases isDuplicate_cases h p index with ⟨hsame, -⟩ | ⟨bits, held, hheld, heq⟩
  · rw [hsame]
    exact .inl rfl
  · rw [heq]
    by_cases hindex : 0 ≤ index ∧ 0 ≤ scaledIndex index
    · rw [(mark_eq hheld.inv hheld.own hindex.1 hindex.2).2.marked_eq, hheld.marked_eq]
      split_ifs with hn
      · exact .inr ⟨rfl, by omega⟩
      · exact .inl rfl
    · rw [mark_refused hindex, hheld.marked_eq, marked_of_some hheld.own]
      exact .inl rfl

theorem marked_rollback_own (h : audit.Inv) (p : ProducerId) (index : Int) (n : Nat) :
    marked p n (rollback (some ⟨some p, index⟩) audit).2 = marked p n audit ∨
      marked p n (rollback (some ⟨some p, index⟩) audit).2 = false ∧ (n : Int) = scaledIndex index := by
  cases hbits : bitsOf p audit with
  | none =>
    rw [rollback_of_none hbits]
    exact .inl rfl
  | some bits =>
    have hheld : bitsOf p (audit.touch p.toString) = some bits := (bitsOf_touch _).trans hbits
    rw [rollback_of_some hbits, marked_of_some hbits]
    by_cases hindex : 0 ≤ index ∧ 0 ≤ scaledIndex index
    · rw [(unmark_eq (h.touch _) hheld hindex.1 hindex.2).2.marked_eq]
      split_ifs with hn
      · exact .inr ⟨rfl, by omega⟩
      · exact .inl rfl
    · rw [unmark_refused hindex, marked_of_some hheld]
      exact .inl rfl

theorem rollback_marked (h : audit.Inv) (hindex : 0 ≤ index) (hscaled : 0 ≤ scaledIndex index) :
    marked p (scaledIndex index).toNat (rollback (some ⟨some p, index⟩) audit).2 = false := by
  cases hbits : bitsOf p audit with
  | none => rw [rollback_of_none hbits, marked_of_none hbits]
  | some bits =>
    rw [rollback_of_some hbits, (unmark_eq (h.touch _) ((bitsOf_touch _).trans hbits) hindex hscaled).2.marked_eq,
      if_pos rfl]

end ActiveMQMessageAudit

/-! ### Runs -/

open ActiveMQMessageAudit

inductive Op where
  | isDuplicate (msgId : Option MessageId)
  | rollback (msgId : Option MessageId)

def Op.msgId : Op → Option MessageId
  | .isDuplicate msgId => msgId
  | .rollback msgId => msgId

def step (audit : ActiveMQMessageAudit) : Op → Except BitSetException (Option Bool) × ActiveMQMessageAudit
  | .isDuplicate msgId => ((isDuplicate msgId audit).1.map some, (isDuplicate msgId audit).2)
  | .rollback msgId => ((ActiveMQMessageAudit.rollback msgId audit).1.map fun _ => none, (ActiveMQMessageAudit.rollback msgId audit).2)

variable {audit : ActiveMQMessageAudit} {p q : ProducerId} {index : Int}
variable {n : Nat} {j : Int} {bits : BitSet} {held : ActiveMQMessageAudit}

theorem inv_step (h : audit.Inv) (op : Op) : (step audit op).2.Inv ∧ (step audit op).2.auditDepth = audit.auditDepth ∧
      ∀ q, (∀ i, op.msgId ≠ some ⟨some q, i⟩) →
        bitsOf q (step audit op).2 = none ∨ bitsOf q (step audit op).2 = bitsOf q audit := by
  have hframe : ∀ {after p i}, Frame p audit after → op.msgId = some ⟨some p, i⟩ → after.Inv ∧
      after.auditDepth = audit.auditDepth ∧ ∀ q, (∀ i, op.msgId ≠ some ⟨some q, i⟩) →
        bitsOf q after = none ∨ bitsOf q after = bitsOf q audit := by
    intro after p i hframe hop
    refine ⟨hframe.inv, hframe.depth, fun q hq => hframe.others q fun heq => hq i ?_⟩
    rw [heq, hop]
  match op with
  | .isDuplicate none => exact ⟨h, rfl, fun _ _ => .inr rfl⟩
  | .isDuplicate (some ⟨none, _⟩) => exact ⟨h, rfl, fun _ _ => .inr rfl⟩
  | .isDuplicate (some ⟨some p, index⟩) => exact hframe (frame_isDuplicate h p index) rfl
  | .rollback none => exact ⟨h, rfl, fun _ _ => .inr rfl⟩
  | .rollback (some ⟨none, _⟩) => exact ⟨h, rfl, fun _ _ => .inr rfl⟩
  | .rollback (some ⟨some p, index⟩) => exact hframe (frame_rollback h p index) rfl

theorem marked_step (h : audit.Inv) (op : Op) (hmarked : marked p n (step audit op).2 = true) :
    marked p n audit = true ∨ ∃ i, op = .isDuplicate (some ⟨some p, i⟩) ∧ (n : Int) = scaledIndex i := by
  by_cases hown : ∃ i, op.msgId = some ⟨some p, i⟩
  · obtain ⟨i, hi⟩ := hown
    cases op with
    | isDuplicate msgId =>
      obtain rfl : msgId = some ⟨some p, i⟩ := hi
      rcases marked_isDuplicate_own h p i n with hsame | ⟨-, hn⟩
      · exact .inl (hsame.symm.trans hmarked)
      · exact .inr ⟨i, rfl, hn⟩
    | rollback msgId =>
      obtain rfl : msgId = some ⟨some p, i⟩ := hi
      rcases marked_rollback_own h p i n with hsame | ⟨hfalse, -⟩
      · exact .inl (hsame.symm.trans hmarked)
      · exact absurd (hfalse.symm.trans hmarked) Bool.false_ne_true
  · rw [not_exists] at hown
    rcases marked_of_other ((inv_step h op).2.2 p hown) with hfalse | hsame
    · exact absurd (hfalse.symm.trans hmarked) Bool.false_ne_true
    · exact .inl (hsame.symm.trans hmarked)

theorem marked_step_of_marked (h : audit.Inv) (op : Op) (hmarked : marked p n audit = true) :
    marked p n (step audit op).2 = true ∨ bitsOf p (step audit op).2 = none ∨
      ∃ i, op = .rollback (some ⟨some p, i⟩) ∧ (n : Int) = scaledIndex i := by
  by_cases hown : ∃ i, op.msgId = some ⟨some p, i⟩
  · obtain ⟨i, hi⟩ := hown
    cases op with
    | isDuplicate msgId =>
      obtain rfl : msgId = some ⟨some p, i⟩ := hi
      rcases marked_isDuplicate_own h p i n with hsame | ⟨htrue, -⟩
      · exact .inl (hsame.trans hmarked)
      · exact .inl htrue
    | rollback msgId =>
      obtain rfl : msgId = some ⟨some p, i⟩ := hi
      rcases marked_rollback_own h p i n with hsame | ⟨-, hn⟩
      · exact .inl (hsame.trans hmarked)
      · exact .inr (.inr ⟨i, rfl, hn⟩)
  · rw [not_exists] at hown
    rcases (inv_step h op).2.2 p hown with hnone | hsame
    · exact .inr (.inl hnone)
    · refine .inl ?_
      rw [marked, hsame, ← marked]
      exact hmarked

/-- The sequence ids of a producer that were submitted and not rolled back since. -/
def recalls (p : ProducerId) (known : Int → Bool) : Op → Int → Bool
  | .isDuplicate msgId, i => known i || decide (msgId = some ⟨some p, i⟩)
  | .rollback msgId, i => known i && decide (msgId ≠ some ⟨some p, i⟩)

def remembered (p : ProducerId) (ops : List Op) : Int → Bool := ops.foldl (recalls p) fun _ => false

/-- No call takes the producer out of the cache. -/
def NotEvicted (p : ProducerId) : ActiveMQMessageAudit → List Op → Prop :=
  Always (moves step) fun audit op => bitsOf p audit ≠ none → bitsOf p (step audit op).2 ≠ none

/-- The calls for the producer are for ids of the set. -/
def Within (p : ProducerId) (ids : Set Int) (ops : List Op) : Prop :=
  ∀ op ∈ ops, ∀ i, op.msgId = some ⟨some p, i⟩ → i ∈ ids

structure Apart (auditDepth : Int) (ids : Set Int) : Prop where
  placed : ∀ i ∈ ids, 0 ≤ auditDepth ∧ 0 ≤ scaledIndex i
  injOn : Set.InjOn scaledIndex ids

/-- The bit set of the producer says which of the ids are known. -/
structure Tracks (p : ProducerId) (ids : Set Int) (audit : ActiveMQMessageAudit) (known : Int → Bool) : Prop where
  inv : audit.Inv
  absent : bitsOf p audit = none → ∀ i, known i = false
  found : ∀ bits, bitsOf p audit = some bits → ∀ i ∈ ids, bits.member (scaledIndex i).toNat = known i

variable {ids : Set Int} {known : Int → Bool} {auditDepth : Int}
variable {i : Int}

theorem Apart.toNat_inj (h : Apart auditDepth ids) (hi : i ∈ ids) (hj : j ∈ ids) :
    (scaledIndex j).toNat = (scaledIndex i).toNat ↔ j = i := by
  have hi' := (h.placed i hi).2
  have hj' := (h.placed j hj).2
  constructor
  · intro heq
    exact h.injOn hj hi (by omega)
  · intro heq
    rw [heq]

theorem recalls_other {op : Op} (hop : ∀ i, op.msgId ≠ some ⟨some p, i⟩) : recalls p known op = known := by
  funext i
  cases op with
  | isDuplicate msgId =>
    have hne : msgId ≠ some ⟨some p, i⟩ := hop i
    simp [recalls, hne]
  | rollback msgId =>
    have hne : msgId ≠ some ⟨some p, i⟩ := hop i
    simp [recalls, hne]

theorem Tracks.member (h : Tracks p ids audit known)
    (hheld : Holds p bits audit held) (hi : i ∈ ids) : bits.member (scaledIndex i).toNat = known i := by
  rcases hheld.origin with hsome | ⟨hnone, hempty⟩
  · exact h.found bits hsome i hi
  · rw [hempty, h.absent hnone]

theorem Written.tracks {value : Bool} {after : ActiveMQMessageAudit} {known' : Int → Bool}
    (h : Written p index value bits held after) (hapart : Apart auditDepth ids) (hindex : index ∈ ids)
    (hmember : ∀ i ∈ ids, bits.member (scaledIndex i).toNat = known i)
    (hknown : ∀ i, known' i = if i = index then value else known i) : Tracks p ids after known' := by
  obtain ⟨bits', hown, hwritten⟩ := h.own
  refine ⟨h.inv, fun hnone => ?_, fun bits'' hbits'' i hi => ?_⟩
  · rw [hown] at hnone
    cases hnone
  · rw [hown] at hbits''
    cases hbits''
    rw [hwritten, hmember i hi, hknown]
    simp only [hapart.toNat_inj hindex hi]

theorem Tracks.isDuplicate (h : Tracks p ids audit known) (hapart : Apart audit.auditDepth ids) (hpos : 0 ≤ index)
    (hindex : index ∈ ids) :
    (isDuplicate (some ⟨some p, index⟩) audit).1 = .ok (known index) ∧
      Tracks p ids (isDuplicate (some ⟨some p, index⟩) audit).2 (recalls p known (.isDuplicate (some ⟨some p, index⟩))) := by
  obtain ⟨hdepth, hscaled⟩ := hapart.placed index hindex
  rcases isDuplicate_cases h.inv p index with ⟨-, hneg, -⟩ | ⟨bits, held, hheld, heq⟩
  · omega
  · obtain ⟨hanswer, hwritten⟩ := mark_eq hheld.inv hheld.own hpos hscaled
    rw [heq, hanswer, h.member hheld hindex]
    refine ⟨rfl, Written.tracks hwritten hapart hindex (fun i hi => h.member hheld hi) fun i => ?_⟩
    by_cases hi : i = index
    · simp [recalls, hi]
    · simp [recalls, hi, Ne.symm hi]

theorem Tracks.rollback (h : Tracks p ids audit known) (hapart : Apart audit.auditDepth ids) (hpos : 0 ≤ index)
    (hindex : index ∈ ids) :
    (ActiveMQMessageAudit.rollback (some ⟨some p, index⟩) audit).1 = .ok () ∧
      Tracks p ids (ActiveMQMessageAudit.rollback (some ⟨some p, index⟩) audit).2 (recalls p known (.rollback (some ⟨some p, index⟩))) := by
  obtain ⟨-, hscaled⟩ := hapart.placed index hindex
  cases hbits : bitsOf p audit with
  | none =>
    rw [rollback_of_none hbits]
    refine ⟨rfl, h.inv, fun _ i => ?_, fun bits hsome => ?_⟩
    · simp [recalls, h.absent hbits i]
    · rw [hbits] at hsome
      cases hsome
  | some bits =>
    obtain ⟨hanswer, hwritten⟩ := unmark_eq (h.inv.touch p.toString) ((bitsOf_touch _).trans hbits) hpos hscaled
    rw [rollback_of_some hbits, hanswer]
    refine ⟨rfl, Written.tracks hwritten hapart hindex (h.found bits hbits) fun i => ?_⟩
    by_cases hi : i = index
    · simp [recalls, hi]
    · simp [recalls, hi, Ne.symm hi]

theorem Tracks.step (h : Tracks p ids audit known) (hapart : Apart audit.auditDepth ids) (hpos : ∀ i ∈ ids, 0 ≤ i)
    {op : Op} (hop : ∀ i, op.msgId = some ⟨some p, i⟩ → i ∈ ids)
    (hkept : bitsOf p audit ≠ none → bitsOf p (Audit.step audit op).2 ≠ none) :
    Tracks p ids (Audit.step audit op).2 (recalls p known op) := by
  by_cases hown : ∃ i, op.msgId = some ⟨some p, i⟩
  · obtain ⟨i, hi⟩ := hown
    have hmem := hop i hi
    cases op with
    | isDuplicate msgId =>
      obtain rfl : msgId = some ⟨some p, i⟩ := hi
      exact (h.isDuplicate hapart (hpos i hmem) hmem).2
    | rollback msgId =>
      obtain rfl : msgId = some ⟨some p, i⟩ := hi
      exact (h.rollback hapart (hpos i hmem) hmem).2
  · rw [not_exists] at hown
    obtain ⟨hinv, -, hothers⟩ := inv_step h.inv op
    rw [recalls_other hown]
    refine ⟨hinv, fun hnone => ?_, fun bits hbits => ?_⟩
    · by_cases hbefore : bitsOf p audit = none
      · exact h.absent hbefore
      · exact absurd hnone (hkept hbefore)
    · rcases hothers p hown with hnone | hsame
      · rw [hnone] at hbits
        cases hbits
      · exact h.found bits (hsame.symm.trans hbits)

theorem Tracks.run (h : Tracks p ids audit known) (hapart : Apart audit.auditDepth ids) (hpos : ∀ i ∈ ids, 0 ≤ i)
    {ops : List Op} (hwithin : Within p ids ops) (hkept : NotEvicted p audit ops) :
    Tracks p ids (after Audit.step audit ops) (ops.foldl (recalls p) known) ∧
      (after Audit.step audit ops).auditDepth = audit.auditDepth := by
  induction ops generalizing audit known with
  | nil => exact ⟨h, rfl⟩
  | cons op ops ih =>
    obtain ⟨hstep, hrest⟩ := always_moves.mp hkept
    have hnext := h.step hapart hpos (hwithin op mem_cons_self) hstep
    have hdepth := (inv_step h.inv op).2.1
    rw [← hdepth] at hapart ⊢
    exact ih hnext hapart (fun op' hop' => hwithin op' (mem_cons_of_mem _ hop')) hrest

theorem tracks_new (p : ProducerId) (ids : Set Int) (auditDepth : Int) :
    Tracks p ids { auditDepth := auditDepth } fun _ => false where
  inv := inv_new auditDepth
  absent := fun _ _ => rfl
  found := fun bits hbits => by cases hbits

theorem isDuplicate_same_position (hdepth : 0 ≤ auditDepth) (hi : 0 ≤ i) (hj : 0 ≤ j)
    (hscaled : 0 ≤ scaledIndex i) (heq : scaledIndex i = scaledIndex j) :
    (isDuplicate (some ⟨some p, j⟩) (isDuplicate (some ⟨some p, i⟩) { auditDepth := auditDepth }).2).1 = .ok true := by
  have hmarked := (isDuplicate_marked (p := p) (inv_new auditDepth) hdepth hi hscaled).2
  have hframe := frame_isDuplicate (inv_new auditDepth) p i
  rw [(isDuplicate_marked hframe.inv (hframe.depth ▸ hdepth) hj (heq ▸ hscaled)).1, ← heq, hmarked]

theorem isDuplicate_new_ok {b : Bool} (hi : 0 ≤ i)
    (h : (isDuplicate (some ⟨some p, i⟩) { auditDepth := auditDepth }).1 = .ok b) :
    0 ≤ auditDepth ∧ 0 ≤ scaledIndex i := by
  by_cases hdepth : auditDepth < 0
  · rw [isDuplicate_negative hdepth rfl] at h
    cases h
  · refine ⟨not_lt.mp hdepth, not_lt.mp fun hneg => ?_⟩
    rcases isDuplicate_cases (inv_new auditDepth) p i with ⟨-, hneg', -⟩ | ⟨bits, held, hheld, heq⟩
    · exact hdepth hneg'
    · rw [heq, mark, if_neg (not_lt.mpr hi), BitSet.get, if_pos hneg] at h
      cases h

/-- The audit of a producer that is not evicted is exact, whatever is asked for other producers, exactly when
the sequence ids in use have positions in the bit set that are no other's. -/
theorem exact_iff_apart (auditDepth : Int) (p : ProducerId) (ids : Set Int) (hids : ids ⊆ Set.Icc 0 (2 ^ 63 - 1)) :
    (∀ ops, Within p ids ops → NotEvicted p { auditDepth := auditDepth } ops → ∀ i ∈ ids,
      (isDuplicate (some ⟨some p, i⟩) (after step { auditDepth := auditDepth } ops)).1 = .ok (remembered p ops i) ∧
        (ActiveMQMessageAudit.rollback (some ⟨some p, i⟩) (after step { auditDepth := auditDepth } ops)).1 = .ok ()) ↔
      Apart auditDepth ids := by
  have hpos : ∀ i ∈ ids, 0 ≤ i := fun i hi => (hids hi).1
  constructor
  · intro hexact
    have hplaced : ∀ i ∈ ids, 0 ≤ auditDepth ∧ 0 ≤ scaledIndex i := by
      intro i hi
      have hfirst := (hexact [] (fun op hop => by cases hop) trivial i hi).1
      exact isDuplicate_new_ok (hpos i hi) hfirst
    refine ⟨hplaced, fun i hi j hj heq => ?_⟩
    have hwithin : Within p ids [.isDuplicate (some ⟨some p, i⟩)] := by
      intro op hop k hk
      rw [mem_singleton.mp hop] at hk
      cases hk
      exact hi
    have hkept : NotEvicted p { auditDepth := auditDepth } [.isDuplicate (some ⟨some p, i⟩)] :=
      always_moves.mpr ⟨fun hne => absurd rfl hne, trivial⟩
    have hsecond := (hexact _ hwithin hkept j hj).1
    have hduplicate : remembered p [.isDuplicate (some ⟨some p, i⟩)] j = true := by
      refine Except.ok.inj (hsecond.symm.trans ?_)
      exact isDuplicate_same_position (hplaced i hi).1 (hpos i hi) (hpos j hj) (hplaced i hi).2 heq
    simpa [remembered, recalls] using hduplicate
  · intro hapart ops hwithin hkept i hi
    obtain ⟨htracks, hdepth⟩ := (tracks_new p ids auditDepth).run hapart hpos hwithin hkept
    have hapart' : Apart (after step { auditDepth := auditDepth } ops).auditDepth ids := by rwa [hdepth]
    exact ⟨(htracks.isDuplicate hapart' (hpos i hi) hi).1, (htracks.rollback hapart' (hpos i hi) hi).1⟩

/-- The ids that fit an `int` are told apart. -/
theorem exact_int_ids : (Set.Icc 0 2147483647 ⊆ Set.Icc (0 : Int) (2 ^ 63 - 1)) ∧
    Apart 2048 (Set.Icc 0 2147483647) ∧
    ∀ ops, Within ⟨ascii "ID:a", 1, 1⟩ (Set.Icc 0 2147483647) ops →
      NotEvicted ⟨ascii "ID:a", 1, 1⟩ { auditDepth := 2048 } ops → ∀ i ∈ Set.Icc (0 : Int) 2147483647,
      (isDuplicate (some ⟨some ⟨ascii "ID:a", 1, 1⟩, i⟩) (after step { auditDepth := 2048 } ops)).1 =
          .ok (remembered ⟨ascii "ID:a", 1, 1⟩ ops i) ∧
        (ActiveMQMessageAudit.rollback (some ⟨some ⟨ascii "ID:a", 1, 1⟩, i⟩) (after step { auditDepth := 2048 } ops)).1 = .ok () := by
  have hsubset : Set.Icc 0 2147483647 ⊆ Set.Icc (0 : Int) (2 ^ 63 - 1) := Set.Icc_subset_Icc_right (by decide)
  have hscaled : ∀ i ∈ Set.Icc (0 : Int) 2147483647, scaledIndex i = i := by
    rintro i ⟨hlow, hhigh⟩
    rw [scaledIndex, if_neg (by omega)]
    exact toInt32_of_range (by omega) (by omega)
  have hapart : Apart 2048 (Set.Icc 0 2147483647) := by
    refine ⟨fun i hi => ⟨by decide, ?_⟩, fun i hi j hj heq => ?_⟩
    · rw [hscaled i hi]
      exact hi.1
    · rwa [hscaled i hi, hscaled j hj] at heq
  exact ⟨hsubset, hapart, (exact_iff_apart 2048 ⟨ascii "ID:a", 1, 1⟩ _ hsubset).mpr hapart⟩

/-- The first id past the range of `int` is taken for an earlier one of its producer, and 2^32
makes the call throw. -/
theorem wrapped_id_confused :
    (isDuplicate (some ⟨some ⟨ascii "ID:a", 1, 1⟩, 2147483648⟩)
        (after step { auditDepth := 2048 } [.isDuplicate (some ⟨some ⟨ascii "ID:a", 1, 1⟩, 1⟩)])).1 = .ok true ∧
      remembered ⟨ascii "ID:a", 1, 1⟩ [.isDuplicate (some ⟨some ⟨ascii "ID:a", 1, 1⟩, 1⟩)] 2147483648 = false ∧
      NotEvicted ⟨ascii "ID:a", 1, 1⟩ { auditDepth := 2048 } [.isDuplicate (some ⟨some ⟨ascii "ID:a", 1, 1⟩, 1⟩)] ∧
      ∀ b, (isDuplicate (some ⟨some ⟨ascii "ID:a", 1, 1⟩, 4294967296⟩) { auditDepth := 2048 }).1 ≠ .ok b := by
  refine ⟨isDuplicate_same_position (by decide) (by decide) (by decide) (by decide) (by decide), ?_, ?_, ?_⟩
  · simp [remembered, recalls]
  · exact always_moves.mpr ⟨fun hne => absurd rfl hne, trivial⟩
  · intro b h
    exact absurd (isDuplicate_new_ok (by decide) h).2 (by decide)

end ActiveMQCpp.Core.Audit
