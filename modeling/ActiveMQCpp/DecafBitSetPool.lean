import ActiveMQCpp.LibRuns
import ActiveMQCpp.DecafBitSetAlgebra
import ActiveMQCpp.DecafBitSetScan

/-! Variables that hold `BitSet`s, the operations on them, and the finite sets that a run computes. -/

namespace ActiveMQCpp.Decaf.BitSet

open Runs

variable {V : Type} [DecidableEq V] {s : BitSet} {S T : Finset ℕ}
variable {index fromIndex toIndex : Int}
variable {value : Bool}

/-- An operation on the variable `k`; `l` is its argument. -/
inductive Op (V : Type) where
  | create (k : V)
  | createSized (k : V) (bitCount : Int)
  | copy (k l : V)
  | assign (k l : V)
  | set (k : V) (index : Int)
  | clear (k : V) (index : Int)
  | flip (k : V) (index : Int)
  | setValue (k : V) (index : Int) (value : Bool)
  | setRange (k : V) (fromIndex toIndex : Int)
  | clearRange (k : V) (fromIndex toIndex : Int)
  | flipRange (k : V) (fromIndex toIndex : Int)
  | setRangeValue (k : V) (fromIndex toIndex : Int) (value : Bool)
  | clearAll (k : V)
  | getRange (k l : V) (fromIndex toIndex : Int)
  | length (k : V)
  | AND (k l : V)
  | OR (k l : V)
  | XOR (k l : V)
  | andNot (k l : V)

abbrev Pool (V : Type) := V → BitSet

namespace Pool

def change (k : V) (result : Except BitSetException BitSet) (pool : Pool V) : Except BitSetException (Pool V) := do
  let s ← result
  .ok (Function.update pool k s)

/-- `set.getActualArrayLength()` on an argument. -/
def settle (l : V) (pool : Pool V) : Except BitSetException (Pool V) := pool.change l (pool l).getActualArrayLength

def perform (pool : Pool V) : Op V → Except BitSetException (Pool V)
  | .create k => pool.change k (.ok empty)
  | .createSized k bitCount => pool.change k (new bitCount)
  | .copy k l => pool.change k (pool l).copy
  | .assign k l => pool.change k (assign (decide (k = l)) (pool l))
  | .set k index => pool.change k ((pool k).set index)
  | .clear k index => pool.change k ((pool k).clear index)
  | .flip k index => pool.change k ((pool k).flip index)
  | .setValue k index value => pool.change k ((pool k).setValue index value)
  | .setRange k fromIndex toIndex => pool.change k ((pool k).setRange fromIndex toIndex)
  | .clearRange k fromIndex toIndex => pool.change k ((pool k).clearRange fromIndex toIndex)
  | .flipRange k fromIndex toIndex => pool.change k ((pool k).flipRange fromIndex toIndex)
  | .setRangeValue k fromIndex toIndex value => pool.change k ((pool k).setRangeValue fromIndex toIndex value)
  | .clearAll k => pool.change k (pool k).clearAll
  | .getRange k l fromIndex toIndex => pool.change k ((pool l).getRange fromIndex toIndex)
  | .length k => pool.change k ((pool k).length.map Prod.snd)
  | .AND k l => pool.change k (BitSet.AND (pool l) (pool k))
  | .OR k l => do
    let pool ← pool.settle l
    pool.change k (BitSet.OR (pool l) (pool k))
  | .XOR k l => do
    let pool ← pool.settle l
    pool.change k (BitSet.XOR (pool l) (pool k))
  | .andNot k l => pool.change k (BitSet.andNot (pool l) (pool k))

/-- An exception leaves the objects as they were; nothing is said after an access that is undefined. -/
def step (pool : Pool V) (op : Op V) : Option (Pool V) :=
  match pool.perform op with
  | .ok pool' => some pool'
  | .error .undefined => none
  | .error _ => some pool

def intersects (k l : V) (pool : Pool V) : Except BitSetException Bool := BitSet.intersects (pool l) (pool k)

def equals (k l : V) (pool : Pool V) : Except BitSetException Bool := BitSet.equals (decide (k = l)) (pool l) (pool k)

def initial : Pool V := fun _ => empty

end Pool

/-! ### The sets -/

/-- The elements between `fromIndex` and `toIndex`, shifted down. -/
def slice (fromIndex toIndex : Nat) (S : Finset ℕ) : Finset ℕ :=
  (S.filter fun j => fromIndex ≤ j ∧ j < toIndex).image fun j => j - fromIndex

/-- The set that an operation on a range leaves. -/
def onRange (fromIndex toIndex : Int) (f : Finset ℕ → Finset ℕ) (S : Finset ℕ) : Finset ℕ :=
  if invalidRange fromIndex toIndex then S else f (Finset.Ico fromIndex.toNat toIndex.toNat)

/-- What an operation does to the sets in the variables. -/
def spec (sets : V → Finset ℕ) : Op V → V → Finset ℕ
  | .create k => Function.update sets k ∅
  | .createSized k bitCount => Function.update sets k (if bitCount < 0 then sets k else ∅)
  | .copy k l => Function.update sets k (sets l)
  | .assign k l => Function.update sets k (sets l)
  | .set k index => Function.update sets k (if index < 0 then sets k else insert index.toNat (sets k))
  | .clear k index => Function.update sets k (if index < 0 then sets k else (sets k).erase index.toNat)
  | .flip k index => Function.update sets k (if index < 0 then sets k else symmDiff (sets k) {index.toNat})
  | .setValue k index value =>
    Function.update sets k
      (if index < 0 then sets k else if value then insert index.toNat (sets k) else (sets k).erase index.toNat)
  | .setRange k fromIndex toIndex => Function.update sets k (onRange fromIndex toIndex (sets k ∪ ·) (sets k))
  | .clearRange k fromIndex toIndex => Function.update sets k (onRange fromIndex toIndex (sets k \ ·) (sets k))
  | .flipRange k fromIndex toIndex => Function.update sets k (onRange fromIndex toIndex (symmDiff (sets k)) (sets k))
  | .setRangeValue k fromIndex toIndex value =>
    Function.update sets k
      (onRange fromIndex toIndex (fun range => if value then sets k ∪ range else sets k \ range) (sets k))
  | .clearAll k => Function.update sets k ∅
  | .getRange k l fromIndex toIndex =>
    Function.update sets k
      (if invalidRange fromIndex toIndex then sets k else slice fromIndex.toNat toIndex.toNat (sets l))
  | .length k => Function.update sets k (sets k)
  | .AND k l => Function.update sets k (sets k ∩ sets l)
  | .OR k l => Function.update sets k (sets k ∪ sets l)
  | .XOR k l => Function.update sets k (symmDiff (sets k) (sets l))
  | .andNot k l => Function.update sets k (sets k \ sets l)

/-! ### Conditions on a step -/

/-- `2^31 - 64`, from where on the bits are in a word whose number does not fit an index. -/
def indexLimit : Int := 2147483584

/-- The indexes that an operation puts into a set are below the limit. -/
def Op.inBounds : Op V → Prop
  | .set _ index => index < indexLimit
  | .flip _ index => index < indexLimit
  | .setValue _ index value => value = true → index < indexLimit
  | .setRange _ fromIndex toIndex => fromIndex < toIndex → toIndex ≤ indexLimit
  | .flipRange _ fromIndex toIndex => fromIndex < toIndex → toIndex ≤ indexLimit
  | .setRangeValue _ fromIndex toIndex value => value = true → fromIndex < toIndex → toIndex ≤ indexLimit
  | _ => True

def Op.isSingleSet : Op V → Bool
  | .AND _ _ => false
  | .OR _ _ => false
  | .XOR _ _ => false
  | .andNot _ _ => false
  | _ => true

/-- `k = k` on an object that has words. -/
def Op.selfAssigns (pool : Pool V) : Op V → Prop
  | .assign k l => k = l ∧ 0 < (pool k).bitsSize
  | _ => False

/-- The argument of `OR` and `XOR` fits into the receiver's words, and `XOR` does not cancel the last of them. -/
def Op.keepsLength (pool : Pool V) : Op V → Prop
  | .OR k l => ∀ pool', pool.settle l = .ok pool' → (pool' l).actualArrayLength ≤ (pool' k).bitsSize
  | .XOR k l => ∀ pool', pool.settle l = .ok pool' →
      (pool' l).actualArrayLength ≤ (pool' k).bitsSize ∧ ¬ cancelsLastWord (pool' l) (pool' k)
  | _ => True

/-! ### What one object becomes -/

/-- An operation on an object that holds `S` leaves `T`, or throws and leaves `S`. -/
def Yields (result : Except BitSetException BitSet) (S T : Finset ℕ) : Prop :=
  (∃ s', result = .ok s' ∧ Represents s' T) ∨ (∃ e, result = .error e ∧ e ≠ .undefined ∧ T = S)

theorem Yields.throws {result : Except BitSetException BitSet} (h : result = .error .indexOutOfBoundsException) :
    Yields result S S := .inr ⟨_, h, by decide, rfl⟩

theorem Becomes.represents {len : Nat} {members : Nat → Bool} {s' : BitSet} (hb : Becomes s len members s')
    (hbound : s.actualArrayLength < 33554432) (hlen : len < 33554432) (hmembers : ∀ j, members j = decide (j ∈ T)) :
    Represents s' T where
  inv := hb.inv
  member j := by rw [hb.member, hmembers]
  bound := lt_of_le_of_lt hb.used (by omega)

theorem Represents.set (h : Represents s S) (hindex : index < indexLimit) :
    Yields (s.set index) S (if index < 0 then S else insert index.toNat S) := by
  by_cases hneg : index < 0
  · rw [if_pos hneg]
    exact .throws (by rw [BitSet.set, if_pos hneg])
  · rw [if_neg hneg]
    obtain ⟨i, rfl⟩ := Int.eq_ofNat_of_zero_le (not_lt.mp hneg)
    rw [indexLimit] at hindex
    obtain ⟨s', hrun, hb⟩ := h.inv.set i
    refine .inl ⟨s', hrun, hb.represents h.bound (by omega) ?_⟩
    intro j
    simp only [h.member, Int.toNat_natCast, Finset.mem_insert, Bool.decide_or]

theorem Represents.clear (h : Represents s S) (index : Int) :
    Yields (s.clear index) S (if index < 0 then S else S.erase index.toNat) := by
  by_cases hneg : index < 0
  · rw [if_pos hneg]
    exact .throws (by rw [BitSet.clear, if_pos hneg])
  · rw [if_neg hneg]
    obtain ⟨i, rfl⟩ := Int.eq_ofNat_of_zero_le (not_lt.mp hneg)
    obtain ⟨s', hrun, hb⟩ := h.inv.clear i
    refine .inl ⟨s', hrun, hb.represents h.bound (by decide) ?_⟩
    intro j
    simp only [h.member, Int.toNat_natCast, Finset.mem_erase, Bool.decide_and, decide_not, ne_eq]

theorem Represents.flip (h : Represents s S) (hindex : index < indexLimit) :
    Yields (s.flip index) S (if index < 0 then S else symmDiff S {index.toNat}) := by
  by_cases hneg : index < 0
  · rw [if_pos hneg]
    exact .throws (by rw [BitSet.flip, if_pos hneg])
  · rw [if_neg hneg]
    obtain ⟨i, rfl⟩ := Int.eq_ofNat_of_zero_le (not_lt.mp hneg)
    rw [indexLimit] at hindex
    obtain ⟨s', hrun, hb⟩ := h.inv.flip i
    refine .inl ⟨s', hrun, hb.represents h.bound (by omega) ?_⟩
    intro j
    rw [h.member, Int.toNat_natCast]
    by_cases hj : j = i <;> by_cases hS : j ∈ S <;> simp [hj, hS, Finset.mem_symmDiff]

theorem Represents.setValue (h : Represents s S) (hindex : value = true → index < indexLimit) :
    Yields (s.setValue index value) S
      (if index < 0 then S else if value then insert index.toNat S else S.erase index.toNat) := by
  cases value with
  | true => exact h.set (hindex rfl)
  | false => exact h.clear index

theorem natCast_of_valid (h : invalidRange fromIndex toIndex = false) :
    ∃ a b : Nat, fromIndex = a ∧ toIndex = b ∧ a ≤ b := by
  simp only [invalidRange, Bool.or_eq_false_iff, decide_eq_false_iff_not] at h
  obtain ⟨⟨hfrom, hto⟩, horder⟩ := h
  refine ⟨fromIndex.toNat, toIndex.toNat, by omega, by omega, by omega⟩

theorem Represents.onRange (f : Finset ℕ → Finset ℕ) {op : Int → Int → BitSet → Except BitSetException BitSet}
    (hinvalid : invalidRange fromIndex toIndex = true →
      op fromIndex toIndex s = .error .indexOutOfBoundsException)
    (hvalid : ∀ a b : Nat, fromIndex = a → toIndex = b → a ≤ b →
      ∃ s', op a b s = .ok s' ∧ Represents s' (f (Finset.Ico a b))) :
    Yields (op fromIndex toIndex s) S (BitSet.onRange fromIndex toIndex f S) := by
  rw [BitSet.onRange]
  cases hrange : invalidRange fromIndex toIndex with
  | true =>
    rw [if_pos rfl]
    exact .throws (hinvalid hrange)
  | false =>
    rw [if_neg Bool.false_ne_true]
    obtain ⟨a, b, rfl, rfl, hle⟩ := natCast_of_valid hrange
    exact .inl (hvalid a b rfl rfl hle)

theorem inRange_eq (a b j : Nat) : inRange a b j = decide (j ∈ Finset.Ico a b) :=
  decide_eq_decide.mpr Finset.mem_Ico.symm

theorem setRange_self (a : Nat) (s : BitSet) : s.setRange a a = .ok s := by
  rw [BitSet.setRange, invalidRange_natCast (le_refl a), if_neg Bool.false_ne_true, if_pos rfl]

theorem flipRange_self (a : Nat) (s : BitSet) : s.flipRange a a = .ok s := by
  rw [BitSet.flipRange, invalidRange_natCast (le_refl a), if_neg Bool.false_ne_true, if_pos rfl]

theorem Represents.setRange (h : Represents s S) (hindex : fromIndex < toIndex → toIndex ≤ indexLimit) :
    Yields (s.setRange fromIndex toIndex) S (BitSet.onRange fromIndex toIndex (S ∪ ·) S) := by
  refine Represents.onRange _ (fun hinvalid => by rw [BitSet.setRange, if_pos hinvalid]) ?_
  rintro a b rfl rfl hle
  rw [indexLimit] at hindex
  by_cases hsame : a = b
  · subst hsame
    refine ⟨s, setRange_self a s, ?_⟩
    rwa [Finset.Ico_self, Finset.union_empty]
  · obtain ⟨s', hrun, hb⟩ := h.inv.setRange hle
    refine ⟨s', hrun, hb.represents h.bound (by omega) ?_⟩
    intro j
    simp only [h.member, inRange_eq, Finset.mem_union, Bool.decide_or, Bool.or_comm]

theorem Represents.clearRange (h : Represents s S) (fromIndex toIndex : Int) :
    Yields (s.clearRange fromIndex toIndex) S (BitSet.onRange fromIndex toIndex (S \ ·) S) := by
  refine Represents.onRange _ (fun hinvalid => by rw [BitSet.clearRange, if_pos hinvalid]) ?_
  rintro a b rfl rfl hle
  obtain ⟨s', hrun, hb⟩ := h.inv.clearRange h.bound hle
  refine ⟨s', hrun, hb.represents h.bound (by decide) ?_⟩
  intro j
  simp only [h.member, inRange_eq, Finset.mem_sdiff, Bool.decide_and, decide_not, Bool.and_comm]

theorem Represents.flipRange (h : Represents s S) (hindex : fromIndex < toIndex → toIndex ≤ indexLimit) :
    Yields (s.flipRange fromIndex toIndex) S (BitSet.onRange fromIndex toIndex (symmDiff S) S) := by
  refine Represents.onRange _ (fun hinvalid => by rw [BitSet.flipRange, if_pos hinvalid]) ?_
  rintro a b rfl rfl hle
  rw [indexLimit] at hindex
  by_cases hsame : a = b
  · subst hsame
    refine ⟨s, flipRange_self a s, ?_⟩
    have hnone : symmDiff S ∅ = S := symmDiff_bot S
    rwa [Finset.Ico_self, hnone]
  · obtain ⟨s', hrun, hb⟩ := h.inv.flipRange hle
    refine ⟨s', hrun, hb.represents h.bound (by omega) ?_⟩
    intro j
    rw [h.member, inRange_eq]
    by_cases hS : j ∈ S <;> by_cases hj : j ∈ Finset.Ico a b <;> simp [hS, hj, Finset.mem_symmDiff]

theorem Represents.setRangeValue (h : Represents s S)
    (hindex : value = true → fromIndex < toIndex → toIndex ≤ indexLimit) :
    Yields (s.setRangeValue fromIndex toIndex value) S
      (BitSet.onRange fromIndex toIndex (fun range => if value then S ∪ range else S \ range) S) := by
  cases value with
  | true => exact h.setRange (hindex rfl)
  | false => exact h.clearRange fromIndex toIndex

theorem Represents.clearAll (h : Represents s S) : Yields s.clearAll S ∅ := by
  obtain ⟨s', hrun, hb⟩ := h.inv.clearAll
  refine .inl ⟨s', hrun, hb.represents h.bound (by decide) ?_⟩
  intro j
  rw [decide_eq_false (Finset.notMem_empty j)]

theorem Represents.slice (h : Represents s S) {a b : Nat} (hle : a ≤ b) :
    ∃ t, s.getRange a b = .ok t ∧ Represents t (BitSet.slice a b S) := by
  obtain ⟨t, hrun, ht⟩ := h.inv.getRange h.bound hle
  have hbound := h.bound
  refine ⟨t, hrun, ht.inv, ?_, lt_of_le_of_lt ht.used hbound⟩
  intro j
  rw [ht.member, h.member, inRange, ← Bool.decide_and]
  apply decide_eq_decide.mpr
  simp only [BitSet.slice, Finset.mem_image, Finset.mem_filter]
  constructor
  · rintro ⟨⟨-, hlt⟩, hmem⟩
    exact ⟨a + j, ⟨hmem, Nat.le_add_right a j, hlt⟩, Nat.add_sub_cancel_left a j⟩
  · rintro ⟨i, ⟨hmem, hlow, hhigh⟩, rfl⟩
    have heq : a + (i - a) = i := Nat.add_sub_cancel' hlow
    rw [heq]
    exact ⟨⟨hlow, hhigh⟩, hmem⟩

theorem Represents.getRange (h : Represents s S) (fromIndex toIndex : Int) (T : Finset ℕ) :
    Yields (s.getRange fromIndex toIndex) T
      (if invalidRange fromIndex toIndex then T else BitSet.slice fromIndex.toNat toIndex.toNat S) := by
  cases hrange : invalidRange fromIndex toIndex with
  | true =>
    rw [if_pos rfl]
    exact .throws (by rw [BitSet.getRange, if_pos hrange])
  | false =>
    rw [if_neg Bool.false_ne_true]
    obtain ⟨a, b, rfl, rfl, hle⟩ := natCast_of_valid hrange
    exact .inl (h.slice hle)

theorem represents_zeros (n : Nat) : Represents { bits := List.replicate n 0, bitsSize := n } ∅ := by
  have hnone : ∀ j, bit (List.replicate n 0) j = false := by
    intro j
    rw [bit, getD_replicate, getLsbD_zero]
  refine ⟨Inv.of_bits List.length_replicate (Nat.zero_le _) (fun j _ => hnone j) (fun _ j => hnone j) ?_, ?_, ?_⟩
  · exact fun _ hpos => absurd hpos (Nat.lt_irrefl 0)
  · exact fun j => (hnone j).trans (decide_eq_false (Finset.notMem_empty j)).symm
  · exact Nat.zero_lt_succ _

theorem represents_empty : Represents empty ∅ := represents_zeros 1

theorem new_yields (bitCount : Int) (S : Finset ℕ) : Yields (new bitCount) S (if bitCount < 0 then S else ∅) := by
  by_cases hneg : bitCount < 0
  · rw [if_pos hneg]
    exact .inr ⟨.negativeArraySizeException, by rw [new, if_pos hneg], by decide, rfl⟩
  · rw [if_neg hneg]
    exact .inl ⟨_, by rw [new, if_neg hneg], represents_zeros _⟩

theorem Represents.copy (h : Represents s S) : Yields s.copy T S := .inl ⟨s, h.inv.copy, h⟩

theorem assign_true (s : BitSet) (h : 0 < s.bitsSize) : assign true s = .error .undefined := by
  rw [assign, arraycopy, if_pos rfl, if_pos (.inl h)]
  rfl

theorem Represents.assign (h : Represents s S) {same : Bool} (hself : same = true → s.bitsSize = 0) :
    Yields (assign same s) T S := by
  cases same with
  | false => exact h.copy
  | true =>
    have hzero := hself rfl
    have hsize := h.inv.size
    have hbits : s.bits = [] := List.eq_nil_of_length_eq_zero (by omega)
    refine .inl ⟨s, ?_, h⟩
    obtain ⟨bits, bitsSize, needClear, actualArrayLength, isLengthActual⟩ := s
    cases hbits
    cases hzero
    rfl

/-! ### What the variables become -/

namespace Pool

variable {pool : Pool V} {sets : V → Finset ℕ}
variable {op : Op V}
variable {k : V}

def Holds (pool : Pool V) (sets : V → Finset ℕ) : Prop := ∀ k, Represents (pool k) (sets k)

theorem Holds.update (h : pool.Holds sets) (k : V) (hs : Represents s S) :
    Holds (Function.update pool k s) (Function.update sets k S) := by
  intro m
  by_cases hm : m = k
  · subst hm
    rw [Function.update_self, Function.update_self]
    exact hs
  · rw [Function.update_of_ne hm, Function.update_of_ne hm]
    exact h m

theorem Holds.change (h : pool.Holds sets) {result : Except BitSetException BitSet}
    (hperform : pool.perform op = pool.change k result) (hresult : Yields result (sets k) T) :
    ∃ pool', pool.step op = some pool' ∧ pool'.Holds (Function.update sets k T) := by
  rcases hresult with ⟨s', hrun, hs'⟩ | ⟨e, hrun, hdefined, rfl⟩
  · refine ⟨Function.update pool k s', ?_, h.update k hs'⟩
    rw [step, hperform, hrun]
    rfl
  · refine ⟨pool, ?_, ?_⟩
    · rw [step, hperform, hrun]
      cases e with
      | undefined => exact absurd rfl hdefined
      | negativeArraySizeException => rfl
      | indexOutOfBoundsException => rfl
    · rw [Function.update_eq_self]
      exact h

theorem Holds.settle (h : pool.Holds sets) (l : V) : ∃ pool', pool.settle l = .ok pool' ∧ pool'.Holds sets ∧
    (pool' l).isLengthActual = true := by
  obtain ⟨t, hrun, ht, hexact⟩ := (h l).getActualArrayLength
  refine ⟨Function.update pool l t, ?_, ?_, ?_⟩
  · rw [Pool.settle, Pool.change, hrun]
    rfl
  · have hkeep := h.update l ht
    rwa [Function.update_eq_self] at hkeep
  · rw [Function.update_self]
    exact hexact

theorem Holds.changeSettled (h : pool.Holds sets) {l : V} {f : BitSet → BitSet → Except BitSetException BitSet}
    (hperform : pool.perform op = (do
      let pool ← pool.settle l
      pool.change k (f (pool l) (pool k))))
    (hresult : ∀ pool', pool.settle l = .ok pool' → pool'.Holds sets → (pool' l).isLengthActual = true →
      ∃ s', f (pool' l) (pool' k) = .ok s' ∧ Represents s' T) :
    ∃ pool', pool.step op = some pool' ∧ pool'.Holds (Function.update sets k T) := by
  obtain ⟨pool1, hsettle, hholds, hexact⟩ := h.settle l
  obtain ⟨s', hrun, hs'⟩ := hresult pool1 hsettle hholds hexact
  refine ⟨Function.update pool1 k s', ?_, hholds.update k hs'⟩
  rw [step, hperform, hsettle]
  simp only [bind, Except.bind, hrun]
  rfl

def Meets (pool : Pool V) (op : Op V) : Prop := op.inBounds ∧ ¬ op.selfAssigns pool ∧ op.keepsLength pool

theorem Holds.step (h : pool.Holds sets) {op : Op V} (hop : Meets pool op) :
    ∃ pool', pool.step op = some pool' ∧ pool'.Holds (spec sets op) := by
  obtain ⟨hbounds, hself, hlength⟩ := hop
  cases op with
  | create k =>
    have hresult : Yields (.ok empty) (sets k) ∅ := .inl ⟨empty, rfl, represents_empty⟩
    exact h.change rfl hresult
  | createSized k bitCount => exact h.change rfl (new_yields bitCount _)
  | copy k l => exact h.change rfl (h l).copy
  | assign k l =>
    refine h.change rfl ((h l).assign ?_)
    intro hsame
    have heq : k = l := of_decide_eq_true hsame
    subst heq
    by_contra hwords
    exact hself ⟨rfl, Nat.pos_of_ne_zero hwords⟩
  | set k index => exact h.change rfl ((h k).set hbounds)
  | clear k index => exact h.change rfl ((h k).clear index)
  | flip k index => exact h.change rfl ((h k).flip hbounds)
  | setValue k index value => exact h.change rfl ((h k).setValue hbounds)
  | setRange k fromIndex toIndex => exact h.change rfl ((h k).setRange hbounds)
  | clearRange k fromIndex toIndex => exact h.change rfl ((h k).clearRange fromIndex toIndex)
  | flipRange k fromIndex toIndex => exact h.change rfl ((h k).flipRange hbounds)
  | setRangeValue k fromIndex toIndex value => exact h.change rfl ((h k).setRangeValue hbounds)
  | clearAll k => exact h.change rfl (h k).clearAll
  | getRange k l fromIndex toIndex => exact h.change rfl ((h l).getRange fromIndex toIndex _)
  | length k =>
    obtain ⟨t, hrun, ht⟩ := (h k).length
    have hresult : Yields ((pool k).length.map Prod.snd) (sets k) (sets k) := by
      refine .inl ⟨t, ?_, ht⟩
      rw [hrun]
      rfl
    exact h.change rfl hresult
  | AND k l => exact h.change rfl (.inl ((h k).AND (h l)))
  | OR k l =>
    refine h.changeSettled rfl ?_
    intro pool' hsettle hholds hexact
    exact (hholds k).OR (hholds l) hexact (hlength pool' hsettle)
  | XOR k l =>
    refine h.changeSettled rfl ?_
    intro pool' hsettle hholds hexact
    obtain ⟨hroom, hkeeps⟩ := hlength pool' hsettle
    exact (hholds k).XOR (hholds l) hexact hroom hkeeps
  | andNot k l => exact h.change rfl (.inl ((h k).andNot (h l)))

theorem step_selfAssigns (h : op.selfAssigns pool) : pool.step op = none := by
  cases op with
  | assign k l =>
    obtain ⟨rfl, hwords⟩ := h
    rw [step, perform, change, decide_eq_true rfl, assign_true (pool k) hwords]
    rfl
  | _ => cases h

omit [DecidableEq V] in
theorem holds_initial : (initial : Pool V).Holds fun _ => ∅ := fun _ => represents_empty

end Pool

/-! ### What can be observed -/

structure Observes (s : BitSet) (S : Finset ℕ) : Prop where
  get : ∀ i : ℕ, s.get i = .ok (decide (i ∈ S))
  length : ∃ t, s.length = .ok (((S.sup (· + 1) : ℕ) : Int), t)
  cardinality : s.cardinality = .ok S.card
  isEmpty : s.isEmpty = .ok (decide (S = ∅))
  nextSetBit : ∀ i : ℕ, (∃ n : ℕ, s.nextSetBit i = .ok n ∧ IsLeast {j | j ∈ S ∧ i ≤ j} n) ∨
    (s.nextSetBit i = .ok (-1) ∧ ∀ j ∈ S, j < i)
  nextClearBit : ∀ i : ℕ, ∃ n : ℕ, s.nextClearBit i = .ok n ∧ IsLeast {j | j ∉ S ∧ i ≤ j} n
  toString : s.toString = .ok (ascii "\x7b" ++ (ascii ", ").intercalate ((S.sort (· ≤ ·)).map elementText) ++ ascii "\x7d")
  unused : ∀ pos, s.actualArrayLength ≤ pos → s.bits.getD pos 0 = 0

/-- As do the objects that `get` makes of its ranges. -/
structure Agrees (s : BitSet) (S : Finset ℕ) : Prop extends Observes s S where
  getRange : ∀ fromIndex toIndex : ℕ, fromIndex ≤ toIndex →
    ∃ t, s.getRange fromIndex toIndex = .ok t ∧ Observes t (slice fromIndex toIndex S)

theorem Represents.observes (h : Represents s S) : Observes s S where
  get i := by rw [get_eq h.inv, h.member]
  length := by
    obtain ⟨t, hrun, -⟩ := h.length
    exact ⟨t, hrun⟩
  cardinality := h.cardinality
  isEmpty := h.isEmpty
  nextSetBit := h.nextSetBit
  nextClearBit := h.nextClearBit
  toString := h.toString
  unused := h.inv.unused

theorem Represents.agrees (h : Represents s S) : Agrees s S where
  toObserves := h.observes
  getRange fromIndex toIndex hle := by
    obtain ⟨t, hrun, ht⟩ := h.slice hle
    exact ⟨t, hrun, ht.observes⟩

namespace Pool

variable {pool : Pool V} {sets : V → Finset ℕ}

def setsAfter (ops : List (Op V)) : V → Finset ℕ := ops.foldl spec fun _ => ∅

def Computes (ops : List (Op V)) : Prop :=
  ∃ pool, run step initial ops = some pool ∧ ∀ k, Agrees (pool k) (setsAfter ops k)

theorem keepsLength_of_isSingleSet {op : Op V} (h : op.isSingleSet = true) (pool : Pool V) : op.keepsLength pool := by
  cases op with
  | OR k l => cases h
  | XOR k l => cases h
  | _ => trivial

/-- Runs of operations on single sets compute the sets exactly when no object that has words is assigned to
itself. -/
theorem computes_iff_no_self_assignment (ops : List (Op V)) (hops : ∀ op ∈ ops, op.isSingleSet = true ∧ op.inBounds) :
    Computes ops ↔ Always step (fun pool op => ¬ op.selfAssigns pool) initial ops := by
  constructor
  · rintro ⟨pool, hrun, -⟩
    refine always_of_run ?_ hrun
    intro pool op hself
    exact step_selfAssigns (not_not.mp hself)
  · intro hall
    have hstep : ∀ (pool : Pool V) (sets : V → Finset ℕ) (op : Op V), pool.Holds sets →
        (¬ op.selfAssigns pool ∧ op.isSingleSet = true ∧ op.inBounds) →
          ∃ pool', pool.step op = some pool' ∧ pool'.Holds (spec sets op) := by
      rintro pool sets op hholds ⟨hself, hsingle, hbounds⟩
      exact hholds.step ⟨hbounds, hself, keepsLength_of_isSingleSet hsingle pool⟩
    obtain ⟨pool, hrun, hholds⟩ := run_follows hstep holds_initial (hall.and_mem hops)
    exact ⟨pool, hrun, fun k => (hholds k).agrees⟩

/-- `b.set(70); a = b; a.clear(70)`. -/
theorem computes_iff_no_self_assignment_copy :
    Computes [Op.set true 70, .assign false true, .clear false 70] ↔
      Always step (fun pool op => ¬ op.selfAssigns pool) initial
        [Op.set true 70, .assign false true, .clear false 70] := by
  apply computes_iff_no_self_assignment
  intro op hop
  simp only [List.mem_cons, List.not_mem_nil, or_false] at hop
  rcases hop with rfl | rfl | rfl
  · exact ⟨rfl, by rw [Op.inBounds, indexLimit]; decide⟩
  · exact ⟨rfl, trivial⟩
  · exact ⟨rfl, trivial⟩

/-- `a.set(0); a = a`. -/
theorem self_assignment_undefined : ¬ Computes [Op.set () 0, .assign () ()] := by
  have hrun : run step initial [Op.set () 0, .assign () ()] = none := rfl
  rintro ⟨pool, hpool, -⟩
  rw [hrun] at hpool
  cases hpool

/-- The two tests of two sets answer for the sets in the variables. -/
def Compares (pool : Pool V) (sets : V → Finset ℕ) : Prop :=
  ∀ k l, pool.intersects k l = .ok (decide (¬ Disjoint (sets k) (sets l))) ∧
    pool.equals k l = .ok (decide (sets k = sets l))

theorem Holds.compares (h : pool.Holds sets) : pool.Compares sets := by
  intro k l
  refine ⟨(h k).intersects (h l), ?_⟩
  by_cases hsame : k = l
  · subst hsame
    rw [equals, decide_eq_true rfl, BitSet.equals, if_pos rfl, decide_eq_true rfl]
  · rw [equals, decide_eq_false hsame]
    exact (h k).equals (h l)

/-- A run ends with objects that hold the sets and compare as they do. -/
def ComputesAll (ops : List (Op V)) : Prop :=
  ∃ pool, run step initial ops = some pool ∧ (∀ k, Agrees (pool k) (setsAfter ops k)) ∧ pool.Compares (setsAfter ops)

theorem computesAll_of_meets (ops : List (Op V)) (hall : Always step Meets initial ops) : ComputesAll ops := by
  have hstep : ∀ (pool : Pool V) (sets : V → Finset ℕ) (op : Op V), pool.Holds sets → Meets pool op →
      ∃ pool', pool.step op = some pool' ∧ pool'.Holds (spec sets op) := fun pool sets op hholds => hholds.step
  obtain ⟨pool, hrun, hholds⟩ := run_follows hstep holds_initial hall
  exact ⟨pool, hrun, fun k => (hholds k).agrees, hholds.compares⟩

/-- `b.set(5); a.OR(b)`. -/
theorem computesAll_of_meets_or : ComputesAll [Op.set true 5, .OR false true] := by
  apply computesAll_of_meets
  refine ⟨⟨?_, not_false, trivial⟩, fun pool1 h1 => ⟨⟨trivial, not_false, ?_⟩, fun pool2 _ => trivial⟩⟩
  · rw [Op.inBounds, indexLimit]
    decide
  · cases h1
    intro pool' hsettle
    cases hsettle
    decide

/-- `b.set(64); a.OR(b)` leaves the cardinality 0, and `a.set(1); b.set(1); a.XOR(b)` leaves a set that does not equal
an empty one. -/
theorem stale_lengths : ¬ ComputesAll [Op.set true 64, .OR false true] ∧
    ¬ ComputesAll [Op.set 0 1, .set 1 1, .XOR 0 (1 : Fin 3)] := by
  constructor
  · rintro ⟨pool, hrun, hall, -⟩
    have hcount := (hall false).cardinality
    cases hrun
    have hzero : ((0 : Nat) : Nat) = 1 := Except.ok.inj hcount
    cases hzero
  · rintro ⟨pool, hrun, -, hcompare⟩
    have hequal := (hcompare 0 2).2
    cases hrun
    have hfalse : false = true := Except.ok.inj hequal
    cases hfalse

end Pool

end ActiveMQCpp.Decaf.BitSet
