import Mathlib.Data.List.Basic

/-! What the lists of `decaf::util` take and answer, and the sequences they stand for. -/

namespace ActiveMQCpp.Decaf

/-- The argument of an operation on two collections. -/
inductive Argument (ε : Type) where
  | other (values : List ε)
  | self
  deriving DecidableEq

def Argument.isSelf {ε : Type} : Argument ε → Bool
  | .other _ => false
  | .self => true

/-- `undefined` stands for an access outside an array or to memory that is no longer there. -/
inductive ListAnswer (ε : Type) where
  | done
  | bool (b : Bool)
  | value (v : ε)
  | index (i : Int)
  | array (values : List ε)
  | indexOutOfBoundsException
  | noSuchElementException
  | illegalStateException
  | concurrentModificationException
  | unsupportedOperationException
  | undefined
  | noIterator
  deriving DecidableEq

def indexOrNone : Option Nat → Int
  | some i => i
  | none => -1

namespace Sequence

variable {ε : Type}

def valuesOf (xs : List ε) : Argument ε → List ε
  | .other values => values
  | .self => xs

def get? (index : Int) (xs : List ε) : Option ε := if index < 0 then none else xs[index.toNat]?

section Search

variable [DecidableEq ε] {xs : List ε} {value : ε} {i : Nat}

theorem not_mem_of_findIdx? (h : xs.findIdx? (· = value) = none) : value ∉ xs := by
  intro hmem
  have hne := List.findIdx?_eq_none_iff.mp h value hmem
  rw [decide_eq_true rfl] at hne
  cases hne

theorem findIdx?_erase (h : xs.findIdx? (· = value) = some i) :
    value ∈ xs ∧ i < xs.length ∧ xs.eraseIdx i = xs.erase value := by
  obtain ⟨hi, hvalue, hbefore⟩ := List.findIdx?_eq_some_iff_getElem.mp h
  have hmem : value ∈ xs := of_decide_eq_true hvalue ▸ List.getElem_mem hi
  have hidx : xs.idxOf value = i := by
    rw [List.idxOf, List.findIdx_eq hi]
    exact ⟨by simpa using hvalue, fun j hj => by simpa using hbefore j hj⟩
  exact ⟨hmem, hi, by rw [← hidx, List.erase_eq_eraseIdx_of_idxOf rfl]⟩

theorem indexOrNone_ne_iff : indexOrNone (xs.findIdx? (· = value)) ≠ -1 ↔ value ∈ xs := by
  cases hfound : xs.findIdx? (· = value) with
  | none => exact iff_of_false (fun hne => hne rfl) (not_mem_of_findIdx? hfound)
  | some i => exact iff_of_true (by rw [indexOrNone]; omega) (findIdx?_erase hfound).1

end Search

end Sequence

end ActiveMQCpp.Decaf
