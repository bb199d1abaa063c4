import ActiveMQCpp.DecafInteger
import Mathlib.Data.List.GetD
import Mathlib.Data.List.TakeWhile

/-! `StringUtils::compare`: an order on C strings in which white space does not count and runs of digits compare
as numbers. A byte past the end of a string reads as the terminating zero. -/

namespace ActiveMQCpp.Decaf

namespace Character

/-- A `char` is signed. -/
def value (c : UInt8) : Int := if c.toNat < 128 then c.toNat else c.toNat - 256

def isDigit (c : UInt8) : Bool := decide (48 ≤ value c) && decide (value c ≤ 57)

def toUpperCase (c : UInt8) : UInt8 := if 97 ≤ c.toNat ∧ c.toNat ≤ 122 then c - 32 else c

theorem isDigit_zero : isDigit 0 = false := rfl

theorem toUpperCase_eq_zero {c : UInt8} (h : toUpperCase c = 0) : c = 0 := by
  rw [toUpperCase] at h
  split_ifs at h with hlower
  · have hback : c = 0 + 32 := UInt8.sub_eq_iff_eq_add.mp h
    rw [hback] at hlower
    exact absurd hlower (by decide)
  · exact h

theorem value_injective : Function.Injective value := by
  intro c d h
  have hc := c.toNat_lt
  have hd := d.toNat_lt
  rw [value, value] at h
  apply UInt8.toNat_inj.mp
  split_ifs at h <;> omega

end Character

namespace StringUtils

open Character

variable {left right s : ByteString}
variable {c d : UInt8}

def sign (c d : UInt8) : Int := if value c < value d then -1 else if value c > value d then 1 else 0

theorem sign_eq_zero : sign c d = 0 ↔ c = d := by
  rw [sign]
  constructor
  · intro h
    apply value_injective
    by_contra hne
    rcases lt_or_gt_of_ne hne with hlt | hgt
    · rw [if_pos hlt] at h
      cases h
    · rw [if_neg (lt_asymm hgt), if_pos hgt] at h
      cases h
  · intro h
    rw [h, if_neg (lt_irrefl _), if_neg (lt_irrefl _)]

theorem sign_swap (c d : UInt8) : sign d c = -sign c d := by
  rw [sign, sign]
  split_ifs <;> omega

/-- The longest run of digits wins; among runs of one length the first difference, kept in `bias`. -/
def compareRight (bias : Int) : List UInt8 → List UInt8 → Int
  | [], [] => bias
  | [], d :: _ => if isDigit d then -1 else bias
  | c :: _, [] => if isDigit c then 1 else bias
  | c :: left, d :: right =>
    if !isDigit c && !isDigit d then bias
    else if !isDigit c then -1
    else if !isDigit d then 1
    else compareRight (if bias = 0 then sign c d else bias) left right

/-- The first of two runs of digits to have a different digit, or to end, decides. -/
def compareLeft : List UInt8 → List UInt8 → Int
  | [], [] => 0
  | [], d :: _ => if isDigit d then -1 else 0
  | c :: _, [] => if isDigit c then 1 else 0
  | c :: left, d :: right =>
    if !isDigit c && !isDigit d then 0
    else if !isDigit c then -1
    else if !isDigit d then 1
    else if sign c d ≠ 0 then sign c d
    else compareLeft left right

/-- The comparison of two runs of digits that start with the given ones. -/
def compareDigits (curLeft curRight : UInt8) (left right : List UInt8) : Int :=
  if curLeft = 48 || curRight = 48 then compareLeft left right else compareRight 0 left right

/-- The index of the next character of `s` from `i` on that is no white space. -/
def skip (s : ByteString) (i : Nat) : Nat := i + ((s.drop i).takeWhile isWhitespace).length

theorem le_skip (s : ByteString) (i : Nat) : i ≤ skip s i := Nat.le_add_right _ _

/-- The loop of `doCompare`. White space on the right is skipped along the left string: the source reads
`left[++rIndex]` there. -/
def doCompare (left right : ByteString) (lIndex rIndex : Nat) : Int :=
  let l := skip left lIndex
  let curLeft := left.getD l 0
  let r := if isWhitespace (right.getD rIndex 0) then skip left (rIndex + 1) else rIndex
  let curRight := if isWhitespace (right.getD rIndex 0) then left.getD r 0 else right.getD r 0
  let result := compareDigits curLeft curRight (left.drop l) (right.drop r)
  if isDigit curLeft && isDigit curRight && result ≠ 0 then result
  else if hend : curLeft = 0 ∧ curRight = 0 then 0
  else if hsign : sign curLeft curRight ≠ 0 then sign curLeft curRight
  else doCompare left right (l + 1) (r + 1)
termination_by left.length - lIndex
decreasing_by
  have hskip := le_skip left lIndex
  have hlt : skip left lIndex < left.length := by
    by_contra hge
    have hzero : left.getD (skip left lIndex) 0 = 0 := List.getD_eq_default _ _ (not_lt.mp hge)
    refine hend ⟨hzero, (sign_eq_zero.mp (not_not.mp hsign)).symm.trans hzero⟩
  show left.length - (skip left lIndex + 1) < left.length - lIndex
  omega

def cStr (s : ByteString) : ByteString := s.takeWhile (· ≠ 0)

def compare (left right : ByteString) : Int := doCompare (cStr left) (cStr right) 0 0

/-- The loop of `doCompare` when the case does not count: the digits are compared as they are. -/
def doCompareIgnoreCase (left right : ByteString) (lIndex rIndex : Nat) : Int :=
  let l := skip left lIndex
  let curLeft := left.getD l 0
  let r := if isWhitespace (right.getD rIndex 0) then skip left (rIndex + 1) else rIndex
  let curRight := if isWhitespace (right.getD rIndex 0) then left.getD r 0 else right.getD r 0
  let result := compareDigits curLeft curRight (left.drop l) (right.drop r)
  if isDigit curLeft && isDigit curRight && result ≠ 0 then result
  else if hend : curLeft = 0 ∧ curRight = 0 then 0
  else if hsign : sign (toUpperCase curLeft) (toUpperCase curRight) ≠ 0 then
    sign (toUpperCase curLeft) (toUpperCase curRight)
  else doCompareIgnoreCase left right (l + 1) (r + 1)
termination_by left.length - lIndex
decreasing_by
  have hskip := le_skip left lIndex
  have hlt : skip left lIndex < left.length := by
    by_contra hge
    have hzero : left.getD (skip left lIndex) 0 = 0 := List.getD_eq_default _ _ (not_lt.mp hge)
    have hupper := sign_eq_zero.mp (not_not.mp hsign)
    refine hend ⟨hzero, toUpperCase_eq_zero (hupper.symm.trans ?_)⟩
    show toUpperCase (left.getD (skip left lIndex) 0) = 0
    rw [hzero]
    rfl
  show left.length - (skip left lIndex + 1) < left.length - lIndex
  omega

def compareIgnoreCase (left right : ByteString) : Int := doCompareIgnoreCase (cStr left) (cStr right) 0 0

/-! ### Strings without white space -/

def Plain (s : ByteString) : Prop := ∀ c ∈ s, isWhitespace c = false ∧ c ≠ 0

theorem compareRight_swap (bias : Int) (left right : List UInt8) :
    compareRight (-bias) right left = -compareRight bias left right := by
  induction left generalizing bias right with
  | nil =>
    cases right with
    | nil => rfl
    | cons d right =>
      rw [compareRight, compareRight]
      split_ifs <;> rfl
  | cons c left ih =>
    cases right with
    | nil =>
      rw [compareRight, compareRight]
      split_ifs <;> rfl
    | cons d right =>
      have hbias : (if -bias = 0 then sign d c else -bias) = -(if bias = 0 then sign c d else bias) := by
        rw [sign_swap c d]
        split_ifs <;> omega
      rw [compareRight, compareRight, hbias, ih]
      cases isDigit c <;> cases isDigit d <;> rfl

theorem compareLeft_swap (left right : List UInt8) : compareLeft right left = -compareLeft left right := by
  induction left generalizing right with
  | nil =>
    cases right with
    | nil => rfl
    | cons d right =>
      rw [compareLeft, compareLeft]
      split_ifs <;> rfl
  | cons c left ih =>
    cases right with
    | nil =>
      rw [compareLeft, compareLeft]
      split_ifs <;> rfl
    | cons d right =>
      rw [compareLeft, compareLeft, ih, sign_swap c d]
      simp only [ne_eq, Int.neg_eq_zero]
      by_cases hsign : sign c d = 0
      · rw [if_neg (not_not.mpr hsign), if_neg (not_not.mpr hsign)]
        cases isDigit c <;> cases isDigit d <;> rfl
      · rw [if_pos hsign, if_pos hsign]
        cases isDigit c <;> cases isDigit d <;> rfl

theorem compareDigits_swap (c d : UInt8) (left right : List UInt8) :
    compareDigits d c right left = -compareDigits c d left right := by
  rw [compareDigits, compareDigits, compareLeft_swap left, Bool.or_comm]
  split_ifs
  · rfl
  · exact compareRight_swap 0 left right

theorem cStr_of_plain (h : Plain s) : cStr s = s :=
  List.takeWhile_eq_self_iff.mpr fun c hc => by simpa using (h c hc).2

theorem isWhitespace_getD (h : Plain s) (i : Nat) : isWhitespace (s.getD i 0) = false := by
  by_cases hi : i < s.length
  · rw [List.getD_eq_getElem _ _ hi]
    exact (h _ (List.getElem_mem hi)).1
  · rw [List.getD_eq_default _ _ (not_lt.mp hi)]
    rfl

theorem skip_of_plain (h : Plain s) (i : Nat) : skip s i = i := by
  have hnone : (s.drop i).takeWhile isWhitespace = [] := by
    cases hdrop : s.drop i with
    | nil => rfl
    | cons c rest =>
      have hc : c ∈ s := List.mem_of_mem_drop (hdrop ▸ List.mem_cons_self : c ∈ s.drop i)
      rw [List.takeWhile_cons, (h c hc).1]
      rfl
  rw [skip, hnone]
  rfl

theorem drop_cases (s : ByteString) (i : Nat) :
    s.drop i = [] ∧ s.getD i 0 = 0 ∨ ∃ c, s.drop i = c :: s.drop (i + 1) ∧ s.getD i 0 = c ∧ c ∈ s := by
  by_cases hi : i < s.length
  · exact .inr ⟨s[i], List.drop_eq_getElem_cons hi, List.getD_eq_getElem _ _ hi, List.getElem_mem hi⟩
  · exact .inl ⟨List.drop_eq_nil_of_le (not_lt.mp hi), List.getD_eq_default _ _ (not_lt.mp hi)⟩

end StringUtils

namespace Boolean

def parseBoolean (value : ByteString) : Bool := decide (StringUtils.compareIgnoreCase value (ascii "true") = 0)

def toString (value : Bool) : ByteString := if value then ascii "true" else ascii "false"

theorem parseBoolean_toString (value : Bool) : parseBoolean (toString value) = value := by
  cases value <;> decide +kernel

end Boolean

end ActiveMQCpp.Decaf
