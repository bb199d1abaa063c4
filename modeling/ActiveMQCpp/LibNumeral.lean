import ActiveMQCpp.LibStream
import Mathlib.Data.Nat.Log
import Mathlib.Tactic.Linarith
import Mathlib.Tactic.Positivity
import Mathlib.Tactic.Ring

/-! Positional numerals over any alphabet: the number that digits show, the last digits of a number, and loops that take
the digits of a numeral in the negative range of a word, which is the larger one. -/

namespace ActiveMQCpp.Numeral

variable {α ε : Type} {digit : α → Option Nat} {print : Nat → α} {radix k n m bound : Nat} {xs : List α} {v : Int}

/-- The number that digits show behind a number that was read. -/
def value (digit : α → Option Nat) (radix : Nat) : Nat → List α → Option Nat
  | n, [] => some n
  | n, c :: rest => (digit c).bind fun d => value digit radix (n * radix + d) rest

def number (digit : α → Option Nat) (radix : Nat) : List α → Option Nat
  | [] => none
  | c :: rest => value digit radix 0 (c :: rest)

/-- The number of a text that may begin with the mark of the negative numbers. -/
def Signed (minus : α) (reading : List α → Option Nat) (xs : List α) (v : Int) : Prop :=
  (∃ n, reading xs = some n ∧ v = n) ∨ ∃ rest n, xs = minus :: rest ∧ reading rest = some n ∧ v = -(n : Int)

def withSign (negative : Bool) (n : Nat) : Int := if negative then -(n : Int) else n

@[simp] theorem withSign_zero (negative : Bool) : withSign negative 0 = 0 := by
  cases negative <;> rfl

theorem number_of_ne_nil (h : xs ≠ []) : number digit radix xs = value digit radix 0 xs := by
  cases xs with
  | nil => exact absurd rfl h
  | cons c rest => rfl

theorem value_append (n : Nat) (xs ys : List α) :
    value digit radix n (xs ++ ys) = (value digit radix n xs).bind fun m => value digit radix m ys := by
  induction xs generalizing n with
  | nil => rfl
  | cons c rest ih =>
    rw [List.cons_append, value, value, Option.bind_assoc]
    congr 1
    funext d
    exact ih _

theorem le_of_value (hradix : 0 < radix) (h : value digit radix n xs = some m) : n ≤ m := by
  induction xs generalizing n with
  | nil =>
    cases h
    exact le_refl _
  | cons c rest ih =>
    rw [value, Option.bind_eq_some_iff] at h
    obtain ⟨d, -, hrest⟩ := h
    calc n ≤ n * radix := Nat.le_mul_of_pos_right n hradix
      _ ≤ n * radix + d := Nat.le_add_right _ d
      _ ≤ m := ih hrest

/-! ### Printing -/

/-- The last `k` digits of a number; a negative number has those of its two's complement. -/
def lastDigits (print : Nat → α) (radix : Nat) : Nat → Int → List α
  | 0, _ => []
  | k + 1, n => lastDigits print radix k (n / radix) ++ [print (n % radix).toNat]

theorem length_lastDigits (k : Nat) (n : Int) : (lastDigits print radix k n).length = k := by
  induction k generalizing n with
  | zero => rfl
  | succ k ih => rw [lastDigits, List.length_append, List.length_singleton, ih]

theorem value_lastDigits (hradix : 0 < radix) (hdigit : ∀ d < radix, digit (print d) = some d) (k : Nat) (n : Int) :
    value digit radix 0 (lastDigits print radix k n) = some (n % (radix ^ k : Nat)).toNat := by
  induction k generalizing n with
  | zero => simp [lastDigits, value]
  | succ k ih =>
    have hpos : (0 : Int) < radix := by omega
    have hpow : (0 : Int) < (radix ^ k : Nat) := by exact_mod_cast Nat.pow_pos hradix
    have hlast := Int.emod_nonneg n hpos.ne'
    have hlastLt := Int.emod_lt_of_pos n hpos
    have hinit := Int.emod_nonneg (n / radix) hpow.ne'
    have hinitLt := Int.emod_lt_of_pos (n / radix) hpow
    have hmod : n % (radix ^ (k + 1) : Nat) = n / radix % (radix ^ k : Nat) * radix + n % radix := by
      refine ((Int.ediv_emod_unique (q := n / radix / (radix ^ k : Nat)) ?_).mpr ⟨?_, ?_, ?_⟩).2
      · exact_mod_cast Nat.pow_pos hradix
      · have hn := Int.mul_ediv_add_emod n radix
        have hq := Int.mul_ediv_add_emod (n / radix) (radix ^ k : Nat)
        calc n / radix % (radix ^ k : Nat) * radix + n % radix + (radix ^ (k + 1) : Nat) * (n / radix / (radix ^ k : Nat))
            = radix * ((radix ^ k : Nat) * (n / radix / (radix ^ k : Nat)) + n / radix % (radix ^ k : Nat)) + n % radix := by
              rw [pow_succ, Nat.cast_mul]
              ring
          _ = n := by rw [hq, hn]
      · positivity
      · have hle := Int.mul_le_mul_of_nonneg_right (Int.add_one_le_iff.mpr hinitLt) hpos.le
        rw [pow_succ, Nat.cast_mul]
        linarith
    rw [lastDigits, value_append, ih, Option.bind_some, value, hdigit _ (by omega), Option.bind_some, value, hmod]
    congr 1
    rw [Int.toNat_add (by positivity) hlast, Int.toNat_mul hinit hpos.le, Int.toNat_natCast]

def allDigits (print : Nat → α) (radix n : Nat) : List α := lastDigits print radix (Nat.log radix n + 1) n

theorem allDigits_of_lt (h : n < radix) : allDigits print radix n = [print n] := by
  rw [allDigits, Nat.log_of_lt h, lastDigits, lastDigits, List.nil_append, Int.emod_eq_of_lt (by omega) (by omega),
    Int.toNat_natCast]

theorem allDigits_of_le (hradix : 1 < radix) (h : radix ≤ n) :
    allDigits print radix n = allDigits print radix (n / radix) ++ [print (n % radix)] := by
  rw [allDigits, Nat.log_of_one_lt_of_le hradix h, lastDigits, allDigits, ← Int.natCast_ediv, ← Int.natCast_emod,
    Int.toNat_natCast]

theorem value_allDigits (hradix : 1 < radix) (hdigit : ∀ d < radix, digit (print d) = some d) (n : Nat) :
    value digit radix 0 (allDigits print radix n) = some n := by
  have hlt := Nat.lt_pow_succ_log_self hradix n
  rw [allDigits, value_lastDigits (by omega) hdigit, Int.emod_eq_of_lt (by omega) (by exact_mod_cast hlt),
    Int.toNat_natCast]

/-! ### Reading -/

/-- A loop that takes the digits of a numeral one after the other in the negative range and fails past a bound. -/
structure Accumulates (f : Int → List α → Except ε Int) (digit : α → Option Nat) (radix bound : Nat) : Prop where
  nil : ∀ r, f r [] = .ok r
  step : ∀ {r d : Nat} {c rest}, digit c = some d → r * radix + d ≤ bound →
    f (-(r : Int)) (c :: rest) = f (-((r * radix + d : Nat) : Int)) rest
  stop : ∀ {r : Nat} {c rest v}, r ≤ bound → (∀ d, digit c = some d → bound < r * radix + d) →
    f (-(r : Int)) (c :: rest) ≠ .ok v

namespace Accumulates

variable {f : Int → List α → Except ε Int}

theorem ok_iff (h : Accumulates f digit radix bound) (hradix : 0 < radix) (hn : n ≤ bound) :
    f (-(n : Int)) xs = .ok v ↔ ∃ m, value digit radix n xs = some m ∧ m ≤ bound ∧ v = -(m : Int) := by
  induction xs generalizing n with
  | nil =>
    rw [h.nil]
    constructor
    · intro heq
      cases heq
      exact ⟨n, rfl, hn, rfl⟩
    · rintro ⟨m, hm, -, rfl⟩
      cases hm
      rfl
  | cons c rest ih =>
    by_cases hgood : ∃ d, digit c = some d ∧ n * radix + d ≤ bound
    · obtain ⟨d, hd, hle⟩ := hgood
      rw [h.step hd hle, ih hle, value, hd, Option.bind_some]
    · constructor
      · intro heq
        refine absurd heq (h.stop hn fun d hd => ?_)
        by_contra hle
        exact hgood ⟨d, hd, Nat.not_lt.mp hle⟩
      · rintro ⟨m, hm, hle, -⟩
        rw [value, Option.bind_eq_some_iff] at hm
        obtain ⟨d, hd, hrest⟩ := hm
        exact absurd ⟨d, hd, (le_of_value hradix hrest).trans hle⟩ hgood

/-- The number is negated at the end, which fails for the least one of the word. -/
theorem signed_iff (h : Accumulates f digit radix bound) (hradix : 0 < radix) (hbound : 0 < bound) {wrap : Int → Int}
    (hwrap : ∀ x : Int, -bound ≤ x → x < bound → wrap x = x) (hmost : wrap bound < 0) (e : ε) (negative : Bool) :
    (f 0 xs >>= fun result =>
      if negative then pure result
      else
        let result := wrap (-result)
        if result < 0 then .error e else pure result) = .ok v ↔
      ∃ n, value digit radix 0 xs = some n ∧ v = withSign negative n ∧ -(bound : Int) ≤ v ∧
        v < bound := by
  have hread : ∀ w, f 0 xs = .ok w ↔ _ := fun w => h.ok_iff (n := 0) (v := w) hradix (Nat.zero_le _)
  rw [Codec.except_bind_eq_ok]
  constructor
  · rintro ⟨result, hresult, hv⟩
    obtain ⟨n, hn, hle, rfl⟩ := (hread _).mp hresult
    cases negative with
    | true =>
      cases hv
      exact ⟨n, hn, rfl, by omega, by omega⟩
    | false =>
      simp only [Bool.false_eq_true, if_false, Int.neg_neg] at hv
      rcases hle.lt_or_eq with hlt | rfl
      · rw [hwrap n (by omega) (by omega), if_neg (by omega)] at hv
        cases hv
        exact ⟨n, hn, rfl, by omega, by omega⟩
      · rw [if_pos hmost] at hv
        cases hv
  · rintro ⟨n, hn, rfl, hlow, hhigh⟩
    cases negative with
    | true =>
      simp only [withSign, if_true] at hlow
      exact ⟨-(n : Int), (hread _).mpr ⟨n, hn, by omega, rfl⟩, rfl⟩
    | false =>
      simp only [withSign, Bool.false_eq_true, if_false] at hlow hhigh ⊢
      refine ⟨-(n : Int), (hread _).mpr ⟨n, hn, by omega, rfl⟩, ?_⟩
      rw [Int.neg_neg, hwrap n hlow hhigh, if_neg (by omega)]
      rfl

end Accumulates

end ActiveMQCpp.Numeral
