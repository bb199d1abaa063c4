import Mathlib.Data.Nat.Bitwise
import Mathlib.Tactic.Linarith
import Mathlib.Tactic.Ring

/-! Counting the bits of a word in parallel. A step adds the two halves of every field of a word at once, so that
the fields keep their sum while they double in width and halve in number. -/

namespace ActiveMQCpp.Popcount

/-- The number of bits among the lowest `n`. -/
def count : Nat → Nat → Nat
  | 0, _ => 0
  | n + 1, x => x % 2 + count n (x / 2)

/-- The `n` fields of `s` bits added up. -/
def total (s : Nat) : Nat → Nat → Nat
  | 0, _ => 0
  | n + 1, x => x % 2 ^ s + total s n (x / 2 ^ s)

/-- The lower half of each of `n` fields of `2 * s` bits. -/
def lowers (s : Nat) : Nat → Nat
  | 0 => 0
  | n + 1 => 2 ^ s - 1 + 2 ^ (2 * s) * lowers s n

/-- The two halves of each of `n` fields of `2 * s` bits added. -/
def merged (s n x : Nat) : Nat := (x &&& lowers s n) + (x / 2 ^ s &&& lowers s n)

theorem and_fields (hc : c < 2 ^ k) (x z : Nat) : x &&& (c + 2 ^ k * z) = (x &&& c) + 2 ^ k * (x / 2 ^ k &&& z) := by
  have hlow : x &&& c < 2 ^ k := Nat.and_lt_two_pow _ hc
  apply Nat.eq_of_testBit_eq
  intro i
  rw [Nat.add_comm c, Nat.add_comm (x &&& c), Nat.testBit_and, Nat.testBit_two_pow_mul_add _ hc,
    Nat.testBit_two_pow_mul_add _ hlow]
  split
  · rw [Nat.testBit_and]
  · rw [Nat.testBit_and, Nat.testBit_div_two_pow, Nat.sub_add_cancel (by omega)]

theorem merged_succ (s n x : Nat) : merged s (n + 1) x =
    x % 2 ^ s + x / 2 ^ s % 2 ^ s + 2 ^ (2 * s) * merged s n (x / 2 ^ (2 * s)) := by
  have hlow : 2 ^ s - 1 < 2 ^ (2 * s) :=
    lt_of_lt_of_le (Nat.sub_lt (Nat.two_pow_pos s) one_pos) (Nat.pow_le_pow_right two_pos (by omega))
  rw [merged, lowers, and_fields hlow, and_fields hlow, Nat.and_two_pow_sub_one_eq_mod,
    Nat.and_two_pow_sub_one_eq_mod, Nat.div_div_eq_div_mul, Nat.mul_comm (2 ^ s), ← Nat.div_div_eq_div_mul, merged]
  ring

theorem total_succ {low : Nat} (hlow : low < 2 ^ k) (n y : Nat) :
    total k (n + 1) (low + 2 ^ k * y) = low + total k n y := by
  rw [total, Nat.add_mul_mod_self_left, Nat.mod_eq_of_lt hlow, Nat.add_mul_div_left _ _ (Nat.two_pow_pos k),
    Nat.div_eq_of_lt hlow, Nat.zero_add]

theorem total_two (s n x : Nat) :
    total s (2 * (n + 1)) x = x % 2 ^ s + x / 2 ^ s % 2 ^ s + total s (2 * n) (x / 2 ^ (2 * s)) := by
  rw [Nat.mul_succ, total, total, Nat.div_div_eq_div_mul, ← pow_add, ← two_mul, Nat.add_assoc]

theorem total_merged (s n : Nat) : ∀ x, total (2 * s) n (merged s n x) = total s (2 * n) x := by
  induction n with
  | zero =>
    intro x
    rfl
  | succ n ih =>
    intro x
    have hfst := Nat.mod_lt x (Nat.two_pow_pos s)
    have hsnd := Nat.mod_lt (x / 2 ^ s) (Nat.two_pow_pos s)
    rw [merged_succ, total_succ (by rw [two_mul, pow_add]; nlinarith), ih, total_two]

/-- Two words of sums can be added without a carry when the fields have room for four. -/
theorem total_merged_add {s : Nat} (hs : 2 ≤ s) (n : Nat) :
    ∀ x y, total (2 * s) n (merged s n x + merged s n y) = total s (2 * n) x + total s (2 * n) y := by
  induction n with
  | zero =>
    intro x y
    rfl
  | succ n ih =>
    intro x y
    have hfour : 2 ^ 2 ≤ 2 ^ s := Nat.pow_le_pow_right two_pos hs
    have hx := Nat.mod_lt x (Nat.two_pow_pos s)
    have hx' := Nat.mod_lt (x / 2 ^ s) (Nat.two_pow_pos s)
    have hy := Nat.mod_lt y (Nat.two_pow_pos s)
    have hy' := Nat.mod_lt (y / 2 ^ s) (Nat.two_pow_pos s)
    rw [merged_succ, merged_succ, add_add_add_comm, ← mul_add, total_succ (by rw [two_mul s, pow_add]; nlinarith), ih,
      total_two, total_two]
    ring

theorem total_add (s m n : Nat) : ∀ x, total s (m + n) x = total s m x + total s n (x / 2 ^ (s * m)) := by
  induction m with
  | zero => simp [total]
  | succ m ih =>
    intro x
    rw [Nat.succ_add, total, total, ih, Nat.div_div_eq_div_mul, ← pow_add, Nat.mul_succ, Nat.add_comm s, Nat.add_assoc]

theorem count_eq_total (n : Nat) : ∀ x, count n x = total 1 n x := by
  induction n with
  | zero =>
    intro x
    rfl
  | succ n ih =>
    intro x
    rw [count, total, ih, pow_one]

theorem count_le (n : Nat) : ∀ x, count n x ≤ n := by
  induction n with
  | zero =>
    intro x
    exact le_refl 0
  | succ n ih =>
    intro x
    have hrest := ih (x / 2)
    rw [count]
    omega

theorem count_add (m n : Nat) : ∀ x, count (m + n) x = count m (x % 2 ^ m) + count n (x / 2 ^ m) := by
  induction m with
  | zero =>
    intro x
    rw [Nat.zero_add, Nat.pow_zero, Nat.div_one, count, Nat.zero_add]
  | succ m ih =>
    intro x
    have hmod : x % 2 ^ (m + 1) % 2 = x % 2 := Nat.mod_mod_of_dvd x (Dvd.intro_left (2 ^ m) rfl)
    have hdiv : x % 2 ^ (m + 1) / 2 = x / 2 % 2 ^ m := by
      rw [Nat.pow_succ', Nat.mod_mul_right_div_self]
    have hpow : x / 2 / 2 ^ m = x / 2 ^ (m + 1) := by rw [Nat.div_div_eq_div_mul, Nat.pow_succ']
    rw [Nat.succ_add, count, count, hmod, hdiv, ih, hpow, Nat.add_assoc]

theorem count_eq_sum_testBit (n : Nat) : ∀ x, count n x = ((List.range n).map fun i => (x.testBit i).toNat).sum := by
  induction n with
  | zero =>
    intro x
    rfl
  | succ n ih =>
    intro x
    rw [count, ih, List.range_succ_eq_map, List.map_cons, List.sum_cons, List.map_map]
    have hbit : x % 2 = (x.testBit 0).toNat := by
      rw [Nat.testBit_zero]
      rcases Nat.mod_two_eq_zero_or_one x with hmod | hmod
      · simp [hmod]
      · simp [hmod]
    have hrest : (fun i => ((x / 2).testBit i).toNat) = (fun i => (x.testBit i).toNat) ∘ Nat.succ := by
      funext i
      rw [Function.comp_apply, Nat.testBit_succ]
    rw [hbit, hrest]

/-! ### The shorter steps -/

/-- The fields of two bits, with one mask. -/
theorem sub_lowers (n : Nat) : ∀ x < 4 ^ n, x - (x / 2 &&& lowers 1 n) = merged 1 n x := by
  have hsplit : ∀ n, ∀ x < 4 ^ n, x = (x &&& lowers 1 n) + 2 * (x / 2 &&& lowers 1 n) := by
    intro n
    induction n with
    | zero =>
      intro x hx
      have hzero : x = 0 := by omega
      rw [hzero]
      rfl
    | succ n ih =>
      intro x hx
      have hrest := ih (x / 4) (by rw [pow_succ] at hx; omega)
      have hx1 := and_fields (k := 2) (c := 1) (by decide) x (lowers 1 n)
      have hx2 := and_fields (k := 2) (c := 1) (by decide) (x / 2) (lowers 1 n)
      have hmask : lowers 1 (n + 1) = 1 + 4 * lowers 1 n := rfl
      simp only [Nat.reducePow, Nat.and_one_is_mod] at hx1 hx2
      rw [hmask, hx1, hx2, show x / 2 / 4 = x / 4 / 2 by omega]
      omega
  intro x hx
  have h := hsplit n x hx
  rw [merged, pow_one]
  omega

theorem merged_mod (n x : Nat) : merged 2 n x % 16 ≤ 6 := by
  cases n with
  | zero => simp [merged, lowers]
  | succ n =>
    rw [merged_succ]
    omega

/-- The fields of eight bits, with one mask: the sums of four bits leave no carry. -/
theorem and_lowers (n : Nat) : ∀ x, (merged 2 (2 * n) x / 16 + merged 2 (2 * n) x) &&& lowers 4 n
    = merged 4 n (merged 2 (2 * n) x) := by
  induction n with
  | zero =>
    intro x
    simp [merged, lowers]
  | succ n ih =>
    intro x
    have hrest := ih (x / 256)
    have hlow := merged_mod (2 * n) (x / 256)
    have hfield : merged 2 (2 * (n + 1)) x = x % 4 + x / 4 % 4 + 16 * (x / 16 % 4 + x / 64 % 4)
        + 256 * merged 2 (2 * n) (x / 256) := by
      rw [Nat.mul_succ, merged_succ, merged_succ, Nat.div_div_eq_div_mul, Nat.div_div_eq_div_mul]
      ring_nf
    have ha : x % 4 + x / 4 % 4 ≤ 6 := by omega
    have hb : x / 16 % 4 + x / 64 % 4 ≤ 6 := by omega
    rw [hfield, merged_succ, show lowers 4 (n + 1) = 15 + 2 ^ 8 * lowers 4 n from rfl, and_fields (by decide),
      show (15 : Nat) = 2 ^ 4 - 1 from rfl, Nat.and_two_pow_sub_one_eq_mod]
    generalize x % 4 + x / 4 % 4 = a at ha ⊢
    generalize x / 16 % 4 + x / 64 % 4 = b at hb ⊢
    generalize merged 2 (2 * n) (x / 256) = u at hlow hrest ⊢
    have hnext : ((a + 16 * b + 256 * u) / 16 + (a + 16 * b + 256 * u)) / 256 = u / 16 + u := by omega
    have hrest' : (a + 16 * b + 256 * u) / 256 = u := by omega
    have hhigh : (a + 16 * b + 256 * u) / 16 = b + 16 * u := by omega
    have hsum : (b + 16 * u + (a + 16 * b + 256 * u)) % 16 = a + b := by omega
    simp only [Nat.reducePow, Nat.reduceMul]
    rw [hnext, hrest, hrest', hhigh, hsum, show (a + 16 * b + 256 * u) % 16 = a by omega, show (b + 16 * u) % 16 = b by omega]

/-- The bytes of a word added into the lowest one. -/
theorem fold_total {x : Nat} (hx : x < 2 ^ 32) (hsmall : total 8 4 x < 64) :
    (x + x / 256 + (x + x / 256) / 65536) % 64 = total 8 4 x := by
  simp only [total, Nat.reducePow, Nat.div_div_eq_div_mul, Nat.reduceMul, Nat.add_zero] at hsmall ⊢
  have hhigh : x / 16777216 % 256 = x / 16777216 := by omega
  have hbytes : x = x % 256 + 256 * (x / 256 % 256) + 65536 * (x / 65536 % 256) + 16777216 * (x / 16777216) := by omega
  rw [hhigh] at hsmall ⊢
  generalize x % 256 = a at *
  generalize x / 256 % 256 = b at *
  generalize x / 65536 % 256 = c at *
  generalize x / 16777216 = d at *
  have hsecond : x / 256 = b + 256 * c + 65536 * d := by omega
  have hthird : (x + x / 256) / 65536 = c + d + 256 * d := by omega
  rw [hthird, hsecond]
  omega

end ActiveMQCpp.Popcount
