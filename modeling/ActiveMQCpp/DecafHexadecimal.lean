import ActiveMQCpp.DecafURIHelper

/-! `Long::toHexString` and `Long::parseLong` with radix 16. A numeral of a fixed width is the one that is padded with
zeros. -/

namespace ActiveMQCpp.Decaf

open MachineInt Numeral URIHelper Character Integer List

namespace Long

variable {k n : Nat} {radix : Int}

def toHexString (value : BitVec 64) : ByteString := Integer.hexDigits value.toNat

/-- `Long::parseLong`; `length` is the `int` the code compares with. -/
def parseLongRadix (value : ByteString) (radix : Int) : Except Failure Int :=
  if radix < 2 ∨ 36 < radix then
    .error (.thrown .numberFormatException "Long::parseLong - Given Radix is out of range.")
  else
    let length := toInt32 value.length
    match value with
    | [] => .error (.thrown .numberFormatException "Long::parseLong - Zero length string is illegal.")
    | c :: _ =>
      if length = 0 then
        .error (.thrown .numberFormatException "Long::parseLong - Zero length string is illegal.")
      else if c = 45 then
        if length = 1 then
          .error (.thrown .numberFormatException "Long::parseLong - Only a minus given, string is invalid.")
        else parse value 1 radix true
      else parse value 0 radix false

/-! ### Numerals of a fixed width -/

def hexPadded : Nat → Nat → ByteString
  | 0, _ => []
  | k + 1, n => hexPadded k (n / 16) ++ [Integer.hexDigit (n % 16)]

@[simp] theorem length_hexPadded (k n : Nat) : (hexPadded k n).length = k := by
  induction k generalizing n with
  | zero => rfl
  | succ k ih => simp [hexPadded, ih]

theorem hexPadded_add (j k n : Nat) : hexPadded (j + k) n = hexPadded j (n / 16 ^ k) ++ hexPadded k n := by
  induction k generalizing n with
  | zero => simp [hexPadded]
  | succ k ih =>
    have hdiv : n / 16 / 16 ^ k = n / 16 ^ (k + 1) := by
      rw [Nat.div_div_eq_div_mul, pow_succ']
    calc hexPadded (j + (k + 1)) n = hexPadded (j + k) (n / 16) ++ [hexDigit (n % 16)] := rfl
      _ = hexPadded j (n / 16 ^ (k + 1)) ++ hexPadded k (n / 16) ++ [hexDigit (n % 16)] := by rw [ih, hdiv]
      _ = hexPadded j (n / 16 ^ (k + 1)) ++ hexPadded (k + 1) n := by rw [append_assoc, hexPadded]

theorem hexPadded_mod (k n : Nat) : hexPadded k (n % 16 ^ k) = hexPadded k n := by
  induction k generalizing n with
  | zero => rfl
  | succ k ih =>
    have hdiv : n % 16 ^ (k + 1) / 16 = n / 16 % 16 ^ k := by
      rw [pow_succ', Nat.mod_mul_right_div_self]
    have hmod : n % 16 ^ (k + 1) % 16 = n % 16 := by
      rw [pow_succ', Nat.mod_mul_right_mod]
    rw [hexPadded, hexPadded, hdiv, hmod, ih]

theorem padded_hexDigits (hpos : 0 < k) (h : n < 16 ^ k) :
    List.replicate (k - (hexDigits n).length) 48 ++ hexDigits n = hexPadded k n := by
  induction k generalizing n with
  | zero => omega
  | succ k ih =>
    by_cases hzero : n / 16 = 0
    · have hreplicate : ∀ j, hexPadded j 0 = List.replicate j 48 := by
        intro j
        induction j with
        | zero => rfl
        | succ j hj => rw [hexPadded, Nat.zero_div, hj, replicate_succ']; rfl
      rw [hexDigits, if_pos hzero, hexPadded, hzero, hreplicate, length_singleton, Nat.add_sub_cancel]
    · have hlt : n / 16 < 16 ^ k := by
        rw [pow_succ] at h
        omega
      have hk : 0 < k := by
        cases k with
        | zero => omega
        | succ k => exact Nat.succ_pos k
      rw [hexDigits, if_neg hzero, length_append, length_singleton, Nat.add_sub_add_right, hexPadded,
        ← ih hk hlt, append_assoc]

theorem mem_hexPadded {c : UInt8} (h : c ∈ hexPadded k n) : isValidHexChar c = true := by
  have hdigit : ∀ d < 16, isValidHexChar (hexDigit d) = true := by decide
  induction k generalizing n with
  | zero => cases h
  | succ k ih =>
    rcases mem_append.mp h with hinit | hlast
    · exact ih hinit
    · rw [mem_singleton.mp hlast]
      exact hdigit _ (Nat.mod_lt _ (by omega))

/-! ### Parsing -/

theorem digit_hex_iff (c : UInt8) : digit c 16 ≠ -1 ↔ isValidHexChar c = true := by
  simp only [digit, isValidHexChar, Bool.or_eq_true, Bool.and_eq_true, decide_eq_true_eq]
  split_ifs <;> omega

theorem hexPadded_eq (k n : Nat) : hexPadded k n = lastDigits hexDigit 16 k n := by
  induction k generalizing n with
  | zero => rfl
  | succ k ih =>
    rw [hexPadded, ih, lastDigits]
    rfl

theorem parseLongRadix_hexPadded (hk : k < 15) (hn : n < 16 ^ (k + 1)) :
    parseLongRadix (hexPadded (k + 1) n) 16 = .ok n := by
  have hbound : n < 9223372036854775808 :=
    calc n < 16 ^ (k + 1) := hn
      _ ≤ 16 ^ 15 := Nat.pow_le_pow_right (by omega) (by omega)
      _ < 9223372036854775808 := by norm_num
  have hlength := length_hexPadded (k + 1) n
  have hne : hexPadded (k + 1) n ≠ [] := ne_nil_of_length_pos (by omega)
  have hvalue : unsigned 16 (hexPadded (k + 1) n) = some n := by
    rw [unsigned, number_of_ne_nil hne, hexPadded_eq,
      value_lastDigits (by omega) fun d hd => digitOf_hexDigit hd (by omega),
      Int.emod_eq_of_lt (by omega) (by exact_mod_cast hn), Int.toNat_natCast]
  exact (parseNumber_iff (e := .undefined) (readsDigits _) (by omega) ⟨16, by omega, by omega⟩).mpr
    ⟨.inl ⟨n, hvalue, rfl⟩, by omega, by omega⟩

theorem digits_of_parseDigits {result n : Int} {s : ByteString} (h : parseDigits radix result s = .ok n) :
    ∀ c ∈ s, digit c radix ≠ -1 := by
  induction s generalizing result with
  | nil => intro c hc; cases hc
  | cons c rest ih =>
    simp only [parseDigits] at h
    split_ifs at h with hdigit
    intro c' hc'
    rcases mem_cons.mp hc' with rfl | hrest
    · exact hdigit
    · exact ih h c' hrest

theorem digits_of_parse {n : Int} {value : ByteString} {offset : Nat} {negative : Bool}
    (h : parse value offset radix negative = .ok n) : ∀ c ∈ value.drop offset, digit c radix ≠ -1 := by
  rw [parse, Codec.except_bind_eq_ok] at h
  obtain ⟨result, hdigits, -⟩ := h
  exact digits_of_parseDigits hdigits

theorem digits_of_parseLongRadix {n : Int} {value : ByteString} (h : parseLongRadix value radix = .ok n) :
    ∃ c rest, value = c :: rest ∧ (c ≠ 45 → digit c radix ≠ -1) ∧
      ∀ d ∈ rest, digit d radix ≠ -1 := by
  unfold parseLongRadix at h
  cases value with
  | nil =>
    split_ifs at h
  | cons c rest =>
    dsimp only at h
    split_ifs at h with hradix hlength hminus honly
    · exact ⟨c, rest, rfl, fun hne => absurd hminus hne, digits_of_parse h⟩
    · have hall := digits_of_parse h
      exact ⟨c, rest, rfl, fun _ => hall c mem_cons_self, fun d hd => hall d (mem_cons_of_mem _ hd)⟩

end Long

end ActiveMQCpp.Decaf
