import ActiveMQCpp.DecafDataStream
import ActiveMQCpp.LibNumeral

/-! Decimal numerals as `decaf::lang` writes and parses them. `Integer::parse` builds the number as a
negative one, because the negative range of a machine integer is the larger. -/

namespace ActiveMQCpp.Decaf

open MachineInt Numeral List

variable {n : Nat}

/-- The bytes of an ASCII literal. -/
def ascii (s : String) : ByteString := s.toList.map fun c => UInt8.ofNat c.toNat

/-- `Character::digit` for a radix in the supported range; a `char` above 127 is negative. -/
def Character.digit (c : UInt8) (radix : Int) : Int :=
  let result : Int :=
    if 48 ≤ c.toNat ∧ c.toNat ≤ 57 then c.toNat - 48
    else if 97 ≤ c.toNat ∧ c.toNat ≤ 122 then c.toNat - 87
    else if 65 ≤ c.toNat ∧ c.toNat ≤ 90 then c.toNat - 55
    else -1
  if result < radix then result else -1

def Character.isWhitespace (c : UInt8) : Bool :=
  c == 10 || c == 9 || c == 13 || c == 12 || c == 32

namespace Long

/-- The digits of a number, the last of them by each turn of the loop of `Long::toString`. -/
def digits (n : Nat) : ByteString :=
  if n / 10 = 0 then [UInt8.ofNat (48 + n % 10)]
  else digits (n / 10) ++ [UInt8.ofNat (48 + n % 10)]
termination_by n
decreasing_by omega

def toString (value : Int) : ByteString :=
  if value < 0 then 45 :: digits value.natAbs else digits value.natAbs

end Long

namespace Integer

/-- `Integer::toString` with radix 10, the loop of `Long::toString` on an `int`. -/
def toString (value : Int) : ByteString := Long.toString value

def hexDigit (t : Nat) : UInt8 := UInt8.ofNat (if t > 9 then t - 10 + 97 else t + 48)

def hexDigits (n : Nat) : ByteString :=
  if n / 16 = 0 then [hexDigit (n % 16)] else hexDigits (n / 16) ++ [hexDigit (n % 16)]
termination_by n
decreasing_by omega

def toHexString (value : Int) : ByteString := hexDigits (value % 4294967296).toNat

def invalidNumber : Failure := .thrown .numberFormatException "Integer::parse - number string is invalid: "

/-- The loop of `Integer::parse` over the characters from `offset` on. -/
def parseDigits (radix : Int) : Int → List UInt8 → Except Failure Int
  | result, [] => .ok result
  | result, c :: rest =>
    let digit := Character.digit c radix
    if digit = -1 then .error invalidNumber
    else if (-2147483648 : Int).tdiv radix > result then .error invalidNumber
    else
      let next := toInt32 (result * radix - digit)
      if next > result then .error invalidNumber
      else parseDigits radix next rest

def parse (value : ByteString) (offset : Nat) (radix : Int) (negative : Bool) : Except Failure Int := do
  let result ← parseDigits radix 0 ((value.take (toInt32 value.length).toNat).drop offset)
  if negative then pure result
  else
    let result := toInt32 (-result)
    if result < 0 then .error invalidNumber else pure result

/-- `Integer::parseInt` with radix 10; `length` is the `int` the code compares with. -/
def parseInt (value : ByteString) : Except Failure Int :=
  let length := toInt32 value.length
  match value with
  | [] => .error (.thrown .numberFormatException "Integer:decode - Invalid: zero length string")
  | c :: _ =>
    if length = 0 then
      .error (.thrown .numberFormatException "Integer:decode - Invalid: zero length string")
    else if c = 45 then
      if length = 1 then
        .error (.thrown .numberFormatException "Integer:decode - Invalid only a minus sign given")
      else parse value 1 10 true
    else parse value 0 10 false

end Integer

/-- `Byte::parseByte` with radix 10. -/
def Byte.parseByte (s : ByteString) : Except Failure UInt8 := do
  let intValue ← Integer.parseInt s
  let result := UInt8.ofNat (intValue % 256).toNat
  if (result.toNat : Int) ≠ intValue then
    .error (.thrown .numberFormatException "Byte::parseByte - Not a valid unsigned char encoded string.")
  else pure result

/-- `Short::parseShort` with radix 10. -/
def Short.parseShort (s : ByteString) : Except Failure (BitVec 16) := do
  let intValue ← Integer.parseInt s
  let result := BitVec.ofInt 16 intValue
  if result.toInt ≠ intValue then
    .error (.thrown .numberFormatException "Short::parseShort - Not a valid short encoded string.")
  else pure result

namespace Long

/-- The loop of `Long::parse` over the characters from `offset` on. -/
def parseDigits (radix : Int) : Int → List UInt8 → Except Failure Int
  | result, [] => .ok result
  | result, c :: rest =>
    let digit := Character.digit c radix
    if digit = -1 then
      .error (.thrown .numberFormatException "Long::parseLong - String contains no digit characters.")
    else if (-9223372036854775808 : Int).tdiv radix > result then
      .error (.thrown .numberFormatException "Long::parseLong - Parsed value greater than max for radix.")
    else
      let next := toInt64 (result * radix - digit)
      if next > result then
        .error (.thrown .numberFormatException "Long::parseLong - Only a minus given, string is invalid.")
      else parseDigits radix next rest

def parse (value : ByteString) (offset : Nat) (radix : Int) (negative : Bool) : Except Failure Int := do
  let result ← parseDigits radix 0 (value.drop offset)
  if negative then pure result
  else
    let result := toInt64 (-result)
    if result < 0 then
      .error (.thrown .numberFormatException "Long::parseLong - Value less than zero, but no minus sign.")
    else pure result

/-- `Long::parseLong` with radix 10; `length` is the `int` the code compares with. -/
def parseLong (value : ByteString) : Except Failure Int :=
  let length := toInt32 value.length
  match value with
  | [] => .error (.thrown .numberFormatException "Long::parseLong - Zero length string is illegal.")
  | c :: _ =>
    if length = 0 then
      .error (.thrown .numberFormatException "Long::parseLong - Zero length string is illegal.")
    else if c = 45 then
      if length = 1 then
        .error (.thrown .numberFormatException "Long::parseLong - Only a minus given, string is invalid.")
      else parse value 1 10 true
    else parse value 0 10 false

end Long

theorem Long.digits_eq (n : Nat) :
    Long.digits n = (if n / 10 = 0 then [] else Long.digits (n / 10)) ++ [UInt8.ofNat (48 + n % 10)] := by
  rw [Long.digits]
  split_ifs <;> rfl

theorem Long.digits_ne_nil (n : Nat) : Long.digits n ≠ [] := by
  rw [Long.digits_eq]
  exact concat_ne_nil _ _

theorem Long.length_digits_le (n : Nat) : (Long.digits n).length ≤ n / 10 + 1 := by
  induction n using Nat.strong_induction_on with
  | _ n ih =>
    rw [Long.digits]
    split_ifs with hzero
    · rw [length_singleton]
      omega
    · have hinit := ih (n / 10) (by omega)
      rw [length_append, length_singleton]
      omega

theorem Long.mem_digits {c : UInt8} (h : c ∈ Long.digits n) : 48 ≤ c.toNat ∧ c.toNat ≤ 57 := by
  induction n using Nat.strong_induction_on with
  | _ n ih =>
    rw [Long.digits_eq, mem_append] at h
    rcases h with hinit | hlast
    · split_ifs at hinit with hzero
      · cases hinit
      · exact ih (n / 10) (by omega) hinit
    · rw [mem_singleton.mp hlast, UInt8.toNat_ofNat']
      omega

theorem Long.digits_eq_allDigits (n : Nat) : Long.digits n = allDigits (fun d => UInt8.ofNat (48 + d)) 10 n := by
  induction n using Nat.strong_induction_on with
  | _ n ih =>
    rw [Long.digits]
    split_ifs with hzero
    · rw [allDigits_of_lt (by omega), Nat.mod_eq_of_lt (by omega)]
    · rw [ih (n / 10) (by omega), ← allDigits_of_le (n := n) (by omega) (by omega)]

theorem Long.length_digits_le_of_lt {k : Nat} (h : n < 10 ^ (k + 1)) : (Long.digits n).length ≤ k + 1 := by
  rw [Long.digits_eq_allDigits, allDigits, length_lastDigits]
  by_cases hzero : n = 0
  · rw [hzero, Nat.log_zero_right]
    omega
  · exact Nat.log_lt_of_lt_pow hzero h

theorem Long.length_toString_le {i : Int} {k : Nat} (h : i.natAbs < 10 ^ (k + 1)) : (Long.toString i).length ≤ k + 2 := by
  have hdigits := Long.length_digits_le_of_lt h
  rw [Long.toString]
  split_ifs
  · rw [length_cons]
    omega
  · omega

theorem Long.digits_head {c : UInt8} {rest : ByteString} (h : Long.digits n = c :: rest) : c ≠ 45 := by
  rintro rfl
  have hc := Long.mem_digits (show (45 : UInt8) ∈ Long.digits n by rw [h]; exact mem_cons_self)
  exact absurd hc.1 (by decide)

open Character

variable {radix offset bound : Nat} {v : Int} {text rest : ByteString}

/-- What `Character::MIN_RADIX` and `Character::MAX_RADIX` allow. -/
structure Radix where
  val : Nat
  two_le : 2 ≤ val
  le_36 : val ≤ 36

/-- `Character::digit` where it is not -1. -/
def Character.digitOf (radix : Nat) (c : UInt8) : Option Nat :=
  if digit c radix = -1 then none else some (digit c radix).toNat

/-- The digits of a radix, at least one. -/
def unsigned (radix : Nat) : ByteString → Option Nat := number (digitOf radix) radix

/-- The values of a word. -/
def InWord (bound : Nat) (v : Int) : Prop := -(bound : Int) ≤ v ∧ v < bound

/-- What `parseInt` and `parseLong` do before they parse the digits. -/
def parseNumber (invalidRadix empty minusOnly : Failure) (parse : ByteString → Nat → Int → Bool → Except Failure Int)
    (value : ByteString) (radix : Int) : Except Failure Int :=
  if radix < 2 ∨ 36 < radix then .error invalidRadix
  else
    let length := toInt32 value.length
    match value with
    | [] => .error empty
    | c :: _ =>
      if length = 0 then .error empty
      else if c = 45 then
        if length = 1 then .error minusOnly else parse value 1 radix true
      else parse value 0 radix false

/-! ### Digits -/

section Digits

variable {c : UInt8} {d : Nat}

theorem digitOf_hexDigit (hd : d < radix) (hradix : radix ≤ 36) : digitOf radix (Integer.hexDigit d) = some d := by
  have hnat : (Integer.hexDigit d).toNat = if d > 9 then d - 10 + 97 else d + 48 := by
    rw [Integer.hexDigit, UInt8.toNat_ofNat']
    split_ifs <;> omega
  have hdigit : digit (Integer.hexDigit d) radix = d := by
    simp only [digit, hnat]
    split_ifs <;> omega
  rw [digitOf, hdigit, if_neg (by omega), Int.toNat_natCast]

theorem digit_of_some (h : digitOf radix c = some d) : digit c radix = d ∧ d < radix := by
  have hrange : digit c radix = -1 ∨ 0 ≤ digit c radix ∧ digit c radix < radix := by
    simp only [digit]
    split_ifs <;> omega
  rw [digitOf] at h
  split_ifs at h with hnone
  cases h
  omega

theorem digit_of_none (h : digitOf radix c = none) : digit c radix = -1 := by
  by_contra hne
  rw [digitOf, if_neg hne] at h
  cases h

theorem digitOf_minus : digitOf radix 45 = none := by
  rw [digitOf, if_pos]
  simp [digit]

end Digits

/-! ### What is parsed -/

/-- A function that parses the digits of a text from an offset on, within a word. -/
def ReadsDigits (bound : Nat) (parse : ByteString → Nat → Int → Bool → Except Failure Int) (text : ByteString) : Prop :=
  ∀ (r : Radix) offset negative v, parse text offset r.val negative = .ok v ↔
    ∃ n, value (digitOf r.val) r.val 0 (text.drop offset) = some n ∧ v = withSign negative n ∧
      InWord bound v

/-- A conversion to a word that keeps what is in the word and wraps around once below it. -/
structure Wraps (wrap : Int → Int) (bound : Nat) : Prop where
  large : 36 < bound
  keeps : ∀ x : Int, -bound ≤ x → x < bound → wrap x = x
  below : ∀ x : Int, -(2 * bound) < x → x < -bound → 0 < wrap x
  most : wrap bound < 0

theorem wraps_toInt32 : Wraps toInt32 2147483648 where
  large := by norm_num
  keeps x hlow hhigh := toInt32_of_range hlow hhigh
  below x hlow hhigh := by
    unfold toInt32
    push_cast at hlow hhigh
    omega
  most := by decide

theorem wraps_toInt64 : Wraps toInt64 9223372036854775808 where
  large := by norm_num
  keeps x hlow hhigh := toInt64_of_range hlow hhigh
  below x hlow hhigh := by
    unfold toInt64
    push_cast at hlow hhigh
    omega
  most := by decide

section Wraps

variable {wrap : Int → Int} {d : Nat}

theorem next_iff (hw : Wraps wrap bound) (r : Radix) (hn : n ≤ bound) (hd : d < r.val) :
    (¬(-(bound : Int)).tdiv r.val > -(n : Int) ∧ ¬wrap (-(n : Int) * r.val - d) > -(n : Int)) ↔
      n * r.val + d ≤ bound := by
  have h2 := r.two_le
  have h36 := r.le_36
  have hlarge := hw.large
  have hmax : (-(bound : Int)).tdiv r.val > -(n : Int) ↔ bound < n * r.val := by
    rw [Int.neg_tdiv, ← Int.ofNat_tdiv, gt_iff_lt, neg_lt_neg_iff, Nat.cast_lt, Nat.div_lt_iff_lt_mul (by omega)]
  have hnext : -(n : Int) * r.val - d = -((n * r.val + d : Nat) : Int) := by
    push_cast
    ring
  have hle : n ≤ n * r.val + d := (Nat.le_mul_of_pos_right n (by omega)).trans (Nat.le_add_right _ d)
  rw [hmax, hnext]
  constructor
  · rintro ⟨hfirst, hsecond⟩
    by_contra hover
    have hpos := hw.below (-((n * r.val + d : Nat) : Int)) (by omega) (by omega)
    omega
  · intro hsum
    rw [hw.keeps _ (by omega) (by omega)]
    omega

theorem accumulates {f : Int → List UInt8 → Except Failure Int} {e e' e'' : Failure} (hw : Wraps wrap bound) (r : Radix)
    (hnil : ∀ result, f result [] = .ok result)
    (hcons : ∀ result c rest, f result (c :: rest) =
      if digit c r.val = -1 then .error e
      else if (-(bound : Int)).tdiv r.val > result then .error e'
      else if wrap (result * r.val - digit c r.val) > result then .error e''
      else f (wrap (result * r.val - digit c r.val)) rest) :
    Accumulates f (digitOf r.val) r.val bound where
  nil := hnil
  step {n d c rest} hd hle := by
    obtain ⟨hdigit, hlt⟩ := digit_of_some hd
    have hn : n ≤ n * r.val + d :=
      (Nat.le_mul_of_pos_right n (by have := r.two_le; omega)).trans (Nat.le_add_right _ d)
    obtain ⟨hfirst, hsecond⟩ := (next_iff hw r (hn.trans hle) hlt).mpr hle
    have hnext : wrap (-(n : Int) * r.val - d) = -((n * r.val + d : Nat) : Int) := by
      rw [hw.keeps _ (by linarith) (by linarith [hw.large])]
      push_cast
      ring
    rw [hcons, hdigit, if_neg (by omega), if_neg hfirst, if_neg hsecond, hnext]
  stop {n c rest v} hn hstop heq := by
    rw [hcons] at heq
    split_ifs at heq with hnone hfirst hsecond
    cases hdigit : digitOf r.val c with
    | none => exact hnone (digit_of_none hdigit)
    | some d =>
      obtain ⟨hvalue, hlt⟩ := digit_of_some hdigit
      rw [hvalue] at hsecond
      exact absurd ((next_iff hw r hn hlt).mp ⟨hfirst, hsecond⟩) (Nat.not_le.mpr (hstop d hdigit))

end Wraps

theorem Integer.readsDigits (h : text.length < 2147483648) : ReadsDigits 2147483648 Integer.parse text := by
  intro r offset negative v
  have hlength : toInt32 text.length = text.length := toInt32_of_range (by omega) (by omega)
  have hloop := accumulates wraps_toInt32 r (fun _ => rfl) (fun result c rest => by rw [parseDigits]; rfl) (f := parseDigits r.val)
  rw [Integer.parse, hlength, Int.toNat_natCast, take_length]
  exact hloop.signed_iff (by have := r.two_le; omega) (by norm_num) wraps_toInt32.keeps wraps_toInt32.most _ negative

theorem Long.readsDigits (text : ByteString) : ReadsDigits 9223372036854775808 Long.parse text := by
  intro r offset negative v
  have hloop := accumulates wraps_toInt64 r (fun _ => rfl) (fun result c rest => by rw [parseDigits]; rfl) (f := parseDigits r.val)
  rw [Long.parse]
  exact hloop.signed_iff (by have := r.two_le; omega) (by norm_num) wraps_toInt64.keeps wraps_toInt64.most _ negative

section Numbers

variable {parse : ByteString → Nat → Int → Bool → Except Failure Int} {e e' e'' : Failure}

theorem unsigned_minus (radix : Nat) (rest : ByteString) : unsigned radix (45 :: rest) = none := by
  rw [unsigned, number, Numeral.value, digitOf_minus, Option.bind_none]

/-- A text with a minus sign is the number behind it, and one without is a number as a whole. -/
theorem signed_cons_iff {reading : ByteString → Option Nat} (hminus : ∀ rest, reading (45 :: rest) = none) (c : UInt8) :
    Signed 45 reading (c :: rest) v ↔
      if c = 45 then ∃ n, reading rest = some n ∧ v = -(n : Int) else ∃ n, reading (c :: rest) = some n ∧ v = n := by
  split_ifs with hc
  · subst hc
    constructor
    · rintro (⟨n, hn, -⟩ | ⟨rest', n, heq, hn, hv⟩)
      · rw [hminus] at hn
        cases hn
      · cases heq
        exact ⟨n, hn, hv⟩
    · rintro ⟨n, hn, hv⟩
      exact .inr ⟨rest, n, rfl, hn, hv⟩
  · constructor
    · rintro (h | ⟨rest', n, heq, -⟩)
      · exact h
      · cases heq
        exact absurd rfl hc
    · exact .inl

theorem not_signed_nil {reading : ByteString → Option Nat} (hnil : reading [] = none) : ¬Signed 45 reading [] v := by
  rintro (⟨n, hn, -⟩ | ⟨rest, n, heq, -⟩)
  · rw [hnil] at hn
    cases hn
  · cases heq

theorem parseNumber_iff (h : ReadsDigits bound parse text) (hlength : text.length < 2147483648) (r : Radix) :
    parseNumber e e' e'' parse text r.val = .ok v ↔ Signed 45 (unsigned r.val) text v ∧ InWord bound v := by
  have hradix : ¬((r.val : Int) < 2 ∨ 36 < (r.val : Int)) := by
    have := r.two_le
    have := r.le_36
    omega
  rw [parseNumber, if_neg hradix, toInt32_of_range (by omega) (by omega)]
  cases text with
  | nil => exact iff_of_false nofun fun hsigned => not_signed_nil rfl hsigned.1
  | cons c rest =>
    rw [signed_cons_iff (unsigned_minus r.val)]
    simp only [length_cons]
    rw [if_neg (by omega)]
    split_ifs with hminus honly
    · obtain rfl : rest = [] := length_eq_zero_iff.mp (by omega)
      exact iff_of_false nofun fun ⟨⟨n, hn, _⟩, _⟩ => by cases hn
    · have hne : rest ≠ [] := by
        rintro rfl
        exact honly rfl
      rw [h r 1 true v, drop_one, tail_cons, unsigned, number_of_ne_nil hne]
      simp only [withSign, if_true, ← and_assoc, exists_and_right]
    · rw [h r 0 false v, drop_zero, unsigned, number_of_ne_nil (by simp)]
      simp only [withSign, Bool.false_eq_true, if_false, ← and_assoc, exists_and_right]

end Numbers

theorem Long.signed_toString (i : Int) : Signed 45 (unsigned 10) (Long.toString i) i := by
  have hdigits : unsigned 10 (Long.digits i.natAbs) = some i.natAbs := by
    have hdigit : ∀ d < 10, digitOf 10 (UInt8.ofNat (48 + d)) = some d := by decide
    rw [unsigned, number_of_ne_nil (Long.digits_ne_nil _), Long.digits_eq_allDigits, value_allDigits (by omega) hdigit]
  by_cases h : i < 0
  · exact .inr ⟨_, i.natAbs, by rw [Long.toString, if_pos h], hdigits, by omega⟩
  · exact .inl ⟨i.natAbs, by rw [Long.toString, if_neg h, hdigits], by omega⟩

namespace Integer

theorem parseInt_toString_int {i : Int} (hlow : -2147483648 ≤ i) (hhigh : i < 2147483648) :
    parseInt (Long.toString i) = .ok i := by
  have hlength := Long.length_toString_le (i := i) (k := 9) (by omega)
  have hsmall : (Long.toString i).length < 2147483648 := by omega
  exact (parseNumber_iff (e := .undefined) (readsDigits hsmall) hsmall ⟨10, by omega, by omega⟩).mpr
    ⟨Long.signed_toString i, hlow, hhigh⟩

theorem parseInt_toString (h : n < 2147483648) : parseInt (Long.toString n) = .ok n :=
  parseInt_toString_int (by omega) (by omega)

theorem parseDigits_range {radix result n : Int} {s : List UInt8} (hresult : -2147483648 ≤ result ∧ result < 2147483648)
    (h : parseDigits radix result s = .ok n) : -2147483648 ≤ n ∧ n < 2147483648 := by
  induction s generalizing result with
  | nil =>
    cases h
    exact hresult
  | cons c rest ih =>
    simp only [parseDigits] at h
    split_ifs at h
    exact ih (toInt32_range _) h

theorem parse_range {value : ByteString} {offset : Nat} {radix n : Int} {negative : Bool}
    (h : parse value offset radix negative = .ok n) : -2147483648 ≤ n ∧ n < 2147483648 := by
  rw [parse, Codec.except_bind_eq_ok] at h
  obtain ⟨result, hdigits, hresult⟩ := h
  have hrange := parseDigits_range (by omega) hdigits
  split_ifs at hresult
  · cases hresult
    exact hrange
  · dsimp only at hresult
    split_ifs at hresult
    cases hresult
    exact toInt32_range _

theorem parseInt_range {value : ByteString} {n : Int} (h : parseInt value = .ok n) :
    -2147483648 ≤ n ∧ n < 2147483648 := by
  unfold parseInt at h
  cases value with
  | nil => cases h
  | cons c rest =>
    dsimp only at h
    split_ifs at h
    · exact parse_range h
    · exact parse_range h

end Integer

namespace Long

theorem parseLong_toString {i : Int} (hlow : -9223372036854775808 ≤ i) (hhigh : i < 9223372036854775808) :
    parseLong (toString i) = .ok i := by
  have hlength := length_toString_le (i := i) (k := 18) (by omega)
  exact (parseNumber_iff (e := .undefined) (readsDigits _) (by omega) ⟨10, by omega, by omega⟩).mpr
    ⟨signed_toString i, hlow, hhigh⟩

end Long

end ActiveMQCpp.Decaf
