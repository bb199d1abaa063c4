import ActiveMQCpp.DecafHexadecimal

/-! Numbers as text in `decaf::lang::Integer` and `decaf::lang::Long`, for every radix. The two classes do the same on
words of two sizes. -/

namespace ActiveMQCpp.Decaf

open MachineInt Numeral Character List

/-- A value of `decaf::lang::String`, whose length is an `int`. -/
structure Lang.String where
  content : ByteString
  length_lt : content.length < 2147483648

variable {radix n offset bound : Nat} {v : Int} {text rest : ByteString}

/-! ### Printing -/

namespace Long

/-- The loop of `Long::toString` over the negative `j`, which fills the buffer from its end. -/
def fill (radix : Int) : Nat → Int → ByteString → Except Failure ByteString
  | 0, _, _ => .error .undefined
  | count + 1, j, written =>
    let written := Integer.hexDigit (0 - j.tmod radix).toNat :: written
    if j.tdiv radix ≠ 0 then fill radix count (j.tdiv radix) written
    else .ok (replicate count 0 ++ written)

/-- `Long::toString`; `Nat.log` counts the turns of `while ((value /= radix) != 0)`. -/
def toStringRadix (value radix : Int) : Except Failure ByteString := do
  let radix := if radix < 2 ∨ radix > 36 then 10 else radix
  if value = 0 then pure [48]
  else
    let negative := value < 0
    let count := (if negative then 2 else 1) + Nat.log radix.toNat value.natAbs
    let buffer ← fill radix count (if negative then value else -value) []
    pure (if negative then buffer.set 0 45 else buffer)

end Long

def Integer.toStringRadix (value radix : Int) : Except Failure ByteString := Long.toStringRadix value radix

/-- The loops that print the bits in groups: a negative value has all the digits of the word, and each turn takes the
last digit of what is `shifted`. -/
def printBits (radix width : Nat) (value shifted : Int) : ByteString :=
  lastDigits Integer.hexDigit radix (if value < 0 then width else 1 + Nat.log radix value.toNat) shifted

def Integer.toBinaryString (value : Int) : ByteString := printBits 2 32 value value

/-- `Integer::toOctalString`, which shifts an unsigned copy. -/
def Integer.toOctalString (value : Int) : ByteString := printBits 8 11 value (toUInt32 value)

def Long.toBinaryString (value : Int) : ByteString := printBits 2 64 value value

def Long.toOctalString (value : Int) : ByteString := printBits 8 22 value (toUInt64 value)

/-! ### Reading -/

def Integer.parseIntRadix : ByteString → Int → Except Failure Int :=
  parseNumber (.thrown .numberFormatException "Integer:decode - Invalid radix")
    (.thrown .numberFormatException "Integer:decode - Invalid: zero length string")
    (.thrown .numberFormatException "Integer:decode - Invalid only a minus sign given") Integer.parse

/-- What `Integer::decode` and `Long::decode` do behind the sign; the `charAt` are of indices in range. -/
def decodeFrom (noDigits : Failure) (parse : ByteString → Nat → Int → Bool → Except Failure Int) (value : ByteString)
    (i : Nat) (negative : Bool) : Except Failure Int :=
  let length := toInt32 value.length
  let firstDigit := value.getD i 0
  if firstDigit = 48 then
    if (i + 1 : Nat) = length then pure 0
    else if value.getD (i + 1) 0 = 120 ∨ value.getD (i + 1) 0 = 88 then
      -- the index is compared before it moves behind the mark
      if (i + 1 : Nat) = length then .error noDigits else parse value (i + 2) 16 negative
    else parse value (i + 1) 8 negative
  else if firstDigit = 35 then
    if i = length then .error noDigits else parse value (i + 1) 16 negative
  else parse value i 10 negative

def decodeNumber (empty minusOnly noDigits : Failure) (parse : ByteString → Nat → Int → Bool → Except Failure Int)
    (value : ByteString) : Except Failure Int :=
  let length := toInt32 value.length
  if length = 0 then .error empty
  else if value.getD 0 0 = 45 then
    if length = 1 then .error minusOnly else decodeFrom noDigits parse value 1 true
  else decodeFrom noDigits parse value 0 false

def Integer.decode : ByteString → Except Failure Int :=
  decodeNumber (.thrown .numberFormatException "Integer:decode - Invalid zero size string")
    (.thrown .numberFormatException "Integer:decode - Invalid zero string, minus only")
    (.thrown .numberFormatException "Integer:decode - Invalid zero string, minus only") Integer.parse

def Long.decode : ByteString → Except Failure Int :=
  decodeNumber (.thrown .numberFormatException "Long::decode - Zero length string given.")
    (.thrown .numberFormatException "Long::decode - Invalid length string given.")
    (.thrown .numberFormatException "Long::decode - Invalid length string given.") Long.parse

/-! ### What the text of a number is -/

/-- The radix that a text names in front of its digits, and the digits. -/
def specifier : ByteString → Nat × ByteString
  | [] => (10, [])
  | [c] => if c = 35 then (16, []) else (10, [c])
  | c :: c' :: rest =>
    if c = 35 then (16, c' :: rest)
    else if c = 48 then if c' = 120 ∨ c' = 88 then (16, rest) else (8, c' :: rest)
    else (10, c :: c' :: rest)

/-- Digits behind an optional `0x`, `#` or `0`, at least one. -/
def specified (body : ByteString) : Option Nat := unsigned (specifier body).1 (specifier body).2

structure Conversion where
  bound : Nat
  toString : Int → Int → Except Failure ByteString
  toBinaryString : Int → ByteString
  toOctalString : Int → ByteString
  toHexString : Int → ByteString
  parse : ByteString → Int → Except Failure Int
  decode : ByteString → Except Failure Int

def Integer.conversion : Conversion where
  bound := 2147483648
  toString := Integer.toStringRadix
  toBinaryString := Integer.toBinaryString
  toOctalString := Integer.toOctalString
  toHexString := Integer.toHexString
  parse := Integer.parseIntRadix
  decode := Integer.decode

def Long.conversion : Conversion where
  bound := 9223372036854775808
  toString := Long.toStringRadix
  toBinaryString := Long.toBinaryString
  toOctalString := Long.toOctalString
  toHexString value := Long.toHexString (BitVec.ofInt 64 value)
  parse := Long.parseLongRadix
  decode := Long.decode

/-- The digits of the word of a value, which for a negative one are those of its two's complement. -/
def Conversion.PrintsBits (k : Conversion) (v : Int) : Prop :=
  unsigned 2 (k.toBinaryString v) = some (v % (2 * k.bound)).toNat ∧
    unsigned 8 (k.toOctalString v) = some (v % (2 * k.bound)).toNat ∧
    unsigned 16 (k.toHexString v) = some (v % (2 * k.bound)).toNat

/-- Every number of a class is read back from what is printed, and a text is read as the number that it stands for, when
it stands for one of the word. -/
structure Conversion.Converts (k : Conversion) (text : ByteString) : Prop where
  printed : ∀ (radix : Radix) v, InWord k.bound v →
    ∃ t, k.toString v radix.val = .ok t ∧ k.parse t radix.val = .ok v
  bits : ∀ v, InWord k.bound v → k.PrintsBits v
  parsed : ∀ (radix : Radix) v, k.parse text radix.val = .ok v ↔ Signed 45 (unsigned radix.val) text v ∧ InWord k.bound v
  decoded : ∀ v, k.decode text = .ok v ↔ Signed 45 specified text v ∧ InWord k.bound v

/-- A text that names a radix and has no digits. -/
def BareSpecifier (text : ByteString) : Prop :=
  ∃ sign ∈ [[], [45]], ∃ mark ∈ [[48, 120], [48, 88], [35]], text = sign ++ mark

/-! ### What is printed -/

theorem Long.fill_eq (hradix : 1 < radix) (extra n : Nat) (written : ByteString) :
    Long.fill radix (extra + (Nat.log radix n + 1)) (-(n : Int)) written =
      .ok (replicate extra 0 ++ allDigits Integer.hexDigit radix n ++ written) := by
  induction n using Nat.strong_induction_on generalizing written with
  | _ n ih =>
    have hquot : (-(n : Int)).tdiv radix = -((n / radix : Nat) : Int) := by
      rw [Int.neg_tdiv, ← Int.ofNat_tdiv]
    have hrem : 0 - (-(n : Int)).tmod radix = ((n % radix : Nat) : Int) := by
      rw [Int.neg_tmod, ← Int.ofNat_tmod]
      omega
    rw [← Nat.add_assoc, fill]
    simp only [hquot, hrem, Int.toNat_natCast]
    by_cases hlt : n < radix
    · rw [Nat.div_eq_of_lt hlt, Nat.mod_eq_of_lt hlt, if_neg (by simp), Nat.log_of_lt hlt, allDigits_of_lt hlt,
        append_assoc]
      rfl
    · have hle := Nat.not_lt.mp hlt
      have hpos : 0 < n / radix := Nat.div_pos hle (by omega)
      rw [if_pos (by omega), Nat.log_of_one_lt_of_le hradix hle, ih (n / radix) (Nat.div_lt_self (by omega) hradix),
        allDigits_of_le hradix hle, append_assoc, append_assoc, append_assoc]
      rfl

def numeral (radix : Nat) (v : Int) : ByteString :=
  (if v < 0 then [45] else []) ++ allDigits Integer.hexDigit radix v.natAbs

theorem Long.toStringRadix_eq (r : Radix) (v : Int) : toStringRadix v r.val = .ok (numeral r.val v) := by
  have h2 := r.two_le
  have h36 := r.le_36
  have hradix : ¬((r.val : Int) < 2 ∨ (r.val : Int) > 36) := by omega
  rw [toStringRadix]
  simp only [if_neg hradix, Int.toNat_natCast]
  by_cases hzero : v = 0
  · rw [if_pos hzero, hzero, numeral, if_neg (by omega), Int.natAbs_zero, allDigits_of_lt (by omega)]
    rfl
  · rw [if_neg hzero, numeral]
    by_cases hneg : v < 0
    · have hfill := fill_eq h2 1 v.natAbs []
      rw [show -(v.natAbs : Int) = v by omega, append_nil] at hfill
      simp only [hneg, if_true]
      rw [show 2 + Nat.log r.val v.natAbs = 1 + (Nat.log r.val v.natAbs + 1) by omega, hfill]
      rfl
    · have hfill := fill_eq h2 0 v.natAbs []
      rw [show -(v.natAbs : Int) = -v by omega, append_nil] at hfill
      simp only [hneg, if_false]
      rw [show 1 + Nat.log r.val v.natAbs = 0 + (Nat.log r.val v.natAbs + 1) by omega, hfill]
      rfl

theorem number_allDigits (hradix : 1 < radix) (h36 : radix ≤ 36) (n : Nat) :
    unsigned radix (allDigits Integer.hexDigit radix n) = some n := by
  have hvalue := value_allDigits hradix (fun d hd => digitOf_hexDigit hd h36) n
  rw [unsigned, number_of_ne_nil, hvalue]
  exact ne_nil_of_length_pos (by rw [allDigits, length_lastDigits]; omega)

/-! ### Bits -/

theorem unsigned_printBits {width : Nat} {shifted : Int} (hradix : 1 < radix) (h36 : radix ≤ 36) (hwidth : 0 < width)
    (hneg : v < 0 → shifted % (radix ^ width : Nat) = v % (2 * bound)) (hpos : 0 ≤ v → shifted = v ∧ v < bound) :
    unsigned radix (printBits radix width v shifted) = some (v % (2 * bound)).toNat := by
  rw [unsigned, number_of_ne_nil, printBits]
  · by_cases h : v < 0
    · rw [if_pos h, value_lastDigits (by omega) (fun d hd => digitOf_hexDigit hd h36), hneg h]
    · obtain ⟨rfl, hbound⟩ := hpos (by omega)
      obtain ⟨n, rfl⟩ := Int.eq_ofNat_of_zero_le (by omega : 0 ≤ shifted)
      have hvalue := value_allDigits hradix (fun d hd => digitOf_hexDigit hd h36) n
      rw [if_neg h, Int.toNat_natCast, Nat.add_comm, ← allDigits, hvalue, Int.emod_eq_of_lt (by omega) (by omega),
        Int.toNat_natCast]
  · refine ne_nil_of_length_pos ?_
    rw [printBits, length_lastDigits]
    split_ifs <;> omega

theorem hexDigits_eq (n : Nat) : Integer.hexDigits n = allDigits Integer.hexDigit 16 n := by
  induction n using Nat.strong_induction_on with
  | _ n ih =>
    rw [Integer.hexDigits]
    split_ifs with hzero
    · rw [allDigits_of_lt (by omega), Nat.mod_eq_of_lt (by omega)]
    · rw [ih (n / 16) (by omega), ← allDigits_of_le (n := n) (by omega) (by omega)]

section Reading

variable {parse : ByteString → Nat → Int → Bool → Except Failure Int} {e e' e'' : Failure} {negative : Bool}

theorem specified_minus (rest : ByteString) : specified (45 :: rest) = none := by
  cases rest with
  | nil => exact unsigned_minus 10 []
  | cons c rest => exact unsigned_minus 10 (c :: rest)

def IsMark (body : ByteString) : Prop := body ∈ [[48, 120], [48, 88], [35]]

theorem value_iff (hbound : 0 < bound) (r : Radix) (ds : ByteString) :
    (∃ n, Numeral.value (digitOf r.val) r.val 0 ds = some n ∧ v = withSign negative n ∧ InWord bound v) ↔
      (∃ n, unsigned r.val ds = some n ∧ v = withSign negative n ∧ InWord bound v) ∨ ds = [] ∧ v = 0 := by
  cases ds with
  | nil =>
    constructor
    · rintro ⟨n, hn, hv, -⟩
      cases hn
      exact .inr ⟨rfl, hv.trans (withSign_zero _)⟩
    · rintro (⟨n, hn, -⟩ | ⟨-, rfl⟩)
      · cases hn
      · exact ⟨0, rfl, (withSign_zero _).symm, by omega, by omega⟩
  | cons c rest =>
    rw [unsigned, number_of_ne_nil (by simp)]
    exact ⟨.inl, fun h => h.resolve_right fun hnil => by cases hnil.1⟩

theorem decodeFrom_iff (h : ReadsDigits bound parse text) (hlength : text.length < 2147483648) (hbound : 0 < bound)
    {i : Nat} {body : ByteString} (hbody : text.drop i = body) (hne : body ≠ []) :
    decodeFrom e parse text i negative = .ok v ↔
      (∃ n, specified body = some n ∧ v = withSign negative n ∧ InWord bound v) ∨
        IsMark body ∧ v = 0 := by
  have hat : ∀ j, text.getD (i + j) 0 = body.getD j 0 := by
    intro j
    rw [← hbody, getD_eq_getElem?_getD, getD_eq_getElem?_getD, getElem?_drop]
  have hsize : text.length = i + body.length := by
    have hpos := length_pos_iff.mpr hne
    have hdrop := congrArg List.length hbody
    rw [length_drop] at hdrop
    omega
  have hfirst := hat 0
  have hsecond := hat 1
  have hparse : ∀ (r : Radix) j ds, body.drop j = ds → specified body = unsigned r.val ds → (IsMark body ↔ ds = []) →
      (parse text (i + j) r.val negative = .ok v ↔
        (∃ n, specified body = some n ∧ v = withSign negative n ∧ InWord bound v) ∨
          IsMark body ∧ v = 0) := by
    intro r j ds hds hspecified hmark
    rw [h r, ← drop_drop, hbody, hds, value_iff hbound, hspecified, hmark]
  rw [Nat.add_zero] at hfirst
  rw [decodeFrom, toInt32_of_range (by omega) (by omega), hsize]
  simp only [hfirst, hsecond]
  match body, hne with
  | [c], _ =>
    simp only [getD_cons_zero, length_singleton, if_true]
    split_ifs with hzero hsharp hend
    · subst hzero
      constructor
      · intro heq
        cases heq
        exact .inl ⟨0, rfl, (withSign_zero _).symm, by omega, by omega⟩
      · rintro (⟨n, hn, rfl, -⟩ | ⟨hmark, -⟩)
        · obtain rfl : 0 = n := Option.some.inj hn
          rw [withSign_zero]
          rfl
        · exact absurd hmark (by rw [IsMark]; decide)
    · omega
    · subst hsharp
      exact hparse ⟨16, by omega, by omega⟩ 1 [] rfl rfl (by simp [IsMark])
    · exact hparse ⟨10, by omega, by omega⟩ 0 [c] rfl (by simp [specified, specifier, hsharp]) (by simp [IsMark, hsharp])
  | c :: c' :: rest, _ =>
    simp only [getD_cons_zero, getD_cons_succ, length_cons]
    split_ifs with hzero hend hmark hsharp hend
    · omega
    · exact hparse ⟨16, by omega, by omega⟩ 2 rest rfl (by simp [specified, specifier, hzero, hmark])
        (by rcases hmark with rfl | rfl <;> simp [IsMark, hzero])
    · exact hparse ⟨8, by omega, by omega⟩ 1 (c' :: rest) rfl (by simp [specified, specifier, hzero, hmark])
        (by rw [not_or] at hmark; simp [IsMark, hzero, hmark])
    · omega
    · exact hparse ⟨16, by omega, by omega⟩ 1 (c' :: rest) rfl (by simp [specified, specifier, hsharp])
        (by simp [IsMark, hsharp])
    · exact hparse ⟨10, by omega, by omega⟩ 0 (c :: c' :: rest) rfl (by simp [specified, specifier, hzero, hsharp])
        (by simp [IsMark, hzero, hsharp])

theorem decodeNumber_iff (h : ReadsDigits bound parse text) (hlength : text.length < 2147483648) (hbound : 0 < bound) :
    decodeNumber e e' e'' parse text = .ok v ↔
      (Signed 45 specified text v ∧ InWord bound v) ∨ BareSpecifier text ∧ v = 0 := by
  have hbare : ∀ c rest, BareSpecifier (c :: rest) ↔ if c = 45 then IsMark rest else IsMark (c :: rest) := by
    intro c rest
    simp only [BareSpecifier, List.mem_cons, not_mem_nil, or_false, exists_eq_left, exists_eq_or_imp, nil_append,
      singleton_append, cons.injEq, IsMark]
    split_ifs with hc
    · simp [hc]
    · simp [hc]
  rw [decodeNumber, toInt32_of_range (by omega) (by omega)]
  cases text with
  | nil =>
    refine iff_of_false nofun ?_
    rintro (⟨hsigned, -⟩ | ⟨⟨sign, hsign, mark, hmark, heq⟩, -⟩)
    · exact not_signed_nil rfl hsigned
    · obtain ⟨-, rfl⟩ := nil_eq_append_iff.mp heq
      simp at hmark
  | cons c rest =>
    have hzero : ((c :: rest).length : Int) ≠ 0 := by
      rw [length_cons]
      omega
    rw [signed_cons_iff specified_minus, hbare]
    simp only [if_neg hzero, getD_cons_zero]
    by_cases hminus : c = 45
    · simp only [if_pos hminus]
      by_cases honly : rest = []
      · subst honly
        refine iff_of_false nofun ?_
        rintro (⟨⟨n, hn, -⟩, -⟩ | ⟨hmark, -⟩)
        · cases hn
        · simp [IsMark] at hmark
      · rw [if_neg (by simpa using honly), decodeFrom_iff h hlength hbound (by rw [drop_one, tail_cons]) honly]
        simp only [withSign, if_true, ← and_assoc, exists_and_right]
    · simp only [if_neg hminus]
      rw [decodeFrom_iff h hlength hbound drop_zero (by simp)]
      simp only [withSign, Bool.false_eq_true, if_false, ← and_assoc, exists_and_right]

end Reading

/-! ### Both classes -/

theorem length_numeral (r : Radix) (h : v.natAbs < 2 ^ 64) : (numeral r.val v).length ≤ 65 := by
  have hlog : Nat.log r.val v.natAbs < 64 := by
    by_cases hzero : v.natAbs = 0
    · rw [hzero, Nat.log_zero_right]
      omega
    · exact Nat.log_lt_of_lt_pow hzero (h.trans_le (Nat.pow_le_pow_left r.two_le 64))
  rw [numeral, length_append, allDigits, length_lastDigits]
  split_ifs
  · rw [length_singleton]
    omega
  · rw [length_nil]
    omega

theorem signed_numeral (r : Radix) (v : Int) : Signed 45 (unsigned r.val) (numeral r.val v) v := by
  have hnumber := number_allDigits r.two_le r.le_36 v.natAbs
  by_cases h : v < 0
  · exact .inr ⟨_, v.natAbs, by rw [numeral, if_pos h, singleton_append], hnumber, by omega⟩
  · exact .inl ⟨v.natAbs, by rw [numeral, if_neg h, nil_append, hnumber], by omega⟩

theorem not_signed_of_bare (h : BareSpecifier text) : ¬Signed 45 specified text v := by
  have hnone : ∀ t ∈ ([[48, 120], [48, 88], [35]] : List ByteString), specified t = none := by decide
  obtain ⟨sign, hsign, mark, hmark, rfl⟩ := h
  rcases mem_cons.mp hsign with rfl | hsign
  · rintro (⟨n, hn, -⟩ | ⟨rest, n, heq, -⟩)
    · rw [nil_append, hnone mark hmark] at hn
      cases hn
    · simp only [mem_cons, not_mem_nil, or_false] at hmark
      rcases hmark with rfl | rfl | rfl <;> cases heq
  · obtain rfl := mem_singleton.mp hsign
    rw [singleton_append, signed_cons_iff specified_minus, if_pos rfl, hnone mark hmark]
    rintro ⟨n, hn, -⟩
    cases hn

theorem Integer.bits (v : Int) (h : InWord conversion.bound v) : conversion.PrintsBits v := by
  obtain ⟨hlow, hhigh⟩ := h
  simp only [Conversion.PrintsBits, conversion] at hlow hhigh ⊢
  refine ⟨unsigned_printBits (by omega) (by omega) (by omega) (fun _ => rfl) fun _ => ⟨rfl, hhigh⟩,
    unsigned_printBits (by omega) (by omega) (by omega) ?_ ?_, ?_⟩
  · intro hneg
    rw [toUInt32]
    norm_num
    omega
  · intro hpos
    rw [toUInt32]
    exact ⟨by omega, hhigh⟩
  · rw [toHexString, hexDigits_eq, number_allDigits (by omega) (by omega)]
    rfl

theorem Long.bits (v : Int) (h : InWord conversion.bound v) : conversion.PrintsBits v := by
  obtain ⟨hlow, hhigh⟩ := h
  simp only [Conversion.PrintsBits, conversion] at hlow hhigh ⊢
  refine ⟨unsigned_printBits (by omega) (by omega) (by omega) (fun _ => rfl) fun _ => ⟨rfl, hhigh⟩,
    unsigned_printBits (by omega) (by omega) (by omega) ?_ ?_, ?_⟩
  · intro hneg
    rw [toUInt64]
    norm_num
    omega
  · intro hpos
    rw [toUInt64]
    exact ⟨by omega, hhigh⟩
  · rw [toHexString, hexDigits_eq, number_allDigits (by omega) (by omega), BitVec.toNat_ofInt]
    rfl

theorem Conversion.converts_iff {k : Conversion} (hbound : k.bound ≤ 9223372036854775808)
    (hprinted : ∀ (r : Radix) v, k.toString v r.val = .ok (numeral r.val v))
    (hbits : ∀ v, InWord k.bound v → k.PrintsBits v)
    (hparsed : ∀ (text : Lang.String) (r : Radix) v, k.parse text.content r.val = .ok v ↔
      Signed 45 (unsigned r.val) text.content v ∧ InWord k.bound v)
    (text : Lang.String)
    (hdecoded : ∀ v, k.decode text.content = .ok v ↔
      (Signed 45 specified text.content v ∧ InWord k.bound v) ∨ BareSpecifier text.content ∧ v = 0) :
    k.Converts text.content ↔ ¬BareSpecifier text.content := by
  constructor
  · intro h hbare
    exact not_signed_of_bare hbare ((h.decoded 0).mp ((hdecoded 0).mpr (.inr ⟨hbare, rfl⟩))).1
  · intro hbare
    refine ⟨fun r v h => ?_, hbits, hparsed text, fun v => ?_⟩
    · have hlow := h.1
      have hhigh := h.2
      have hlength := length_numeral r (v := v) (by omega)
      exact ⟨_, hprinted r v, (hparsed ⟨numeral r.val v, by omega⟩ r v).mpr ⟨signed_numeral r v, h⟩⟩
    · rw [hdecoded v, or_iff_left fun h => hbare h.1]

theorem Integer.converts_iff (text : Lang.String) : conversion.Converts text.content ↔ ¬BareSpecifier text.content := by
  apply Conversion.converts_iff
  · norm_num [conversion]
  · exact Long.toStringRadix_eq
  · exact bits
  · intro t r v
    simp only [conversion, parseIntRadix]
    exact parseNumber_iff (readsDigits t.length_lt) t.length_lt r
  · intro v
    simp only [conversion, decode]
    exact decodeNumber_iff (readsDigits text.length_lt) text.length_lt (by norm_num)

theorem Long.converts_iff (text : Lang.String) : conversion.Converts text.content ↔ ¬BareSpecifier text.content := by
  apply Conversion.converts_iff
  · norm_num [conversion]
  · exact toStringRadix_eq
  · exact bits
  · intro t r v
    simp only [conversion]
    exact parseNumber_iff (readsDigits t.content) t.length_lt r
  · intro v
    simp only [conversion, decode]
    exact decodeNumber_iff (readsDigits text.content) text.length_lt (by norm_num)

/-- Both classes do all of it for a text exactly when it is not a radix mark without digits, which is decoded as zero. -/
theorem numberText_iff (text : Lang.String) :
    Integer.conversion.Converts text.content ∧ Long.conversion.Converts text.content ↔ ¬BareSpecifier text.content := by
  rw [Integer.converts_iff, Long.converts_iff, and_self_iff]

end ActiveMQCpp.Decaf
