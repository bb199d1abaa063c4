import ActiveMQCpp.DecafDataCodec

/-! `MarshallingSupport::asciiToModifiedUtf8` and `modifiedUtf8ToAscii`, the second copy of the modified
UTF encoding, against `DataOutputStream::writeUTF` and `DataInputStream::readUTF`. -/

namespace ActiveMQCpp.Util.MarshallingSupport

open Decaf Codec Bytes MachineInt List
open Decaf.DataOutputStream Decaf.DataInputStream

variable {bytes decoded : ByteString} {a : UInt8}
variable {value : ByteString}

/-- `Integer::MAX_VALUE`. -/
def maxValue : Nat := 2147483647

/-- `AMQ_CATCH_RETHROW(UTFDataFormatException)
AMQ_CATCH_EXCEPTION_CONVERT(Exception, UTFDataFormatException)
AMQ_CATCHALL_THROW(UTFDataFormatException)`. -/
def catchUTFDataFormat : Failure → Failure
  | .thrown type message =>
    if type = .utfDataFormatException ∨ type.isException then .thrown .utfDataFormatException message
    else .thrown .utfDataFormatException "caught unknown exception"
  | .undefined => .undefined

/-- The additions to the `int` that counts the encoded bytes; the language does not define a sum that
does not fit. -/
def addUtfLength (utfLength width : Nat) : Except Failure Nat :=
  if utfLength + width ≤ maxValue then .ok (utfLength + width) else .error .undefined

/-- The counting loop of `asciiToModifiedUtf8`. -/
def countUtfLength (asciiString : ByteString) : Except Failure Nat :=
  asciiString.foldlM (fun utfLength c => addUtfLength utfLength (utfWidth c.toNat)) 0

/-- `asciiToModifiedUtf8`. The encoding loop stores into a string of `utfLength` NULs without a bounds
check. -/
def asciiToModifiedUtf8 (asciiString : ByteString) : Except Failure ByteString :=
  Except.mapError catchUTFDataFormat <|
    if asciiString.length > 0 then do
      let utfLength ← countUtfLength asciiString
      if utfLength > maxValue then
        throw (.thrown .utfDataFormatException
          s!"MarshallingSupport::asciiToModifiedUtf8 - Cannot marshall string utf8 encoding longer than: 2^31 bytes, supplied string utf8 encoding was: {utfLength} bytes long.")
      else if (utfBytes asciiString).length > utfLength then throw .undefined
      else pure (utfBytes asciiString ++ List.replicate (utfLength - (utfBytes asciiString).length) 0)
    else pure []

/-- The decoding loop of `modifiedUtf8ToAscii`; `result` holds the characters stored so far. -/
def decodeLoop : ByteString → ByteString → Except Failure ByteString
  | [], result => .ok result
  | a :: rest, result =>
    if a < 0x80 then decodeLoop rest (result ++ [a])
    else if a &&& 0xE0 = 0xC0 then
      match rest with
      | [] => .error (.thrown .utfDataFormatException
          "Invalid UTF-8 encoding found, start of two byte char found at end.")
      | b :: rest =>
        if b &&& 0xC0 ≠ 0x80 then
          .error (.thrown .utfDataFormatException
            "Invalid UTF-8 encoding found, byte two does not start with 0x80.")
        else if a &&& 0x1C ≠ 0 then
          .error (.thrown .utfDataFormatException
            "Invalid 2 byte UTF-8 encoding found, This method only supports encoded ASCII values of (0-255).")
        else decodeLoop rest (result ++ [((a &&& 0x1F) <<< 6) ||| (b &&& 0x3F)])
    else if a &&& 0xF0 = 0xE0 then
      if rest.length ≤ 1 then
        .error (.thrown .utfDataFormatException
          "Invalid UTF-8 encoding found, start of three byte char found at end.")
      else
        .error (.thrown .utfDataFormatException
          "Invalid 3 byte UTF-8 encoding found, This method only supports encoded ASCII values of (0-255).")
    else
      .error (.thrown .utfDataFormatException "Invalid UTF-8 encoding found, aborting.")

def modifiedUtf8ToAscii (modifiedUtf8String : ByteString) : Except Failure ByteString :=
  Except.mapError catchUTFDataFormat <|
    if modifiedUtf8String.length = 0 then .ok [] else decodeLoop modifiedUtf8String []

/-! ### The encoder -/

/-- The counter is the length of the encoding as long as that fits into an `int`. -/
theorem foldlM_addUtfLength (asciiString : ByteString) (n : Nat) :
    asciiString.foldlM (fun utfLength c => addUtfLength utfLength (utfWidth c.toNat)) n
      = if asciiString = [] ∨ n + utfLength asciiString ≤ maxValue then .ok (n + utfLength asciiString)
        else .error .undefined := by
  induction asciiString generalizing n with
  | nil => simp [utfLength, pure, Except.pure]
  | cons c asciiString ih =>
    have hlen : utfLength (c :: asciiString) = utfWidth c.toNat + utfLength asciiString := by
      simp [utfLength]
    rw [foldlM_cons, addUtfLength, hlen]
    by_cases hfits : n + utfWidth c.toNat ≤ maxValue
    · have hnil : asciiString = [] → utfLength asciiString = 0 := by
        intro h
        rw [h]
        rfl
      rw [if_pos hfits]
      show asciiString.foldlM _ (n + utfWidth c.toNat) = _
      rw [ih, Nat.add_assoc]
      by_cases hall : n + (utfWidth c.toNat + utfLength asciiString) ≤ maxValue
      · rw [if_pos (Or.inr hall), if_pos (Or.inr hall)]
      · have hrest : asciiString ≠ [] := fun h => hall (by rw [hnil h]; exact hfits)
        rw [if_neg (by simp [hrest, hall]), if_neg (by simp [hall])]
    · rw [if_neg hfits, if_neg (by simp; omega)]
      rfl

theorem countUtfLength_eq (asciiString : ByteString) : countUtfLength asciiString
      = if utfLength asciiString ≤ maxValue then .ok (utfLength asciiString) else .error .undefined := by
  rw [countUtfLength, foldlM_addUtfLength, Nat.zero_add]
  by_cases hnil : asciiString = []
  · rw [hnil]
    rfl
  · simp only [hnil, false_or]

/-- `asciiToModifiedUtf8` returns the encoding exactly for the strings whose encoding an `int` counts. -/
theorem asciiToModifiedUtf8_eq (asciiString : ByteString) : asciiToModifiedUtf8 asciiString
      = if utfLength asciiString ≤ maxValue then .ok (utfBytes asciiString) else .error .undefined := by
  unfold asciiToModifiedUtf8
  by_cases hnil : asciiString.length > 0
  · rw [if_pos hnil, countUtfLength_eq]
    by_cases hfits : utfLength asciiString ≤ maxValue
    · rw [if_pos hfits]
      show Except.mapError _ (if utfLength asciiString > maxValue then _ else _) = _
      rw [if_neg (by omega), if_neg (by rw [length_utfBytes]; omega), length_utfBytes, Nat.sub_self,
        replicate_zero, append_nil, if_pos hfits]
      rfl
    · rw [if_neg hfits, if_neg hfits]
      rfl
  · have hempty : asciiString = [] := length_eq_zero_iff.mp (by omega)
    subst hempty
    rfl

/-! ### The decoder -/

/-- The two decoding loops differ only in how they build the result. -/
theorem decodeLoop_eq (bytes result : ByteString) : decodeLoop bytes result = match utfDecode bytes with
      | .ok decoded => .ok (result ++ decoded)
      | .error e => .error e := by
  induction bytes, result using decodeLoop.induct with
  | case1 result => simp [decodeLoop, utfDecode]
  | case2 a rest result hascii ih =>
    rw [decodeLoop.eq_def, utfDecode.eq_def]
    simp only [if_pos hascii, ih]
    cases utfDecode rest with
    | ok decoded => simp
    | error e => rfl
  | case3 a result hascii hlead =>
    rw [decodeLoop.eq_def, utfDecode.eq_def]
    simp only [if_neg hascii, if_pos hlead]
  | case4 result a hascii hlead b rest hcont =>
    rw [decodeLoop.eq_def, utfDecode.eq_def]
    simp only [if_neg hascii, if_pos hlead, if_pos hcont]
  | case5 result a hascii hlead b rest hcont hwide =>
    rw [decodeLoop.eq_def, utfDecode.eq_def]
    simp only [if_neg hascii, if_pos hlead, if_neg hcont, if_pos hwide]
  | case6 result a hascii hlead b rest hcont hwide ih =>
    rw [decodeLoop.eq_def, utfDecode.eq_def]
    simp only [if_neg hascii, if_pos hlead, if_neg hcont, if_neg hwide, ih]
    cases utfDecode rest with
    | ok decoded => simp
    | error e => rfl
  | case7 a rest result hascii hlead hthree hend =>
    rw [decodeLoop.eq_def, utfDecode.eq_def]
    simp only [if_neg hascii, if_neg hlead, if_pos hthree, if_pos hend]
  | case8 a rest result hascii hlead hthree hend =>
    rw [decodeLoop.eq_def, utfDecode.eq_def]
    simp only [if_neg hascii, if_neg hlead, if_pos hthree, if_neg hend]
  | case9 a rest result hascii hlead hthree =>
    rw [decodeLoop.eq_def, utfDecode.eq_def]
    simp only [if_neg hascii, if_neg hlead, if_neg hthree]

/-- Every failure of the decoder is one that its `catch` clauses rethrow. -/
theorem utfDecode_error {e : Failure} (h : utfDecode bytes = .error e) :
    ∃ message, e = .thrown .utfDataFormatException message := by
  induction bytes using utfDecode.induct with
  | case1 => simp [utfDecode] at h
  | case2 a rest hascii decoded hrest ih =>
    rw [utfDecode.eq_def] at h
    simp [hascii, hrest] at h
  | case3 a rest hascii e' hrest ih =>
    rw [utfDecode.eq_def] at h
    simp only [if_pos hascii, hrest] at h
    apply ih
    rw [hrest]
    exact h
  | case4 a hascii hlead =>
    rw [utfDecode.eq_def] at h
    simp only [if_neg hascii, if_pos hlead] at h
    exact ⟨_, (Except.error.inj h).symm⟩
  | case5 a hascii hlead b rest hcont =>
    rw [utfDecode.eq_def] at h
    simp only [if_neg hascii, if_pos hlead, if_pos hcont] at h
    exact ⟨_, (Except.error.inj h).symm⟩
  | case6 a hascii hlead b rest hcont hwide =>
    rw [utfDecode.eq_def] at h
    simp only [if_neg hascii, if_pos hlead, if_neg hcont, if_pos hwide] at h
    exact ⟨_, (Except.error.inj h).symm⟩
  | case7 a hascii hlead b rest hcont hwide decoded hrest ih =>
    rw [utfDecode.eq_def] at h
    simp only [if_neg hascii, if_pos hlead, if_neg hcont, if_neg hwide, hrest] at h
    cases h
  | case8 a hascii hlead b rest hcont hwide e' hrest ih =>
    rw [utfDecode.eq_def] at h
    simp only [if_neg hascii, if_pos hlead, if_neg hcont, if_neg hwide, hrest] at h
    apply ih
    rw [hrest]
    exact h
  | case9 a rest hascii hlead hthree hend =>
    rw [utfDecode.eq_def] at h
    simp only [if_neg hascii, if_neg hlead, if_pos hthree, if_pos hend] at h
    exact ⟨_, (Except.error.inj h).symm⟩
  | case10 a rest hascii hlead hthree hend =>
    rw [utfDecode.eq_def] at h
    simp only [if_neg hascii, if_neg hlead, if_pos hthree, if_neg hend] at h
    exact ⟨_, (Except.error.inj h).symm⟩
  | case11 a rest hascii hlead hthree =>
    rw [utfDecode.eq_def] at h
    simp only [if_neg hascii, if_neg hlead, if_neg hthree] at h
    exact ⟨_, (Except.error.inj h).symm⟩

/-- `modifiedUtf8ToAscii` accepts what the loop of `readUTF` accepts and fails where it fails. -/
theorem modifiedUtf8ToAscii_eq (bytes : ByteString) : modifiedUtf8ToAscii bytes = utfDecode bytes := by
  unfold modifiedUtf8ToAscii
  by_cases hnil : bytes.length = 0
  · have hempty : bytes = [] := length_eq_zero_iff.mp hnil
    subst hempty
    rfl
  · rw [if_neg hnil, decodeLoop_eq]
    cases hdecode : utfDecode bytes with
    | ok decoded => rfl
    | error e =>
      obtain ⟨message, he⟩ := utfDecode_error hdecode
      subst he
      rfl

/-! ### Encodings the encoder writes -/

/-- The two bytes are what the encoder writes for NUL or for a character above 127. -/
def ShortestPair (a b : UInt8) : Prop := (a = 0xC0 ∧ b = 0x80) ∨ a = 0xC2 ∨ a = 0xC3

instance (a b : UInt8) : Decidable (ShortestPair a b) :=
  inferInstanceAs (Decidable ((a = 0xC0 ∧ b = 0x80) ∨ a = 0xC2 ∨ a = 0xC3))

/-- No NUL stands as itself and no character of one byte is written with two. -/
def Shortest : ByteString → Prop
  | [] => True
  | [a] => a ≠ 0
  | a :: b :: rest =>
    if a < 0x80 then a ≠ 0 ∧ Shortest (b :: rest) else ShortestPair a b ∧ Shortest rest

/-- The lead bytes the decoder takes. -/
theorem lead_cases : ∀ n < 256, UInt8.ofNat n &&& 0xE0 = 0xC0 → UInt8.ofNat n &&& 0x1C = 0 →
    UInt8.ofNat n = 0xC0 ∨ UInt8.ofNat n = 0xC1 ∨ UInt8.ofNat n = 0xC2 ∨ UInt8.ofNat n = 0xC3 := by
  decide +kernel

/-- The character that two bytes stand for is encoded by these two bytes or by one byte. -/
theorem utfChar_pair {b : UInt8} (hlead : a &&& 0xE0 = 0xC0) (hwide : a &&& 0x1C = 0) (hcont : b &&& 0xC0 = 0x80) :
    (ShortestPair a b → utfChar (((a &&& 0x1F) <<< 6) ||| (b &&& 0x3F)).toNat = [a, b]) ∧
    (¬ ShortestPair a b → ∃ c, utfChar (((a &&& 0x1F) <<< 6) ||| (b &&& 0x3F)).toNat = [c] ∧ c < 0x80) := by
  have hbytes : ∀ a ∈ [(0xC0 : UInt8), 0xC1, 0xC2, 0xC3], ∀ n < 256, UInt8.ofNat n &&& 0xC0 = 0x80 →
      if ShortestPair a (UInt8.ofNat n)
      then utfChar (((a &&& 0x1F) <<< 6) ||| (UInt8.ofNat n &&& 0x3F)).toNat = [a, UInt8.ofNat n]
      else utfChar (((a &&& 0x1F) <<< 6) ||| (UInt8.ofNat n &&& 0x3F)).toNat
          = [((a &&& 0x1F) <<< 6) ||| (UInt8.ofNat n &&& 0x3F)]
        ∧ ((a &&& 0x1F) <<< 6) ||| (UInt8.ofNat n &&& 0x3F) < 0x80 := by
    decide +kernel
  have hmem : a ∈ [(0xC0 : UInt8), 0xC1, 0xC2, 0xC3] := by
    have := lead_cases a.toNat a.toNat_lt
    rw [UInt8.ofNat_toNat] at this
    simpa using this hlead hwide
  have hpair := hbytes a hmem b.toNat b.toNat_lt
  rw [UInt8.ofNat_toNat] at hpair
  have hpair := hpair hcont
  constructor
  · intro hshort
    rwa [if_pos hshort] at hpair
  · intro hlong
    rw [if_neg hlong] at hpair
    exact ⟨_, hpair⟩

/-- What the decoder accepts, one character at a time. -/
theorem utfDecode_cases (h : utfDecode bytes = .ok decoded) : (bytes = [] ∧ decoded = []) ∨
    (∃ a rest result, bytes = a :: rest ∧ decoded = a :: result ∧ a < 0x80 ∧ utfDecode rest = .ok result) ∨
    (∃ a b rest result, bytes = a :: b :: rest ∧
      decoded = (((a &&& 0x1F) <<< 6) ||| (b &&& 0x3F)) :: result ∧ ¬ a < 0x80 ∧ a &&& 0xE0 = 0xC0 ∧
      a &&& 0x1C = 0 ∧ b &&& 0xC0 = 0x80 ∧ utfDecode rest = .ok result) := by
  cases bytes with
  | nil =>
    left
    exact ⟨rfl, (Except.ok.inj h).symm⟩
  | cons a rest =>
    right
    rw [utfDecode.eq_def] at h
    by_cases hascii : a < 0x80
    · left
      simp only [if_pos hascii] at h
      cases hrest : utfDecode rest with
      | error e => simp [hrest] at h
      | ok result =>
        rw [hrest] at h
        exact ⟨a, rest, result, rfl, (Except.ok.inj h).symm, hascii, hrest⟩
    · right
      simp only [if_neg hascii] at h
      by_cases hlead : a &&& 0xE0 = 0xC0
      · simp only [if_pos hlead] at h
        cases rest with
        | nil => cases h
        | cons b rest =>
          by_cases hcont : b &&& 0xC0 = 0x80
          · by_cases hwide : a &&& 0x1C = 0
            · simp only [ne_eq, hcont, hwide, not_true_eq_false, if_false] at h
              cases hrest : utfDecode rest with
              | error e => simp [hrest] at h
              | ok result =>
                rw [hrest] at h
                exact ⟨a, b, rest, result, rfl, (Except.ok.inj h).symm, hascii, hlead, hwide,
                  hcont, hrest⟩
            · simp [hcont, hwide] at h
          · simp [hcont] at h
      · by_cases hthree : a &&& 0xF0 = 0xE0
        · simp only [if_neg hlead, if_pos hthree] at h
          split_ifs at h
        · simp [hlead, hthree] at h

theorem utfBytes_cons (c : UInt8) (value : ByteString) :
    utfBytes (c :: value) = utfChar c.toNat ++ utfBytes value := flatMap_cons

theorem utfChar_ascii (hascii : a < 0x80) (hpos : a ≠ 0) : utfChar a.toNat = [a] := by
  have hle : a.toNat ≤ 127 := by
    have := UInt8.lt_iff_toNat_lt.mp hascii
    show a.toNat ≤ 127
    have h128 : (0x80 : UInt8).toNat = 128 := rfl
    omega
  have hnat : a.toNat ≠ 0 := by
    intro h
    exact hpos (UInt8.toNat_inj.mp h)
  rw [utfChar, if_pos ⟨by omega, hle⟩, UInt8.ofNat_toNat]

theorem shortest_cons_ascii (hascii : a < 0x80) (rest : ByteString) :
    Shortest (a :: rest) ↔ a ≠ 0 ∧ Shortest rest := by
  cases rest with
  | nil => simp [Shortest]
  | cons b rest => rw [Shortest, if_pos hascii]

/-- Encoding again what the decoder accepted gives the same bytes exactly when they are an encoding the
encoder writes. -/
theorem utfBytes_utfDecode (h : utfDecode bytes = .ok decoded) : utfBytes decoded = bytes ↔ Shortest bytes := by
  induction decoded generalizing bytes with
  | nil =>
    rcases utfDecode_cases h with ⟨rfl, -⟩ | ⟨_, _, _, _, hcons, _⟩ | ⟨_, _, _, _, _, hcons, _⟩
    · simp [utfBytes, Shortest]
    · cases hcons
    · cases hcons
  | cons c decoded ih =>
    rcases utfDecode_cases h with ⟨-, hnil⟩ | ⟨a, rest, result, rfl, hcons, hascii, hrest⟩ |
      ⟨a, b, rest, result, rfl, hcons, hhigh, hlead, hwide, hcont, hrest⟩
    · cases hnil
    · obtain ⟨rfl, rfl⟩ := List.cons.inj hcons
      rw [utfBytes_cons, shortest_cons_ascii hascii, ← ih hrest]
      by_cases hzero : c = 0
      · subst hzero
        constructor
        · intro hbytes
          have hhead : (0xC0 : UInt8) = 0 := (List.cons.inj hbytes).1
          exact absurd hhead (by decide)
        · intro hne
          exact absurd rfl hne.1
      · rw [utfChar_ascii hascii hzero, singleton_append, cons_inj_right]
        simp only [ne_eq, hzero, not_false_eq_true, true_and]
    · obtain ⟨rfl, rfl⟩ := List.cons.inj hcons
      obtain ⟨hshort, hlong⟩ := utfChar_pair hlead hwide hcont
      rw [utfBytes_cons, Shortest, if_neg hhigh, ← ih hrest]
      by_cases hpair : ShortestPair a b
      · rw [hshort hpair]
        simp only [cons_append, nil_append, List.cons.injEq, true_and, hpair]
      · obtain ⟨one, hone, hsmall⟩ := hlong hpair
        rw [hone]
        constructor
        · intro hbytes
          have hhead : one = a := (List.cons.inj hbytes).1
          exact absurd (hhead ▸ hsmall) hhigh
        · intro hboth
          exact absurd hboth.1 hpair

/-- The length of the shortest encoding of the characters that the bytes stand for. -/
def shortestLength : ByteString → Nat
  | [] => 0
  | [a] => if a = 0 then 2 else 1
  | a :: b :: rest =>
    if a < 0x80 then (if a = 0 then 2 else 1) + shortestLength (b :: rest)
    else (if ShortestPair a b then 2 else 1) + shortestLength rest

theorem shortestLength_cons_ascii (hascii : a < 0x80) (rest : ByteString) :
    shortestLength (a :: rest) = (if a = 0 then 2 else 1) + shortestLength rest := by
  cases rest with
  | nil => simp [shortestLength]
  | cons b rest => rw [shortestLength, if_pos hascii]

theorem utfLength_utfDecode (h : utfDecode bytes = .ok decoded) : utfLength decoded = shortestLength bytes := by
  induction decoded generalizing bytes with
  | nil =>
    rcases utfDecode_cases h with ⟨rfl, -⟩ | ⟨_, _, _, _, hcons, _⟩ | ⟨_, _, _, _, _, hcons, _⟩
    · rfl
    · cases hcons
    · cases hcons
  | cons c decoded ih =>
    have hlen : utfLength (c :: decoded) = (utfChar c.toNat).length + utfLength decoded := by
      rw [← length_utfBytes, ← length_utfBytes, utfBytes_cons, length_append]
    rcases utfDecode_cases h with ⟨-, hnil⟩ | ⟨a, rest, result, rfl, hcons, hascii, hrest⟩ |
      ⟨a, b, rest, result, rfl, hcons, hhigh, hlead, hwide, hcont, hrest⟩
    · cases hnil
    · obtain ⟨rfl, rfl⟩ := List.cons.inj hcons
      rw [hlen, shortestLength_cons_ascii hascii, ih hrest]
      by_cases hzero : c = 0
      · subst hzero
        rfl
      · rw [utfChar_ascii hascii hzero, if_neg hzero, length_singleton]
    · obtain ⟨rfl, rfl⟩ := List.cons.inj hcons
      obtain ⟨hshort, hlong⟩ := utfChar_pair hlead hwide hcont
      rw [hlen, shortestLength, if_neg hhigh, ih hrest]
      by_cases hpair : ShortestPair a b
      · rw [hshort hpair, if_pos hpair]
        rfl
      · obtain ⟨one, hone, -⟩ := hlong hpair
        rw [hone, if_neg hpair]
        rfl

/-! ### Both copies of the encoding -/

/-- `readUTF` on a length and so many bytes does what `modifiedUtf8ToAscii` does on the bytes. -/
theorem readUTF_modifiedUtf8ToAscii (hlen : bytes.length ≤ 65535) (rest : List UInt8) :
    readUTF (bytesBE (BitVec.ofNat 16 bytes.length) 2 ++ bytes ++ rest)
      = match modifiedUtf8ToAscii bytes with
        | .ok decoded => .ok decoded rest
        | .error e => .error e rest := by
  have hsize : (BitVec.ofNat 16 bytes.length).toNat = bytes.length := by
    rw [BitVec.toNat_ofNat]
    exact Nat.mod_eq_of_lt (by omega)
  rw [modifiedUtf8ToAscii_eq, append_assoc]
  unfold readUTF mapError
  rw [bind_ok (parses_readUnsignedShort _ _), hsize]
  by_cases hzero : bytes.length = 0
  · have hempty : bytes = [] := length_eq_zero_iff.mp hzero
    subst hempty
    rfl
  · rw [if_neg hzero, bind_ok (parses_readFully rfl rest)]
    cases hdecode : utfDecode bytes with
    | ok decoded => rfl
    | error e =>
      obtain ⟨message, he⟩ := utfDecode_error hdecode
      subst he
      rfl

/-- `writeUTF` refuses every string whose encoding is longer than 65535 bytes, as long as the counter
does not wrap. -/
theorem writeUTF_refuses (hlong : 65535 < utfLength value) (hfits : utfLength value < 4294967296) (out : List UInt8) :
    writeUTF value out = .error (.thrown .utfDataFormatException
      "Attempted to write a string as UTF-8 whose length is longer than the supported 65535 bytes") out := by
  have hcount : countUTFLength value = utfLength value := by rw [countUTFLength_eq, toUInt32_of_lt hfits]
  unfold writeUTF mapError
  simp only [hcount]
  rw [if_pos hlong]
  rfl

/-- Both copies of the modified UTF encoding agree. Whatever `writeUTF` returns for, `readUTF` reads back
exactly; below `2^32` encoded bytes `writeUTF` throws exactly for the encodings of more than 65535 bytes;
below `2^31` encoded bytes `asciiToModifiedUtf8` gives the bytes that `writeUTF` writes after the length,
and `modifiedUtf8ToAscii` undoes it; `readUTF` accepts what `modifiedUtf8ToAscii` accepts, and encoding
the result again gives back exactly the shortest encodings. -/
theorem modifiedUtf8_agree (value : ByteString) :
    (∀ out out', writeUTF value out = .ok () out' →
      ∃ written, out' = out ++ written ∧ ∀ rest, readUTF (written ++ rest) = .ok value rest) ∧
    (utfLength value < 2 ^ 32 → ∀ out,
      (∃ message, writeUTF value out = .error (.thrown .utfDataFormatException message) out) ↔
        65535 < utfLength value) ∧
    (utfLength value < 2 ^ 31 → ∃ encoded,
      asciiToModifiedUtf8 value = .ok encoded ∧ encoded.length = utfLength value ∧
      modifiedUtf8ToAscii encoded = .ok value ∧
      ∀ out, utfLength value ≤ 65535 →
        writeUTF value out = .ok () (out ++ bytesBE (BitVec.ofNat 16 encoded.length) 2 ++ encoded)) ∧
    (value.length ≤ 65535 → ∀ rest,
      readUTF (bytesBE (BitVec.ofNat 16 value.length) 2 ++ value ++ rest)
        = match modifiedUtf8ToAscii value with
          | .ok decoded => .ok decoded rest
          | .error e => .error e rest) ∧
    (value.length < 2 ^ 31 → ∀ decoded, modifiedUtf8ToAscii value = .ok decoded →
      (asciiToModifiedUtf8 decoded = .ok value ↔ Shortest value)) := by
  refine ⟨?_, ?_, ?_, fun hlen rest => readUTF_modifiedUtf8ToAscii hlen rest, ?_⟩
  · intro out out' hwrite
    have hfits := writeUTF_ok_utfLength hwrite
    rw [emits_writeUTF hfits out] at hwrite
    injection hwrite with _ hout
    exact ⟨_, hout.symm, parses_readUTF hfits⟩
  · intro hfits out
    constructor
    · rintro ⟨message, hthrown⟩
      by_contra hshort
      rw [emits_writeUTF (by omega) out] at hthrown
      cases hthrown
    · intro hlong
      exact ⟨_, writeUTF_refuses hlong hfits out⟩
  · intro hfits
    refine ⟨utfBytes value, ?_, length_utfBytes value, ?_, ?_⟩
    · rw [asciiToModifiedUtf8_eq, if_pos (by unfold maxValue; omega)]
    · rw [modifiedUtf8ToAscii_eq, utfDecode_utfBytes]
    · intro out hshort
      rw [emits_writeUTF (by omega) out, length_utfBytes, append_assoc]
  · intro hlen decoded hdecode
    rw [modifiedUtf8ToAscii_eq] at hdecode
    rw [← utfBytes_utfDecode hdecode, asciiToModifiedUtf8_eq]
    constructor
    · intro hagain
      split_ifs at hagain
      exact Except.ok.inj hagain
    · intro hbytes
      rw [if_pos (by rw [← length_utfBytes, hbytes]; unfold maxValue; omega), hbytes]

/-- There are strings with encodings of every length. -/
theorem exists_utfLength (n : Nat) : ∃ value, utfLength value = n := by
  refine ⟨List.replicate n 0x41, ?_⟩
  unfold utfLength
  rw [map_replicate, sum_replicate_nat]
  exact Nat.mul_one n

/-- The counter of `writeUTF` wraps to 0 at `2^32` and the loop stores past the end of an empty vector. -/
theorem writeUTF_wraps (hlen : utfLength value = 2 ^ 32) (out : List UInt8) :
    writeUTF value out = .error .undefined out := by
  have hcount : countUTFLength value = 0 := by
    rw [countUTFLength_eq, hlen]
    rfl
  have hover : (utfBytes value).length > 0 := by
    rw [length_utfBytes, hlen]
    decide
  unfold writeUTF mapError
  simp only [hcount]
  rw [if_neg (by omega), if_pos hover]
  rfl

/-- The decoder takes a NUL that the encoder never writes; `asciiToModifiedUtf8` does not return for an
encoding of `2^31` bytes, nor does `writeUTF` throw its exception for one of `2^32`. -/
theorem modifiedUtf8_not_inverse :
    (modifiedUtf8ToAscii [0] = .ok [0] ∧ asciiToModifiedUtf8 [0] = .ok [0xC0, 0x80]) ∧
    (∃ value, utfLength value = 2 ^ 31 ∧ asciiToModifiedUtf8 value = .error .undefined) ∧
    (∃ value, utfLength value = 2 ^ 32 ∧ ∀ out, writeUTF value out = .error .undefined out) := by
  refine ⟨⟨by decide, by decide⟩, ?_, ?_⟩
  · obtain ⟨value, hlen⟩ := exists_utfLength (2 ^ 31)
    refine ⟨value, hlen, ?_⟩
    rw [asciiToModifiedUtf8_eq, if_neg (by unfold maxValue; omega)]
  · obtain ⟨value, hlen⟩ := exists_utfLength (2 ^ 32)
    exact ⟨value, hlen, writeUTF_wraps hlen⟩

end ActiveMQCpp.Util.MarshallingSupport
