import ActiveMQCpp.DecafStringUtils

/-! `URIEncoderDecoder`: the characters that may stand in a part of a URI, and `%` with two digits for the others. -/

namespace ActiveMQCpp.Decaf

open List

namespace Character

def isLetter (c : UInt8) : Bool := (65 ≤ c.toNat && c.toNat ≤ 90) || (97 ≤ c.toNat && c.toNat ≤ 122)

def isLetterOrDigit (c : UInt8) : Bool := isLetter c || isDigit c

def isISOControl (c : UInt8) : Bool := c.toNat ≤ 31 || (127 ≤ c.toNat && c.toNat ≤ 159)

end Character

/-- What the operations on a URI throw: `URISyntaxException` with its input and its reason, `IllegalArgumentException`,
or `std::out_of_range`. After `undefined` nothing is said: a vector is written past its end. -/
inductive URIException where
  | syntaxException (input : ByteString) (reason : String)
  | illegalArgumentException
  | outOfRange
  | undefined
  deriving DecidableEq

namespace URIEncoderDecoder

open Character

/-- A character that `validate` lets pass without `%`. White space is never above 127, so the last condition holds
of all such characters. -/
def passes (legal : ByteString) (ch : UInt8) : Bool :=
  isLetterOrDigit ch || legal.contains ch || (ch.toNat > 127 && (!isWhitespace ch || !isISOControl ch))

def validateFrom (s legal : ByteString) : ByteString → Except URIException Unit
  | [] => .ok ()
  | ch :: rest =>
    if ch = 37 then
      match rest with
      | d1 :: d2 :: rest =>
        if digit d1 16 = -1 ∨ digit d2 16 = -1 then .error (.syntaxException s "Invalid Hex Digit in char")
        else validateFrom s legal rest
      | _ => .error (.syntaxException s "invalid Encoded data")
    else if passes legal ch then validateFrom s legal rest
    else .error (.syntaxException s "string contains Invalid Character")

def validate (s legal : ByteString) : Except URIException Unit := validateFrom s legal s

def validateSimple (s legal : ByteString) : Except URIException Unit :=
  if s.all fun ch => isLetterOrDigit ch || legal.contains ch then .ok ()
  else .error (.syntaxException s "string contains invalid ASCII chars")

/-- `digits`. -/
def hexDigit (n : Nat) : UInt8 := if n < 10 then UInt8.ofNat (48 + n) else UInt8.ofNat (55 + n)

def isQuoted (legal : ByteString) (ch : UInt8) : Bool :=
  !(isLetterOrDigit ch || legal.contains ch || (ch.toNat > 127 && (!isWhitespace ch && !isISOControl ch)))

/-- A character, or `%` and its two digits. -/
def quoteChar (legal : ByteString) (ch : UInt8) : ByteString :=
  if isQuoted legal ch then [37, hexDigit (ch.toNat / 16), hexDigit (ch.toNat % 16)] else [ch]

def quoteIllegal (s legal : ByteString) : ByteString := s.flatMap (quoteChar legal)

/-- A character up to 127, or `%` and the two digits of one above. -/
def encodeOther (ch : UInt8) : ByteString :=
  if ch.toNat ≤ 127 then [ch] else [37, hexDigit (ch.toNat / 16), hexDigit (ch.toNat % 16)]

def encodeOthers (s : ByteString) : ByteString := s.flatMap encodeOther

def decode : ByteString → Except URIException ByteString
  | [] => .ok []
  | c :: rest =>
    if c = 37 then
      match rest with
      | d1 :: d2 :: rest =>
        if digit d1 16 = -1 ∨ digit d2 16 = -1 then .error .illegalArgumentException
        else (decode rest).map (UInt8.ofNat (digit d1 16 * 16 + digit d2 16).toNat :: ·)
      | _ => .error .illegalArgumentException
    else (decode rest).map (c :: ·)

/-! ### What validate accepts -/

/-- The strings that `validate` accepts. -/
inductive Legal (legal : ByteString) : ByteString → Prop where
  | nil : Legal legal []
  | char {ch : UInt8} {s : ByteString} : ch ≠ 37 → passes legal ch = true → Legal legal s → Legal legal (ch :: s)
  | escape {d1 d2 : UInt8} {s : ByteString} : digit d1 16 ≠ -1 → digit d2 16 ≠ -1 → Legal legal s →
      Legal legal (37 :: d1 :: d2 :: s)

variable {legal s t : ByteString}
variable {ch c : UInt8} {t s : ByteString}
variable {n : Nat} {d1 d2 : UInt8} {f : ByteString → ByteString} {x : Except URIException ByteString}
  {rest a b : ByteString}

theorem validateFrom_char (text : ByteString) (hne : ch ≠ 37) (s : ByteString) : validateFrom text legal (ch :: s) =
      if passes legal ch then validateFrom text legal s
      else .error (.syntaxException text "string contains Invalid Character") := by
  rw [validateFrom.eq_def]
  simp only [if_neg hne]

theorem validateFrom_escape (text : ByteString) (d1 d2 : UInt8) (s : ByteString) :
    validateFrom text legal (37 :: d1 :: d2 :: s) =
      if digit d1 16 = -1 ∨ digit d2 16 = -1 then .error (.syntaxException text "Invalid Hex Digit in char")
      else validateFrom text legal s := rfl

theorem validateFrom_ok (text : ByteString) (h : Legal legal s) : validateFrom text legal s = .ok () := by
  induction h with
  | nil => rfl
  | char hne hpasses _ ih => rw [validateFrom_char text hne, if_pos hpasses, ih]
  | escape hd1 hd2 _ ih => rw [validateFrom_escape, if_neg (not_or_intro hd1 hd2), ih]

theorem legal_of_validateFrom {text : ByteString} : ∀ {s : ByteString}, validateFrom text legal s = .ok () → Legal legal s
  | [], _ => .nil
  | [ch], h => by
    by_cases hescape : ch = 37
    · subst hescape
      cases h
    · rw [validateFrom_char text hescape] at h
      split_ifs at h with hpasses
      exact .char hescape hpasses .nil
  | [ch, d], h => by
    by_cases hescape : ch = 37
    · subst hescape
      cases h
    · rw [validateFrom_char text hescape] at h
      split_ifs at h with hpasses
      exact .char hescape hpasses (legal_of_validateFrom h)
  | ch :: d1 :: d2 :: rest, h => by
    by_cases hescape : ch = 37
    · subst hescape
      rw [validateFrom_escape] at h
      split_ifs at h with hdigits
      rw [not_or] at hdigits
      exact .escape hdigits.1 hdigits.2 (legal_of_validateFrom h)
    · rw [validateFrom_char text hescape] at h
      split_ifs at h with hpasses
      exact .char hescape hpasses (legal_of_validateFrom h)

theorem validate_iff : validate s legal = .ok () ↔ Legal legal s :=
  ⟨legal_of_validateFrom, validateFrom_ok s⟩

theorem Legal.append (hs : Legal legal s) (ht : Legal legal t) : Legal legal (s ++ t) := by
  induction hs with
  | nil => exact ht
  | char hne hpasses _ ih => exact .char hne hpasses ih
  | escape hd1 hd2 _ ih => exact .escape hd1 hd2 ih

theorem Legal.of_char (hne : ch ≠ 37) (hpasses : passes legal ch = true) : Legal legal [ch] :=
  .char hne hpasses .nil

/-! ### Quoting -/

theorem hexDigit_digit (h : n < 16) : digit (hexDigit n) 16 = n := by
  interval_cases n <;> rfl

theorem quoteChar_of_quoted (h : isQuoted legal ch = true) :
    quoteChar legal ch = [37, hexDigit (ch.toNat / 16), hexDigit (ch.toNat % 16)] := by
  rw [quoteChar, if_pos h]

theorem quoteChar_of_kept (h : isQuoted legal ch = false) : quoteChar legal ch = [ch] := by
  rw [quoteChar, if_neg (Bool.eq_false_iff.mp h)]

theorem passes_of_kept (h : isQuoted legal ch = false) : passes legal ch = true := by
  rw [isQuoted, Bool.not_eq_false', Bool.or_eq_true] at h
  rw [passes, Bool.or_eq_true]
  rcases h with hchar | hhigh
  · exact .inl hchar
  · rw [Bool.and_eq_true, Bool.and_eq_true] at hhigh
    rw [Bool.and_eq_true]
    exact .inr ⟨hhigh.1, by rw [hhigh.2.1, Bool.true_or]⟩

theorem ne_percent_of_kept (hpercent : (37 : UInt8) ∉ legal) (h : isQuoted legal ch = false) : ch ≠ 37 := by
  rintro rfl
  have hquoted : isQuoted legal 37 = true := by
    simp [isQuoted, isLetterOrDigit, isLetter, isDigit, value, hpercent]
  rw [hquoted] at h
  cases h

theorem legal_quoteIllegal (hpercent : (37 : UInt8) ∉ legal) (s : ByteString) : Legal legal (quoteIllegal s legal) := by
  induction s with
  | nil => exact .nil
  | cons ch s ih =>
    rw [quoteIllegal, flatMap_cons]
    refine .append ?_ ih
    cases hquoted : isQuoted legal ch with
    | true =>
      have hch := ch.toNat_lt
      rw [quoteChar_of_quoted hquoted]
      refine .escape ?_ ?_ .nil
      · rw [hexDigit_digit (by omega)]
        omega
      · rw [hexDigit_digit (by omega)]
        omega
    | false =>
      rw [quoteChar_of_kept hquoted]
      exact .of_char (ne_percent_of_kept hpercent hquoted) (passes_of_kept hquoted)

theorem not_mem_quoteIllegal (hletter : isLetterOrDigit c = false) (hlegal : c ∉ legal) (hlow : c.toNat ≤ 127)
    (hpercent : c ≠ 37) (s : ByteString) : c ∉ quoteIllegal s legal := by
  intro hmem
  rw [quoteIllegal, mem_flatMap] at hmem
  obtain ⟨ch, -, hch⟩ := hmem
  cases hquoted : isQuoted legal ch with
  | true =>
    rw [quoteChar_of_quoted hquoted] at hch
    have hdigit : ∀ n < 16, c ≠ hexDigit n := by
      intro n hn heq
      rw [heq] at hletter
      interval_cases n <;> cases hletter
    have hlt := ch.toNat_lt
    rcases mem_cons.mp hch with rfl | hch
    · exact hpercent rfl
    rcases mem_cons.mp hch with heq | hch
    · exact hdigit _ (by omega) heq
    · exact hdigit _ (by omega) (mem_singleton.mp hch)
  | false =>
    rw [quoteChar_of_kept hquoted, mem_singleton] at hch
    subst hch
    have hhigh : ¬ c.toNat > 127 := not_lt.mpr hlow
    have hin : isQuoted legal c = true := by
      simp [isQuoted, hletter, hlegal, hhigh]
    rw [hquoted] at hin
    cases hin

/-! ### Decoding -/

theorem decode_char (hne : c ≠ 37) (s : ByteString) : decode (c :: s) = (decode s).map (c :: ·) := by
  rw [decode.eq_def]
  simp only [if_neg hne]

theorem decode_escape (hd1 : digit d1 16 ≠ -1) (hd2 : digit d2 16 ≠ -1) (s : ByteString) :
    decode (37 :: d1 :: d2 :: s) = (decode s).map (UInt8.ofNat (digit d1 16 * 16 + digit d2 16).toNat :: ·) := by
  rw [decode.eq_def]
  simp only [if_neg (not_or_intro hd1 hd2), if_true]

theorem ok_of_map (h : x = .ok t) : x.map f = .ok (f t) := by
  rw [h]
  rfl

theorem decode_quoteChar (hpercent : (37 : UInt8) ∉ legal) (ch : UInt8) (rest : ByteString) :
    decode (quoteChar legal ch ++ rest) = (decode rest).map (ch :: ·) := by
  cases hquoted : isQuoted legal ch with
  | true =>
    have hlt := ch.toNat_lt
    have hhigh : digit (hexDigit (ch.toNat / 16)) 16 = (ch.toNat / 16 : Nat) := hexDigit_digit (by omega)
    have hlow : digit (hexDigit (ch.toNat % 16)) 16 = (ch.toNat % 16 : Nat) := hexDigit_digit (by omega)
    have hsum : ((ch.toNat / 16 : Nat) * 16 + (ch.toNat % 16 : Nat) : Int).toNat = ch.toNat := by omega
    rw [quoteChar_of_quoted hquoted, cons_append, cons_append, cons_append, nil_append,
      decode_escape (by omega) (by omega), hhigh, hlow, hsum, UInt8.ofNat_toNat]
  | false =>
    rw [quoteChar_of_kept hquoted, cons_append, nil_append,
      decode_char (ne_percent_of_kept hpercent hquoted)]

theorem decode_quoteIllegal_append (hpercent : (37 : UInt8) ∉ legal) (s : ByteString)
    (h : decode rest = .ok t) : decode (quoteIllegal s legal ++ rest) = .ok (s ++ t) := by
  induction s with
  | nil => exact h
  | cons ch s ih =>
    rw [quoteIllegal, flatMap_cons, append_assoc, decode_quoteChar hpercent]
    exact ok_of_map ih

theorem decode_quoteIllegal (hpercent : (37 : UInt8) ∉ legal) (s : ByteString) :
    decode (quoteIllegal s legal) = .ok s := by
  have h := decode_quoteIllegal_append hpercent s (rfl : decode [] = .ok [])
  rwa [append_nil, append_nil] at h

theorem decode_plain_append (hs : (37 : UInt8) ∉ s) (h : decode rest = .ok t) :
    decode (s ++ rest) = .ok (s ++ t) := by
  induction s with
  | nil => exact h
  | cons c s ih =>
    rw [mem_cons, not_or] at hs
    rw [cons_append, decode_char (Ne.symm hs.1)]
    exact ok_of_map (ih hs.2)

/-! ### Encoding what is not ASCII -/

@[simp] theorem encodeOthers_nil : encodeOthers [] = [] := rfl

@[simp] theorem encodeOthers_cons (ch : UInt8) (s : ByteString) :
    encodeOthers (ch :: s) = encodeOther ch ++ encodeOthers s := by
  simp [encodeOthers]

theorem encodeOther_low (h : ch.toNat ≤ 127) : encodeOther ch = [ch] := by
  rw [encodeOther, if_pos h]

theorem encodeOther_high (h : ¬ ch.toNat ≤ 127) :
    encodeOther ch = [37, hexDigit (ch.toNat / 16), hexDigit (ch.toNat % 16)] := by
  rw [encodeOther, if_neg h]

theorem digit_high (h : ¬ ch.toNat ≤ 127) : digit ch 16 = -1 := by
  have hdecimal : ¬ (48 ≤ ch.toNat ∧ ch.toNat ≤ 57) := by omega
  have hlower : ¬ (97 ≤ ch.toNat ∧ ch.toNat ≤ 122) := by omega
  have hupper : ¬ (65 ≤ ch.toNat ∧ ch.toNat ≤ 90) := by omega
  simp [digit, hdecimal, hlower, hupper]

theorem decode_bad (h : digit d1 16 = -1 ∨ digit d2 16 = -1) (s : ByteString) :
    decode (37 :: d1 :: d2 :: s) = .error .illegalArgumentException := by
  rw [decode, if_pos rfl, if_pos h]

theorem decode_encodeOther (ch : UInt8) (hne : ch ≠ 37) (rest : ByteString) :
    decode (encodeOther ch ++ rest) = (decode rest).map (ch :: ·) := by
  by_cases hlow : ch.toNat ≤ 127
  · rw [encodeOther_low hlow, singleton_append, decode_char hne]
  · have hlt := ch.toNat_lt
    have hfirst : digit (hexDigit (ch.toNat / 16)) 16 = (ch.toNat / 16 : Nat) := hexDigit_digit (by omega)
    have hsecond : digit (hexDigit (ch.toNat % 16)) 16 = (ch.toNat % 16 : Nat) := hexDigit_digit (by omega)
    have hsum : ((ch.toNat / 16 : Nat) * 16 + (ch.toNat % 16 : Nat) : Int).toNat = ch.toNat := by omega
    rw [encodeOther_high hlow, cons_append, cons_append, cons_append, nil_append,
      decode_escape (by omega) (by omega), hfirst, hsecond, hsum, UInt8.ofNat_toNat]

theorem decode_encodeOthers_escape (d1 d2 : UInt8) (ih : decode (encodeOthers s) = decode s) :
    decode (encodeOthers (37 :: d1 :: d2 :: s)) = decode (37 :: d1 :: d2 :: s) := by
  have hpercent : digit 37 16 = -1 := by decide
  rw [encodeOthers_cons, encodeOthers_cons, encodeOthers_cons, encodeOther_low (by decide), singleton_append]
  by_cases hfirst : d1.toNat ≤ 127
  · rw [encodeOther_low hfirst, singleton_append]
    by_cases hsecond : d2.toNat ≤ 127
    · rw [encodeOther_low hsecond, singleton_append]
      by_cases hdigits : digit d1 16 = -1 ∨ digit d2 16 = -1
      · rw [decode_bad hdigits, decode_bad hdigits]
      · rw [not_or] at hdigits
        rw [decode_escape hdigits.1 hdigits.2, decode_escape hdigits.1 hdigits.2, ih]
    · rw [encodeOther_high hsecond, cons_append, decode_bad (.inr hpercent), decode_bad (.inr (digit_high hsecond))]
  · rw [encodeOther_high hfirst, cons_append, cons_append, decode_bad (.inl hpercent),
      decode_bad (.inl (digit_high hfirst))]

theorem decode_encodeOthers : ∀ s : ByteString, decode (encodeOthers s) = decode s
  | [] => rfl
  | [ch] => by
    by_cases hescape : ch = 37
    · subst hescape
      rfl
    · rw [encodeOthers_cons, decode_encodeOther ch hescape, decode_char hescape]
      rfl
  | [ch, d] => by
    by_cases hescape : ch = 37
    · subst hescape
      rw [encodeOthers_cons, encodeOthers_cons, encodeOthers_nil, encodeOther_low (by decide), append_nil]
      by_cases hlow : d.toNat ≤ 127
      · rw [encodeOther_low hlow]
        rfl
      · rw [encodeOther_high hlow, singleton_append, decode_bad (.inl (by decide))]
        rfl
    · rw [encodeOthers_cons, decode_encodeOther ch hescape, decode_char hescape, decode_encodeOthers [d]]
  | ch :: d1 :: d2 :: s => by
    by_cases hescape : ch = 37
    · subst hescape
      exact decode_encodeOthers_escape d1 d2 (decode_encodeOthers s)
    · rw [encodeOthers_cons, decode_encodeOther ch hescape, decode_char hescape, decode_encodeOthers (d1 :: d2 :: s)]

/-- The strings that decode to a string. -/
inductive Decodes : ByteString → ByteString → Prop where
  | nil : Decodes [] []
  | char {c : UInt8} {s t : ByteString} : c ≠ 37 → Decodes s t → Decodes (c :: s) (c :: t)
  | escape {d1 d2 : UInt8} {s t : ByteString} : digit d1 16 ≠ -1 → digit d2 16 ≠ -1 → Decodes s t →
      Decodes (37 :: d1 :: d2 :: s) (UInt8.ofNat (digit d1 16 * 16 + digit d2 16).toNat :: t)

theorem map_eq_ok (h : x.map f = .ok t) : ∃ t', x = .ok t' ∧ f t' = t := by
  cases x with
  | error e => cases h
  | ok t' => exact ⟨t', rfl, Except.ok.inj h⟩

theorem decodes_of_decode : ∀ {s t : ByteString}, decode s = .ok t → Decodes s t
  | [], t, h => by
    cases h
    exact .nil
  | [c], t, h => by
    by_cases hescape : c = 37
    · subst hescape
      cases h
    · rw [decode_char hescape] at h
      obtain ⟨t, ht, rfl⟩ := map_eq_ok h
      exact .char hescape (decodes_of_decode ht)
  | [c, d], t, h => by
    by_cases hescape : c = 37
    · subst hescape
      cases h
    · rw [decode_char hescape] at h
      obtain ⟨t, ht, rfl⟩ := map_eq_ok h
      exact .char hescape (decodes_of_decode ht)
  | c :: d1 :: d2 :: s, t, h => by
    by_cases hescape : c = 37
    · subst hescape
      by_cases hdigits : digit d1 16 = -1 ∨ digit d2 16 = -1
      · rw [decode, if_pos rfl, if_pos hdigits] at h
        cases h
      · rw [not_or] at hdigits
        rw [decode_escape hdigits.1 hdigits.2] at h
        obtain ⟨t, ht, rfl⟩ := map_eq_ok h
        exact .escape hdigits.1 hdigits.2 (decodes_of_decode ht)
    · rw [decode_char hescape] at h
      obtain ⟨t, ht, rfl⟩ := map_eq_ok h
      exact .char hescape (decodes_of_decode ht)

theorem Decodes.length_le (h : Decodes s t) : t.length ≤ s.length := by
  induction h with
  | nil => exact le_rfl
  | char _ _ ih => exact Nat.succ_le_succ ih
  | escape _ _ _ ih =>
    rw [length_cons, length_cons, length_cons, length_cons]
    omega

theorem Decodes.length_lt (h : Decodes s t) (hpercent : 37 ∈ s) : t.length < s.length := by
  induction h with
  | nil => cases hpercent
  | char hne _ ih => exact Nat.succ_lt_succ (ih ((mem_cons.mp hpercent).resolve_left hne.symm))
  | escape _ _ hrest _ =>
    have hle := hrest.length_le
    rw [length_cons, length_cons, length_cons, length_cons]
    omega

theorem Decodes.eq_nil (h : Decodes s []) : s = [] := by
  cases h
  rfl

theorem Decodes.eq_of_not_mem (h : Decodes s t) (hpercent : 37 ∉ s) : t = s := by
  induction h with
  | nil => rfl
  | char _ _ ih => rw [ih fun hmem => hpercent (mem_cons_of_mem _ hmem)]
  | escape => exact absurd mem_cons_self hpercent

theorem Decodes.eq_of_length_le (h : Decodes s t) (hlength : s.length ≤ t.length) : t = s ∧ 37 ∉ s := by
  have hpercent : 37 ∉ s := fun hmem => absurd (h.length_lt hmem) (not_lt.mpr hlength)
  exact ⟨h.eq_of_not_mem hpercent, hpercent⟩

theorem Decodes.split (hpercent : c ≠ 37) (hdigit : digit c 16 = -1)
    (h : Decodes (a ++ c :: b) t) : ∃ x y, t = x ++ c :: y ∧ Decodes a x ∧ Decodes b y := by
  generalize hs : a ++ c :: b = s at h
  induction h generalizing a with
  | nil => cases a <;> cases hs
  | @char d s t hne hrest ih =>
    cases a with
    | nil =>
      obtain ⟨rfl, rfl⟩ := List.cons.inj hs
      exact ⟨[], t, rfl, .nil, hrest⟩
    | cons d' a =>
      obtain ⟨rfl, htail⟩ := List.cons.inj hs
      obtain ⟨x, y, rfl, hx, hy⟩ := ih htail
      exact ⟨d' :: x, y, rfl, .char hne hx, hy⟩
  | @escape d1 d2 s t hd1 hd2 hrest ih =>
    cases a with
    | nil => exact absurd (List.cons.inj hs).1 hpercent
    | cons d a =>
      obtain ⟨rfl, htail⟩ := List.cons.inj hs
      have hfirst : a ++ c :: b = d1 :: d2 :: s := htail
      cases a with
      | nil => exact absurd ((List.cons.inj hfirst).1 ▸ hdigit) hd1
      | cons d a =>
        have hsecond : a ++ c :: b = d2 :: s := (List.cons.inj hfirst).2
        obtain rfl : d = d1 := (List.cons.inj hfirst).1
        cases a with
        | nil => exact absurd ((List.cons.inj hsecond).1 ▸ hdigit) hd2
        | cons d' a =>
          obtain rfl : d' = d2 := (List.cons.inj hsecond).1
          obtain ⟨x, y, rfl, hx, hy⟩ := ih (List.cons.inj hsecond).2
          exact ⟨_, y, rfl, .escape hd1 hd2 hx, hy⟩

theorem Decodes.count_le (h : Decodes s t) (hpercent : c ≠ 37) (hdigit : digit c 16 = -1) :
    s.count c ≤ t.count c := by
  induction h with
  | nil => exact le_rfl
  | @char d s t _ _ ih =>
    rw [count_cons, count_cons]
    exact Nat.add_le_add_right ih _
  | @escape d1 d2 s t hd1 hd2 _ ih =>
    have hne1 : d1 ≠ c := fun heq => hd1 (heq ▸ hdigit)
    have hne2 : d2 ≠ c := fun heq => hd2 (heq ▸ hdigit)
    rw [count_cons_of_ne hpercent.symm, count_cons_of_ne hne1, count_cons_of_ne hne2]
    exact ih.trans (count_le_count_cons)

/-! ### Characters that are not quoted -/

theorem hexDigit_ne (hdigit : digit c 16 = -1) (hn : n < 16) : hexDigit n ≠ c := by
  rintro rfl
  rw [hexDigit_digit hn] at hdigit
  omega

theorem count_quoteIllegal (hlegal : c ∈ legal) (hpercent : c ≠ 37) (hdigit : digit c 16 = -1)
    (s : ByteString) : (quoteIllegal s legal).count c = s.count c := by
  induction s with
  | nil => rfl
  | cons ch s ih =>
    rw [quoteIllegal, flatMap_cons, count_append, count_cons, ← ih, Nat.add_comm, quoteIllegal]
    congr 1
    cases hquoted : isQuoted legal ch with
    | true =>
      have hlt := ch.toNat_lt
      have hne : ch ≠ c := by
        rintro rfl
        simp [isQuoted, hlegal] at hquoted
      rw [quoteChar_of_quoted hquoted, count_cons_of_ne hpercent.symm,
        count_cons_of_ne (hexDigit_ne hdigit (by omega)), count_cons_of_ne (hexDigit_ne hdigit (by omega)),
        count_nil, if_neg (by simpa using hne)]
    | false => rw [quoteChar_of_kept hquoted, count_singleton]

theorem quoteIllegal_split (hpercent : c ≠ 37) (hdigit : digit c 16 = -1) (h : quoteIllegal s legal = a ++ c :: b) :
    ∃ s₀ s₁, s = s₀ ++ c :: s₁ ∧ quoteIllegal s₀ legal = a ∧ quoteIllegal s₁ legal = b := by
  induction s generalizing a with
  | nil => cases a <;> cases h
  | cons ch s ih =>
    rw [quoteIllegal, flatMap_cons] at h
    have hrest : ∀ a' : ByteString, a = quoteChar legal ch ++ a' → s.flatMap (quoteChar legal) = a' ++ c :: b →
        ∃ s₀ s₁, ch :: s = s₀ ++ c :: s₁ ∧ quoteIllegal s₀ legal = a ∧ quoteIllegal s₁ legal = b := by
      rintro a' rfl heq
      obtain ⟨s₀, s₁, rfl, rfl, rfl⟩ := ih heq
      exact ⟨ch :: s₀, s₁, rfl, rfl, rfl⟩
    cases hquoted : isQuoted legal ch with
    | true =>
      have hlt := ch.toNat_lt
      have hhigh : hexDigit (ch.toNat / 16) ≠ c := hexDigit_ne hdigit (by omega)
      have hlow : hexDigit (ch.toNat % 16) ≠ c := hexDigit_ne hdigit (by omega)
      rw [quoteChar_of_quoted hquoted] at h hrest
      cases a with
      | nil => exact absurd (List.cons.inj h).1.symm hpercent
      | cons x a =>
        cases a with
        | nil => exact absurd (List.cons.inj (List.cons.inj h).2).1 hhigh
        | cons y a =>
          cases a with
          | nil => exact absurd (List.cons.inj (List.cons.inj (List.cons.inj h).2).2).1 hlow
          | cons z a =>
            obtain ⟨hx, htail⟩ := List.cons.inj h
            obtain ⟨hy, htail⟩ := List.cons.inj htail
            obtain ⟨hz, htail⟩ := List.cons.inj htail
            apply hrest a _ htail
            rw [← hx, ← hy, ← hz]
            rfl
    | false =>
      rw [quoteChar_of_kept hquoted] at h hrest
      cases a with
      | nil =>
        obtain ⟨hch, htail⟩ := List.cons.inj h
        exact ⟨[], s, by rw [hch]; rfl, rfl, htail⟩
      | cons d a =>
        obtain ⟨hch, htail⟩ := List.cons.inj h
        apply hrest a _ htail
        rw [hch]
        rfl

end URIEncoderDecoder

end ActiveMQCpp.Decaf
