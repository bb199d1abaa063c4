import ActiveMQCpp.DecafNaturalOrder
import ActiveMQCpp.DecafURIReference

/-! `URI::equalsHexCaseInsensitive` goes through two strings from escape to escape, and equals them up to the case of the
two digits of each. -/

namespace ActiveMQCpp.Decaf

open Codec Character URIEncoderDecoder URIHelper StringUtils List

def Character.toLowerCase (c : UInt8) : UInt8 := if 65 ≤ c.toNat ∧ c.toNat ≤ 90 then c + 32 else c

namespace URI

variable {c : UInt8} {s : ByteString}
variable {t : ByteString}

/-- `s.substr(pos, n)`: there is none when the string ends before `pos`. -/
def substr (s : ByteString) (pos n : Nat) : Option ByteString := if pos ≤ s.length then some ((s.drop pos).take n) else none

def equalRests (first second : ByteString) (previndex : Nat) : Option Bool := do
  let a ← substr first previndex first.length
  let b ← substr second previndex second.length
  some (decide (a = b))

/-- The loop: the characters before the next escape, and the three behind its `%`, the last of which is compared again. -/
def equalsHexFrom (first second : ByteString) (previndex : Nat) : Option Bool :=
  match _hfind : find 37 first previndex with
  | some index =>
    if find 37 second previndex = some index then do
      let a ← substr first previndex (index - previndex)
      let b ← substr second previndex (index - previndex)
      if a = b then do
        let c ← substr first (index + 1) 3
        let d ← substr second (index + 1) 3
        if compareIgnoreCase c d = 0 then equalsHexFrom first second (index + 3) else some false
      else some false
    else equalRests first second previndex
  | none => equalRests first second previndex
termination_by first.length - previndex
decreasing_by
  rw [find, Option.map_eq_some_iff] at _hfind
  obtain ⟨i, hi, rfl⟩ := _hfind
  have hlt := (List.findIdx?_eq_some_iff_findIdx_eq.mp hi).1
  rw [List.length_drop] at hlt
  omega

def equalsHexCaseInsensitive (first second : ByteString) : Option Bool :=
  if find 37 first 0 ≠ find 37 second 0 then some (decide (StringUtils.compare first second = 0))
  else equalsHexFrom first second 0

/-! ### Up to the case of the escapes -/

/-- The digits of the escapes in lower case. -/
def lowerHex : ByteString → ByteString
  | [] => []
  | c :: rest =>
    if c = 37 then
      match rest with
      | d1 :: d2 :: rest => c :: toLowerCase d1 :: toLowerCase d2 :: lowerHex rest
      | rest => c :: rest
    else c :: lowerHex rest

/-- Each `%` begins an escape, and white space and zero only stand there as escapes. -/
structure Encoded (s : ByteString) : Prop where
  escapes : ∃ t, Decodes s t
  plain : Plain s

theorem lowerHex_char (hne : c ≠ 37) (s : ByteString) : lowerHex (c :: s) = c :: lowerHex s := by
  rw [lowerHex.eq_def]
  simp only [if_neg hne]

theorem lowerHex_escape (d1 d2 : UInt8) (s : ByteString) :
    lowerHex (37 :: d1 :: d2 :: s) = 37 :: toLowerCase d1 :: toLowerCase d2 :: lowerHex s := rfl

theorem lowerHex_append {x : ByteString} (hx : 37 ∉ x) (s : ByteString) : lowerHex (x ++ s) = x ++ lowerHex s := by
  induction x with
  | nil => rfl
  | cons c x ih =>
    rw [mem_cons, not_or] at hx
    rw [cons_append, cons_append, lowerHex_char (Ne.symm hx.1), ih hx.2]

theorem lowerHex_of_not_mem (h : 37 ∉ s) : lowerHex s = s := by
  have happend := lowerHex_append h []
  rwa [append_nil, lowerHex, append_nil] at happend

theorem escape_cases (h : Decodes s t) :
    37 ∉ s ∨ ∃ x d1 d2 r t', 37 ∉ x ∧ s = x ++ 37 :: d1 :: d2 :: r ∧ Decodes r t' := by
  induction h with
  | nil => exact .inl not_mem_nil
  | @char c s t hne _ ih =>
    rcases ih with hnone | ⟨x, d1, d2, r, t', hx, rfl, hr⟩
    · exact .inl (not_mem_cons_of_ne_of_not_mem hne.symm hnone)
    · exact .inr ⟨c :: x, d1, d2, r, t', not_mem_cons_of_ne_of_not_mem hne.symm hx, rfl, hr⟩
  | @escape d1 d2 s t _ _ hrest _ => exact .inr ⟨[], d1, d2, s, t, not_mem_nil, rfl, hrest⟩

theorem find_lowerHex (h : Decodes s t) : find 37 (lowerHex s) 0 = find 37 s 0 := by
  rcases escape_cases h with hnone | ⟨x, d1, d2, r, t', hx, rfl, hr⟩
  · rw [lowerHex_of_not_mem hnone]
  · rw [lowerHex_append hx, lowerHex_escape, find_append hx, find_append hx]

theorem take_lowerHex (s : ByteString) : (lowerHex s).take 1 = s.take 1 := by
  rw [lowerHex.eq_def]
  split
  · rfl
  · split_ifs
    · split <;> rfl
    · rfl

theorem toNat_toUpperCase (c : UInt8) :
    (toUpperCase c).toNat = if 97 ≤ c.toNat ∧ c.toNat ≤ 122 then c.toNat - 32 else c.toNat := by
  rw [toUpperCase]
  split_ifs with hlower
  · exact UInt8.toNat_sub_of_le _ _ (UInt8.le_iff_toNat_le.mpr (by simp; omega))
  · rfl

theorem toNat_toLowerCase (c : UInt8) :
    (toLowerCase c).toNat = if 65 ≤ c.toNat ∧ c.toNat ≤ 90 then c.toNat + 32 else c.toNat := by
  rw [toLowerCase]
  split_ifs with hupper
  · rw [UInt8.toNat_add]
    show (c.toNat + 32) % 256 = _
    omega
  · rfl

theorem toUpperCase_eq_iff {d : UInt8} : toUpperCase c = toUpperCase d ↔ toLowerCase c = toLowerCase d := by
  rw [← UInt8.toNat_inj, ← UInt8.toNat_inj, toNat_toUpperCase, toNat_toUpperCase, toNat_toLowerCase, toNat_toLowerCase]
  split_ifs <;> omega

/-! ### The loop -/

section Loop

variable {first second : ByteString} {pos : Nat} {u v t t' : ByteString}
variable {s : ByteString}
variable {d1 d2 : UInt8} {r : ByteString}

theorem equalRests_eq (hfirst : pos ≤ first.length) (hsecond : pos ≤ second.length) :
    equalRests first second pos = some (decide (first.drop pos = second.drop pos)) := by
  have htake (s : ByteString) : (s.drop pos).take s.length = s.drop pos :=
    take_of_length_le (by rw [length_drop]; omega)
  rw [equalRests, substr, substr, if_pos hfirst, if_pos hsecond, htake, htake]
  rfl

theorem ne_of_find_ne (hu : Decodes u t) (hv : Decodes v t') (h : find 37 u 0 ≠ find 37 v 0) :
    u ≠ v ∧ lowerHex u ≠ lowerHex v := by
  refine ⟨fun heq => h (by rw [heq]), fun heq => h ?_⟩
  rw [← find_lowerHex hu, heq, find_lowerHex hv]

theorem plain_of_drop (h : Plain s) (n m : Nat) : Plain ((s.drop n).take m) :=
  fun c hc => h c (mem_of_mem_drop (mem_of_mem_take hc))

theorem lowerHex_of_slices {e1 e2 : UInt8} (hrest : lowerHex r = lowerHex s) :
    ((d1 :: d2 :: r).take 3).map toUpperCase = ((e1 :: e2 :: s).take 3).map toUpperCase ↔
      toLowerCase d1 = toLowerCase e1 ∧ toLowerCase d2 = toLowerCase e2 := by
  have htake : r.take 1 = s.take 1 := by rw [← take_lowerHex, hrest, take_lowerHex]
  rw [take_succ_cons, take_succ_cons, take_succ_cons, take_succ_cons, htake]
  simp only [map_cons, List.cons.injEq, and_true, toUpperCase_eq_iff]

theorem equalsHexFrom_of_none (h : find 37 first pos = none) : equalsHexFrom first second pos = equalRests first second pos := by
  rw [equalsHexFrom]
  split
  · rename_i index hfind
    rw [h] at hfind
    cases hfind
  · rfl

theorem equalsHexFrom_of_ne (h : find 37 (first.drop pos) 0 ≠ find 37 (second.drop pos) 0) :
    equalsHexFrom first second pos = equalRests first second pos := by
  rw [equalsHexFrom]
  split
  · rename_i index hfind
    rw [if_neg fun hsecond => h ?_]
    rw [find_drop, Option.map_eq_some_iff] at hfind hsecond
    obtain ⟨i, hi, rfl⟩ := hfind
    obtain ⟨j, hj, hij⟩ := hsecond
    rw [hi, hj, Nat.add_left_cancel hij]
  · rfl

theorem drop_escape {x : ByteString} (h : s.drop pos = x ++ 37 :: d1 :: d2 :: r) :
    pos + x.length + 3 ≤ s.length ∧ (s.drop pos).take x.length = x ∧ s.drop (pos + x.length + 1) = d1 :: d2 :: r ∧
      s.drop (pos + x.length + 3) = r := by
  have hlength := congrArg List.length h
  rw [length_drop, length_append, length_cons, length_cons, length_cons] at hlength
  have hdrop : s.drop (pos + x.length) = 37 :: d1 :: d2 :: r := by rw [← drop_drop, h, drop_left]
  refine ⟨by omega, by rw [h, take_left], ?_, ?_⟩
  · rw [← drop_drop, hdrop]
    rfl
  · rw [← drop_drop, hdrop]
    rfl

theorem equalsHexFrom_of_some {index : Nat} (h : find 37 first pos = some index) (h' : find 37 second pos = some index)
    (hfirst : index + 1 ≤ first.length) (hsecond : index + 1 ≤ second.length) (hpos : pos ≤ index) :
    equalsHexFrom first second pos =
      if (first.drop pos).take (index - pos) = (second.drop pos).take (index - pos) then
        if compareIgnoreCase ((first.drop (index + 1)).take 3) ((second.drop (index + 1)).take 3) = 0 then
          equalsHexFrom first second (index + 3)
        else some false
      else some false := by
  rw [equalsHexFrom]
  split
  · rename_i index' hfind
    obtain rfl := Option.some.inj (h.symm.trans hfind)
    simp only [h', if_true, substr, if_pos hfirst, if_pos hsecond, if_pos (show pos ≤ first.length by omega),
      if_pos (show pos ≤ second.length by omega)]
    rfl
  · rename_i hfind
    rw [h] at hfind
    cases hfind

theorem equalsHexFrom_eq (hfirst : pos ≤ first.length) (hsecond : pos ≤ second.length) (hplain : Plain first)
    (hplain' : Plain second) (hu : Decodes (first.drop pos) t) (hv : Decodes (second.drop pos) t') :
    equalsHexFrom first second pos = some (decide (lowerHex (first.drop pos) = lowerHex (second.drop pos))) := by
  induction hn : first.length - pos using Nat.strong_induction_on generalizing pos t t' with
  | _ n ih =>
    by_cases hfind : find 37 (first.drop pos) 0 = find 37 (second.drop pos) 0
    · rcases escape_cases hu with hnone | ⟨x, d1, d2, r, w, hx, hxu, hr⟩
      · have hnone' : 37 ∉ second.drop pos := by
          rcases escape_cases hv with hnone' | ⟨y, e1, e2, q, w, hy, hyv, -⟩
          · exact hnone'
          · rw [find_none hnone, hyv, find_append hy] at hfind
            cases hfind
        rw [equalsHexFrom_of_none (by rw [find_drop, find_none hnone]; rfl), equalRests_eq hfirst hsecond,
          lowerHex_of_not_mem hnone, lowerHex_of_not_mem hnone']
      · obtain ⟨y, e1, e2, q, w', hy, hyv, hq⟩ := (escape_cases hv).resolve_left fun hnone => by
          rw [hxu, find_append hx, find_none hnone] at hfind
          cases hfind
        have hlength : x.length = y.length := by
          rw [hxu, hyv, find_append hx, find_append hy] at hfind
          exact Option.some.inj hfind
        obtain ⟨hlong, htake, hdigits, hrest⟩ := drop_escape hxu
        obtain ⟨hlong', htake', hdigits', hrest'⟩ := drop_escape hyv
        rw [← hlength] at hlong' htake' hdigits' hrest'
        have hindex : find 37 first pos = some (pos + x.length) := by
          rw [find_drop, hxu, find_append hx]
          rfl
        have hindex' : find 37 second pos = some (pos + x.length) := by
          rw [find_drop, hyv, find_append hy, hlength]
          rfl
        rw [equalsHexFrom_of_some hindex hindex' (by omega) (by omega) (by omega), Nat.add_sub_cancel_left, htake, htake',
          hxu, hyv, lowerHex_append hx, lowerHex_append hy, lowerHex_escape, lowerHex_escape]
        by_cases hxy : x = y
        · subst hxy
          have hstep := ih (first.length - (pos + x.length + 3)) (by omega) hlong hlong' (hrest ▸ hr) (hrest' ▸ hq) rfl
          have hthree := plain_of_drop hplain (pos + x.length + 1) 3
          have hthree' := plain_of_drop hplain' (pos + x.length + 1) 3
          rw [hdigits] at hthree
          rw [hdigits'] at hthree'
          rw [hrest, hrest'] at hstep
          rw [if_pos rfl, hdigits, hdigits', hstep]
          simp only [compareIgnoreCase_eq_zero hthree hthree', append_cancel_left_eq, List.cons.injEq, true_and]
          by_cases hrests : lowerHex r = lowerHex q
          · simp only [lowerHex_of_slices hrests, hrests, decide_true, and_true]
            split_ifs with hdigits
            · rw [decide_eq_true hdigits]
            · rw [decide_eq_false hdigits]
          · simp only [hrests, and_false, decide_false, ite_self]
        · have hne : x ++ 37 :: toLowerCase d1 :: toLowerCase d2 :: lowerHex r ≠
              y ++ 37 :: toLowerCase e1 :: toLowerCase e2 :: lowerHex q :=
            fun h => hxy (append_inj_left h hlength)
          rw [if_neg hxy, decide_eq_false hne]
    · have hne := ne_of_find_ne hu hv hfind
      rw [equalsHexFrom_of_ne hfind, equalRests_eq hfirst hsecond, decide_eq_false hne.1, decide_eq_false hne.2]

end Loop

/-- The comparison never reads behind the end, and it equals the strings up to the case of the digits of the escapes. -/
theorem equalsHexCaseInsensitive_eq {a b : ByteString} (ha : Encoded a) (hb : Encoded b) :
    equalsHexCaseInsensitive a b = some (decide (lowerHex a = lowerHex b)) := by
  obtain ⟨t, ht⟩ := ha.escapes
  obtain ⟨t', ht'⟩ := hb.escapes
  rw [equalsHexCaseInsensitive]
  by_cases hfind : find 37 a 0 = find 37 b 0
  · rw [if_neg (not_not.mpr hfind)]
    exact equalsHexFrom_eq (Nat.zero_le _) (Nat.zero_le _) ha.plain hb.plain ht ht'
  · have hne := ne_of_find_ne ht ht' hfind
    rw [if_pos hfind, decide_eq_false hne.2, decide_eq_false fun h => hne.1 (eq_of_compare ha.plain hb.plain h)]

/-- On the percent-encoded strings this is an equivalence, and it always has an answer. -/
theorem equalsHex_equivalence :
    (∀ a b : {s // Encoded s}, equalsHexCaseInsensitive a b = some (decide (lowerHex a = lowerHex b))) ∧
      Equivalence fun a b : {s // Encoded s} => equalsHexCaseInsensitive a b = some true := by
  have heq (a b : {s // Encoded s}) := equalsHexCaseInsensitive_eq a.2 b.2
  refine ⟨heq, fun a => ?_, fun {a b} h => ?_, fun {a b c} hab hbc => ?_⟩
  · rw [heq, decide_eq_true rfl]
  · rw [heq, Option.some.injEq, decide_eq_true_eq] at h ⊢
    exact h.symm
  · rw [heq, Option.some.injEq, decide_eq_true_eq] at hab hbc ⊢
    exact hab.trans hbc

theorem plain_of_lt (h : 32 < c.toNat) : isWhitespace c = false ∧ c ≠ 0 := by
  have hne (d : UInt8) (hd : d.toNat ≤ 32) : (c == d) = false := beq_false_of_ne fun heq => by subst heq; omega
  refine ⟨?_, fun hzero => by subst hzero; exact absurd h (by decide)⟩
  rw [isWhitespace, hne 10 (by decide), hne 9 (by decide), hne 13 (by decide), hne 12 (by decide), hne 32 (by decide)]
  rfl

theorem encoded_of_legal {legal : ByteString} (hlegal : Plain legal) (h : Legal legal s) : Encoded s := by
  have hdigit : ∀ {d : UInt8}, digit d 16 ≠ -1 → isWhitespace d = false ∧ d ≠ 0 := by
    intro d hd
    apply plain_of_lt
    rw [digit] at hd
    split_ifs at hd <;> omega
  refine ⟨?_, ?_⟩
  · induction h with
    | nil => exact ⟨[], .nil⟩
    | char hne _ _ ih =>
      obtain ⟨t, ht⟩ := ih
      exact ⟨_, .char hne ht⟩
    | escape hd1 hd2 _ ih =>
      obtain ⟨t, ht⟩ := ih
      exact ⟨_, .escape hd1 hd2 ht⟩
  · induction h with
    | nil => exact fun c hc => absurd hc not_mem_nil
    | @char ch s hne hpasses _ ih =>
      refine forall_mem_cons.mpr ⟨?_, ih⟩
      simp only [passes, Bool.or_eq_true, contains_iff_mem] at hpasses
      rcases hpasses with (hletter | hmem) | hhigh
      · apply plain_of_lt
        simp only [isLetterOrDigit, isLetter, Bool.or_eq_true, Bool.and_eq_true, decide_eq_true_eq, isDigit_iff] at hletter
        omega
      · exact hlegal ch hmem
      · apply plain_of_lt
        simp only [Bool.and_eq_true, decide_eq_true_eq] at hhigh
        omega
    | escape hd1 hd2 _ ih =>
      refine forall_mem_cons.mpr ⟨by decide, forall_mem_cons.mpr ⟨hdigit hd1, ?_⟩⟩
      exact forall_mem_cons.mpr ⟨hdigit hd2, ih⟩

end URI

end ActiveMQCpp.Decaf
