import ActiveMQCpp.DecafDataStream
import ActiveMQCpp.LibWords

/-! `StringTokenizer`: the tokens of a string are its words with respect to the delimiters. -/

namespace ActiveMQCpp.Decaf

open Codec Words List

/-- `std::string::find_first_of`; `npos` is `none`, and a search from there finds nothing. -/
def findFirstOf (str set : ByteString) (pos : Option Nat) : Option Nat :=
  pos.bind fun p => ((str.drop p).findIdx? fun c => set.contains c).map (p + ·)

def findFirstNotOf (str set : ByteString) (pos : Option Nat) : Option Nat :=
  pos.bind fun p => ((str.drop p).findIdx? fun c => !set.contains c).map (p + ·)

def suffix (str : ByteString) : Option Nat → ByteString
  | some p => str.drop p
  | none => []

theorem findIdx?_eq_dropWhile {α : Type} (q : α → Bool) (s : List α) :
    s.findIdx? q = if s.dropWhile (fun c => !q c) = [] then none else some (s.takeWhile fun c => !q c).length := by
  induction s with
  | nil => rfl
  | cons c s ih =>
    rw [List.findIdx?_cons, dropWhile_cons, takeWhile_cons]
    cases hc : q c with
    | true => rfl
    | false =>
      rw [ih]
      simp only [Bool.not_false, if_true, Bool.false_eq_true, if_false]
      split_ifs <;> rfl

theorem find_cases {str : ByteString} (q : UInt8 → Bool) (p : Nat) {found : Option Nat}
    (hfound : found = ((str.drop p).findIdx? q).map (p + ·)) :
    found = none ∧ (str.drop p).dropWhile (fun c => !q c) = [] ∨
    ∃ k, found = some k ∧ p ≤ k ∧ k < str.length ∧ str.drop k = (str.drop p).dropWhile (fun c => !q c) ∧
      k = p + ((str.drop p).takeWhile fun c => !q c).length := by
  rw [findIdx?_eq_dropWhile] at hfound
  split_ifs at hfound with hnil
  · exact .inl ⟨hfound, hnil⟩
  · have hdrop : str.drop (p + ((str.drop p).takeWhile fun c => !q c).length)
        = (str.drop p).dropWhile (fun c => !q c) := by
      rw [← drop_drop]
      calc (str.drop p).drop ((str.drop p).takeWhile fun c => !q c).length
          = (((str.drop p).takeWhile fun c => !q c) ++ (str.drop p).dropWhile fun c => !q c).drop
              ((str.drop p).takeWhile fun c => !q c).length := by rw [takeWhile_append_dropWhile]
        _ = (str.drop p).dropWhile fun c => !q c := drop_left
    refine .inr ⟨_, hfound, Nat.le_add_right _ _, ?_, hdrop, rfl⟩
    by_contra hge
    exact hnil (hdrop.symm.trans (drop_eq_nil_of_le (not_lt.mp hge)))

namespace Text

structure StringTokenizer where
  str : ByteString
  delim : ByteString
  pos : Option Nat := some 0
  returnDelims : Bool := false

namespace StringTokenizer

variable {t : StringTokenizer}
variable {t' : StringTokenizer} {w : ByteString}

/-- The byte at a position is a delimiter that counts as a token. -/
def atDelim (t : StringTokenizer) (pos : Nat) : Bool :=
  t.returnDelims && decide (findFirstOf t.str t.delim (some pos) = some pos)

/-- How much of the string is left, one more than its bytes while there is a position. -/
def left (t : StringTokenizer) (pos : Option Nat) : Nat :=
  match pos with
  | some p => t.str.length + 1 - p
  | none => 0

theorem atDelim_lt {p : Nat} (h : t.atDelim p = true) : p < t.str.length := by
  have hfound := of_decide_eq_true (Bool.and_eq_true_iff.mp h).2
  rcases find_cases (fun c => t.delim.contains c) p (rfl : findFirstOf t.str t.delim (some p) = _) with
    ⟨hnone, -⟩ | ⟨k, hk, -, hlt, -⟩
  · rw [hnone] at hfound
    cases hfound
  · rw [hk] at hfound
    cases hfound
    exact hlt

def isDelim (t : StringTokenizer) (c : UInt8) : Bool := t.delim.contains c

/-- The token between two positions; `npos` is the end of the string. -/
def token (t : StringTokenizer) (start : Nat) : Option Nat → ByteString
  | some stop => (t.str.drop start).take (stop - start)
  | none => t.str.drop start

theorem token_eq (t : StringTokenizer) (k : Nat) :
    t.token k (findFirstOf t.str t.delim (some k)) = (t.str.drop k).takeWhile (fun c => !t.isDelim c) ∧
      suffix t.str (findFirstOf t.str t.delim (some k)) = (t.str.drop k).dropWhile fun c => !t.isDelim c := by
  have hall := takeWhile_append_dropWhile (p := fun c => !t.isDelim c) (l := t.str.drop k)
  rcases find_cases t.isDelim k (rfl : findFirstOf t.str t.delim (some k) = _) with
    ⟨hstop, hnil⟩ | ⟨q, hstop, -, -, hrest, hlen⟩
  · rw [hnil, append_nil] at hall
    rw [hstop, hnil, hall]
    exact ⟨rfl, rfl⟩
  · have htake : (t.str.drop k).take (q - k) = (t.str.drop k).takeWhile fun c => !t.isDelim c := by
      conv_lhs => rw [← hall]
      rw [hlen, Nat.add_sub_cancel_left, take_left']
      rfl
    rw [hstop]
    exact ⟨htake, hrest⟩

theorem find_token (t : StringTokenizer) (p : Nat) :
    findFirstNotOf t.str t.delim (some p) = none ∧ words t.isDelim (t.str.drop p) = [] ∨
    ∃ k, findFirstNotOf t.str t.delim (some p) = some k ∧
      t.left (findFirstOf t.str t.delim (some k)) < t.left (some p) ∧
      words t.isDelim (t.str.drop p) = t.token k (findFirstOf t.str t.delim (some k)) ::
        words t.isDelim (suffix t.str (findFirstOf t.str t.delim (some k))) := by
  rcases find_cases (fun c => !t.isDelim c) p (rfl : findFirstNotOf t.str t.delim (some p) = _) with
    ⟨hnone, hnil⟩ | ⟨k, hk, hpk, hlt, hdrop, -⟩
  · simp only [Bool.not_not] at hnil
    exact .inl ⟨hnone, by rw [← words_dropWhile, hnil, words_nil]⟩
  · simp only [Bool.not_not] at hdrop
    have hhead : t.isDelim t.str[k] = false := by
      have hne : (t.str.drop p).dropWhile t.isDelim ≠ [] := by
        rw [← hdrop, drop_eq_getElem_cons hlt]
        exact cons_ne_nil _ _
      have hnot := head_dropWhile_not t.isDelim hne
      simpa [← hdrop] using hnot
    refine .inr ⟨k, hk, ?_, ?_⟩
    · rcases find_cases t.isDelim k (rfl : findFirstOf t.str t.delim (some k) = _) with
        ⟨hstop, -⟩ | ⟨q, hstop, -, hq, hrest, hlen⟩
      · rw [hstop, left, left]
        omega
      · have hkq : k < q := by
          rw [hlen, drop_eq_getElem_cons hlt, takeWhile_cons, hhead]
          simp
        rw [hstop, left, left]
        omega
    · rw [← words_dropWhile, ← hdrop]
      have hwords := words_eq_cons (s := t.str.drop (k + 1)) hhead
      rw [← drop_eq_getElem_cons hlt] at hwords
      rw [hwords, (t.token_eq k).1, (t.token_eq k).2]

def countFrom (t : StringTokenizer) (pos : Option Nat) : Nat :=
  match pos with
  | none => 0
  | some p =>
    if h : t.atDelim p = true then countFrom t (some (p + 1)) + 1
    else
      match hk : findFirstNotOf t.str t.delim (some p) with
      | some k => countFrom t (findFirstOf t.str t.delim (some k)) + 1
      | none => 0
termination_by t.left pos
decreasing_by
  · have hlt := atDelim_lt h
    simp only [left]
    omega
  · rcases t.find_token p with ⟨hnone, -⟩ | ⟨k', hk', hlt, -⟩
    · rw [hnone] at hk
      cases hk
    · rw [hk'] at hk
      cases hk
      exact hlt

def countTokens (t : StringTokenizer) : Nat := countFrom t t.pos

def hasMoreTokens (t : StringTokenizer) : Bool :=
  (if t.returnDelims then findFirstOf t.str t.delim t.pos else findFirstNotOf t.str t.delim t.pos).isSome

def noMoreTokens : Failure :=
  .thrown .noSuchElementException "StringTokenizer::nextToken - No more Tokens available"

def nextToken (t : StringTokenizer) : EStateM.Result Failure StringTokenizer ByteString :=
  match t.pos with
  | none => .error noMoreTokens t
  | some p =>
    if t.atDelim p then .ok ((t.str.drop p).take 1) { t with pos := some (p + 1) }
    else
      match findFirstNotOf t.str t.delim (some p) with
      | some k =>
        .ok (t.token k (findFirstOf t.str t.delim (some k))) { t with pos := findFirstOf t.str t.delim (some k) }
      | none => .error noMoreTokens { t with pos := none }

theorem nextToken_left (h : t.nextToken = .ok w t') : t'.left t'.pos < t.left t.pos := by
  unfold nextToken at h
  cases hpos : t.pos with
  | none =>
    rw [hpos] at h
    cases h
  | some p =>
    rw [hpos] at h
    dsimp only at h
    split_ifs at h with hdelim
    · have hlt := atDelim_lt hdelim
      cases h
      simp only [left]
      omega
    · rcases t.find_token p with ⟨hnone, -⟩ | ⟨k, hk, hlt, -⟩
      · rw [hnone] at h
        cases h
      · rw [hk] at h
        cases h
        exact hlt

def toArray (t : StringTokenizer) : EStateM.Result Failure StringTokenizer (List ByteString) :=
  if t.hasMoreTokens then
    match _hnext : t.nextToken with
    | .ok w t' =>
      match toArray t' with
      | .ok ws t'' => .ok (w :: ws) t''
      | .error e t'' => .error e t''
    | .error e t' => .error e t'
  else .ok [] t
termination_by t.left t.pos
decreasing_by exact nextToken_left _hnext

/-- An empty string or set of delimiters leaves the old one. -/
def reset (t : StringTokenizer) (str delim : ByteString) (returnDelims : Bool) : StringTokenizer :=
  { str := if str = [] then t.str else str, delim := if delim = [] then t.delim else delim, returnDelims }

/-! ### The tokens -/

def tokens (t : StringTokenizer) : List ByteString := words t.isDelim (suffix t.str t.pos)

theorem atDelim_of_plain (h : t.returnDelims = false) (p : Nat) : t.atDelim p = false := by
  rw [atDelim, h, Bool.false_and]

theorem countFrom_eq (h : t.returnDelims = false) (pos : Option Nat) :
    t.countFrom pos = (words t.isDelim (suffix t.str pos)).length := by
  induction hn : t.left pos using Nat.strong_induction_on generalizing pos with
  | _ n ih =>
    cases pos with
    | none =>
      rw [countFrom]
      rfl
    | some p =>
      rw [countFrom]
      rw [dif_neg (by rw [atDelim_of_plain h]; exact Bool.false_ne_true)]
      rcases t.find_token p with ⟨hnone, hwords⟩ | ⟨k, hk, hlt, hwords⟩
      · rw [suffix, hwords]
        split
        · next hk => rw [hnone] at hk; cases hk
        · rfl
      · rw [suffix, hwords, length_cons]
        split
        · next k' hk' =>
            rw [hk] at hk'
            cases hk'
            rw [ih _ (hn ▸ hlt) _ rfl]
        · next hnone => rw [hk] at hnone; cases hnone

theorem countTokens_eq (h : t.returnDelims = false) : t.countTokens = t.tokens.length :=
  countFrom_eq h t.pos

theorem nextToken_cases (h : t.returnDelims = false) :
    (t.hasMoreTokens = false ∧ t.tokens = [] ∧ ∃ t', t.nextToken = .error noMoreTokens t' ∧ t'.tokens = []) ∨
    ∃ w t', t.hasMoreTokens = true ∧ t.nextToken = .ok w t' ∧ t'.returnDelims = false ∧ t.tokens = w :: t'.tokens := by
  rw [hasMoreTokens, h, nextToken, tokens, if_neg Bool.false_ne_true]
  cases hpos : t.pos with
  | none => exact .inl ⟨rfl, rfl, t, rfl, by rw [tokens, hpos]; rfl⟩
  | some p =>
    dsimp only
    rw [atDelim_of_plain h, if_neg Bool.false_ne_true]
    rcases t.find_token p with ⟨hnone, hwords⟩ | ⟨k, hk, -, hwords⟩
    · rw [hnone]
      exact .inl ⟨rfl, hwords, _, rfl, rfl⟩
    · rw [hk]
      exact .inr ⟨_, _, rfl, rfl, h, hwords⟩

theorem nextToken_suffix (h : t.returnDelims = false) (hnext : t.nextToken = .ok w t') :
    t'.str = t.str ∧ suffix t'.str t'.pos =
      ((suffix t.str t.pos).dropWhile t.isDelim).dropWhile fun c => !t.isDelim c := by
  rw [nextToken] at hnext
  cases hpos : t.pos with
  | none =>
    rw [hpos] at hnext
    cases hnext
  | some p =>
    rw [hpos] at hnext
    dsimp only at hnext
    rw [atDelim_of_plain h, if_neg Bool.false_ne_true] at hnext
    rcases find_cases (fun c => !t.isDelim c) p (rfl : findFirstNotOf t.str t.delim (some p) = _) with
      ⟨hnone, -⟩ | ⟨k, hk, -, -, hdrop, -⟩
    · rw [hnone] at hnext
      cases hnext
    · rw [hk] at hnext
      cases hnext
      simp only [Bool.not_not] at hdrop
      refine ⟨rfl, ?_⟩
      rw [suffix, ← hdrop]
      exact (t.token_eq k).2

theorem toArray_eq (h : t.returnDelims = false) : ∃ t', t.toArray = .ok t.tokens t' := by
  induction hn : t.left t.pos using Nat.strong_induction_on generalizing t with
  | _ n ih =>
    rw [toArray]
    rcases nextToken_cases h with ⟨hmore, hnil, -⟩ | ⟨w, t', hmore, hnext, hplain, hcons⟩
    · rw [hmore, hnil]
      exact ⟨t, rfl⟩
    · obtain ⟨t'', ht''⟩ := ih _ (hn ▸ nextToken_left hnext) hplain rfl
      refine ⟨t'', ?_⟩
      rw [hmore, if_pos rfl, hcons]
      split
      · next w' u hu =>
          rw [hnext] at hu
          cases hu
          rw [ht'']
      · next hu => rw [hnext] at hu; cases hu

theorem tokens_mk (str delim : ByteString) (returnDelims : Bool) :
    (StringTokenizer.mk str delim (some 0) returnDelims).tokens = words (fun c => delim.contains c) str := rfl

end StringTokenizer

end Text

end ActiveMQCpp.Decaf
