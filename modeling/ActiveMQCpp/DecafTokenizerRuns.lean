import ActiveMQCpp.DecafStringTokenizer

/-! What all the calls of `nextToken` return, with and without the delimiters, from any position on. -/

namespace ActiveMQCpp.Decaf.Text

open Words

namespace StringTokenizer

variable {t : StringTokenizer} {p : Nat}
variable {k : Nat}

def nextTokenWith (t : StringTokenizer) (delim : ByteString) : EStateM.Result Failure StringTokenizer ByteString :=
  nextToken { t with delim }

/-- What the calls of `nextToken` return until one throws. -/
def drain (t : StringTokenizer) : List ByteString :=
  match _hnext : t.nextToken with
  | .ok w t' => w :: drain t'
  | .error _ _ => []
termination_by t.left t.pos
decreasing_by exact nextToken_left _hnext

/-- What is to be returned from a position on. -/
def partsFrom (t : StringTokenizer) (pos : Option Nat) : List ByteString :=
  if t.returnDelims then segments t.isDelim (suffix t.str pos) else words t.isDelim (suffix t.str pos)

theorem partsFrom_none (t : StringTokenizer) : t.partsFrom none = [] := by
  simp [partsFrom, suffix]

theorem atDelim_iff :
    t.atDelim p = true ↔ t.returnDelims = true ∧ ∃ c rest, t.str.drop p = c :: rest ∧ t.isDelim c = true := by
  rw [atDelim, Bool.and_eq_true, decide_eq_true_eq]
  apply and_congr_right
  intro _
  rw [findFirstOf, Option.bind_some]
  cases hrest : t.str.drop p with
  | nil => simp
  | cons c rest =>
    cases hc : t.isDelim c with
    | true =>
      have hmem : c ∈ t.delim := by simpa [isDelim] using hc
      simp [List.findIdx?_cons, hmem, hc]
    | false =>
      simp only [List.findIdx?_cons, show t.delim.contains c = false from hc]
      simp [hc]

theorem partsFrom_delim (h : t.atDelim p = true) :
    t.partsFrom (some p) = (t.str.drop p).take 1 :: t.partsFrom (some (p + 1)) := by
  obtain ⟨hreturn, c, rest, hdrop, hc⟩ := atDelim_iff.mp h
  have hnext : t.str.drop (p + 1) = rest := by
    rw [← List.drop_drop, hdrop, List.drop_one, List.tail_cons]
  simp [partsFrom, hreturn, suffix, hdrop, hnext, segments_cons_sep hc]

theorem find_here (hreturn : t.returnDelims = true) (h : t.atDelim p = false)
    (hk : findFirstNotOf t.str t.delim (some p) = some k) :
    k = p ∧ ∃ c rest, t.str.drop p = c :: rest ∧ t.isDelim c = false := by
  rw [findFirstNotOf, Option.bind_some, Option.map_eq_some_iff] at hk
  obtain ⟨j, hj, rfl⟩ := hk
  cases hdrop : t.str.drop p with
  | nil =>
    rw [hdrop] at hj
    cases hj
  | cons c rest =>
    have hc : t.isDelim c = false := by
      by_contra hc
      rw [Bool.not_eq_false] at hc
      rw [atDelim_iff.mpr ⟨hreturn, c, rest, hdrop, hc⟩] at h
      cases h
    have hnot : (!t.delim.contains c) = true := by
      rw [Bool.not_eq_true']
      exact hc
    rw [hdrop, List.findIdx?_cons, if_pos hnot] at hj
    cases hj
    exact ⟨rfl, c, rest, rfl, hc⟩

theorem find_nothing (hreturn : t.returnDelims = true) (h : t.atDelim p = false)
    (hnone : findFirstNotOf t.str t.delim (some p) = none) : t.str.drop p = [] := by
  cases hdrop : t.str.drop p with
  | nil => rfl
  | cons c rest =>
    rw [findFirstNotOf, Option.bind_some, Option.map_eq_none_iff, List.findIdx?_eq_none_iff, hdrop] at hnone
    have hc : t.isDelim c = true := by simpa [isDelim] using hnone c List.mem_cons_self
    rw [atDelim_iff.mpr ⟨hreturn, c, rest, hdrop, hc⟩] at h
    cases h

theorem partsFrom_nothing (h : t.atDelim p = false)
    (hnone : findFirstNotOf t.str t.delim (some p) = none) : t.partsFrom (some p) = [] := by
  rw [partsFrom]
  split_ifs with hreturn
  · rw [suffix, find_nothing hreturn h hnone, segments_nil]
  · rcases t.find_token p with ⟨-, hwords⟩ | ⟨k, hk, -⟩
    · exact hwords
    · rw [hnone] at hk
      cases hk

theorem partsFrom_token (h : t.atDelim p = false) (hk : findFirstNotOf t.str t.delim (some p) = some k) :
    t.partsFrom (some p) =
      t.token k (findFirstOf t.str t.delim (some k)) :: t.partsFrom (findFirstOf t.str t.delim (some k)) := by
  rw [partsFrom, partsFrom]
  split_ifs with hreturn
  · obtain ⟨rfl, c, rest, hdrop, hc⟩ := find_here hreturn h hk
    rw [(t.token_eq k).1, (t.token_eq k).2, suffix, hdrop, segments_cons_word hc]
  · rcases t.find_token p with ⟨hnone, -⟩ | ⟨k', hk', -, hwords⟩
    · rw [hnone] at hk
      cases hk
    · rw [hk'] at hk
      cases hk
      exact hwords

theorem countFrom_parts (t : StringTokenizer) (pos : Option Nat) : t.countFrom pos = (t.partsFrom pos).length := by
  induction hn : t.left pos using Nat.strong_induction_on generalizing pos with
  | _ n ih =>
    cases pos with
    | none => simp [countFrom, partsFrom_none]
    | some p =>
      rw [countFrom]
      split_ifs with hdelim
      · have hlt : t.left (some (p + 1)) < n := by
          have hp := atDelim_lt hdelim
          rw [← hn, left, left]
          omega
        rw [partsFrom_delim hdelim, List.length_cons, ih _ hlt _ rfl]
      · have hplain := Bool.eq_false_iff.mpr hdelim
        split
        · next k hk =>
            have hlt : t.left (findFirstOf t.str t.delim (some k)) < n := by
              rcases t.find_token p with ⟨hnone, -⟩ | ⟨k', hk', hlt, -⟩
              · rw [hnone] at hk
                cases hk
              · rw [hk'] at hk
                cases hk
                exact hn ▸ hlt
            rw [partsFrom_token hplain hk, List.length_cons, ih _ hlt _ rfl]
        · next hnone => rw [partsFrom_nothing hplain hnone, List.length_nil]

theorem nextToken_parts (t : StringTokenizer) :
    t.partsFrom t.pos = [] ∧ (∃ t', t.nextToken = .error noMoreTokens t') ∨
    ∃ w pos, t.nextToken = .ok w { t with pos } ∧ t.partsFrom t.pos = w :: t.partsFrom pos := by
  rw [nextToken]
  cases t.pos with
  | none => exact .inl ⟨t.partsFrom_none, t, rfl⟩
  | some p =>
    dsimp only
    split_ifs with hdelim
    · exact .inr ⟨_, some (p + 1), rfl, partsFrom_delim hdelim⟩
    · have hplain := Bool.eq_false_iff.mpr hdelim
      cases hk : findFirstNotOf t.str t.delim (some p) with
      | none => exact .inl ⟨partsFrom_nothing hplain hk, _, rfl⟩
      | some k => exact .inr ⟨_, _, rfl, partsFrom_token hplain hk⟩

theorem drain_eq (t : StringTokenizer) : t.drain = t.partsFrom t.pos := by
  induction hn : t.left t.pos using Nat.strong_induction_on generalizing t with
  | _ n ih =>
    rw [drain]
    rcases t.nextToken_parts with ⟨hnil, t', hnext⟩ | ⟨w, pos, hnext, hcons⟩
    · split
      · next hok => rw [hnext] at hok; cases hok
      · exact hnil.symm
    · split
      · next hok =>
          have hlt := nextToken_left hnext
          rw [hnext] at hok
          cases hok
          rw [ih _ (hn ▸ hlt) _ rfl, hcons]
          rfl
      · next herror => rw [hnext] at herror; cases herror

/-! ### The modes -/

theorem drain_plain (h : t.returnDelims = false) : t.drain = words t.isDelim (suffix t.str t.pos) := by
  simp [drain_eq, partsFrom, h]

theorem drain_returning (h : t.returnDelims = true) : t.drain = segments t.isDelim (suffix t.str t.pos) := by
  simp [drain_eq, partsFrom, h]

theorem hasMoreTokens_plain (h : t.returnDelims = false) :
    t.hasMoreTokens = true ↔ ∃ w t', t.nextToken = .ok w t' := by
  rcases nextToken_cases h with ⟨hmore, -, t', hnext, -⟩ | ⟨w, t', hmore, hnext, -⟩
  · simp [hmore, hnext]
  · simp [hmore, hnext]

/-- From any position on, the tokens are the words in order, or with the delimiters all that is left of the string;
they are as many as are counted. A reset tokenizer is a fresh one over what was given, or what it had where the text
is empty. -/
theorem tokens_spec (t : StringTokenizer) (str delim : ByteString) (returnDelims : Bool) :
    t.countTokens = t.drain.length ∧
    (t.returnDelims = false → t.drain = words t.isDelim (suffix t.str t.pos) ∧
      (t.hasMoreTokens = true ↔ ∃ w t', t.nextToken = .ok w t')) ∧
    (t.returnDelims = true → t.drain.flatten = suffix t.str t.pos ∧
      t.drain.filter (fun w => !w.any t.isDelim) = words t.isDelim (suffix t.str t.pos)) ∧
    t.reset str delim returnDelims =
      { str := if str = [] then t.str else str, delim := if delim = [] then t.delim else delim, returnDelims } := by
  refine ⟨?_, ?_, ?_, rfl⟩
  · rw [countTokens, countFrom_parts, drain_eq]
  · intro h
    exact ⟨drain_plain h, hasMoreTokens_plain h⟩
  · intro h
    rw [drain_returning h]
    exact ⟨flatten_segments _, filter_segments _⟩

/-- Delimiters at the front, next to each other and at the end. -/
theorem tokens_spec_commas :
    let t : StringTokenizer := { str := [44, 97, 44, 44, 98, 99, 44], delim := [44] }
    t.countTokens = t.drain.length ∧ t.drain = words t.isDelim t.str ∧
      (t.reset [] [] true).drain.flatten = t.str := by
  intro t
  obtain ⟨hcount, hplain, -, -⟩ := tokens_spec t [] [] false
  obtain ⟨-, -, hreturning, -⟩ := tokens_spec (t.reset [] [] true) [] [] false
  exact ⟨hcount, (hplain rfl).1, (hreturning rfl).1⟩

/-- An empty string does not replace the old one. -/
theorem reset_keeps_str : ¬ ∀ (t : StringTokenizer) (str delim : ByteString) (returnDelims : Bool),
    (t.reset str delim returnDelims).hasMoreTokens = hasMoreTokens { str, delim, returnDelims } := by
  intro h
  have hkept := h { str := [97], delim := [44] } [] [44] false
  revert hkept
  decide

end StringTokenizer

end ActiveMQCpp.Decaf.Text
