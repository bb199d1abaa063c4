import ActiveMQCpp.DecafStringUtils

/-! The comparisons of `StringUtils` order the strings without white space and zero. Both are one comparison with a fold
of the characters: none, or to upper case. A run of digits is compared as a whole: those that begin with zero come first
and are ordered like words, the others by length first. -/

namespace ActiveMQCpp.Decaf.StringUtils

open Character List

variable {c d : UInt8} {a b left right : ByteString}

instance (s : ByteString) : Decidable (Plain s) := inferInstanceAs (Decidable (∀ c ∈ s, isWhitespace c = false ∧ c ≠ 0))

/-! ### Runs of digits -/

theorem sign_nonpos : sign c d ≤ 0 ↔ value c ≤ value d := by
  rw [sign]
  split_ifs <;> omega

def run (s : List UInt8) : List UInt8 := s.takeWhile isDigit

/-- The order of words. -/
def compareWords : List UInt8 → List UInt8 → Int
  | [], [] => 0
  | [], _ :: _ => -1
  | _ :: _, [] => 1
  | c :: left, d :: right => if sign c d ≠ 0 then sign c d else compareWords left right

theorem compareWords_swap (left right : List UInt8) : compareWords right left = -compareWords left right := by
  induction left generalizing right with
  | nil => cases right <;> rfl
  | cons c left ih =>
    cases right with
    | nil => rfl
    | cons d right =>
      rw [compareWords, compareWords, ih, sign_swap c d]
      split_ifs <;> omega

theorem compareWords_trans {a b c : List UInt8} (hab : compareWords a b ≤ 0) (hbc : compareWords b c ≤ 0) :
    compareWords a c ≤ 0 := by
  induction a generalizing b c with
  | nil => cases c <;> simp [compareWords]
  | cons x a ih =>
    cases b with
    | nil => exact absurd hab (by simp [compareWords])
    | cons y b =>
      cases c with
      | nil => exact absurd hbc (by simp [compareWords])
      | cons z c =>
        rw [compareWords] at hab hbc ⊢
        have hx : value x ≤ value y := sign_nonpos.mp (by split_ifs at hab with h <;> omega)
        have hy : value y ≤ value z := sign_nonpos.mp (by split_ifs at hbc with h <;> omega)
        split_ifs with hsign
        · exact sign_nonpos.mpr (hx.trans hy)
        · have hxz := sign_eq_zero.mp (not_not.mp hsign)
          subst hxz
          have hxy : x = y := value_injective (le_antisymm hx hy)
          subst hxy
          rw [if_neg (not_not.mpr (sign_eq_zero.mpr rfl))] at hab hbc
          exact ih hab hbc

theorem eq_of_compareWords {a b : List UInt8} (h : compareWords a b = 0) : a = b := by
  induction a generalizing b with
  | nil =>
    cases b with
    | nil => rfl
    | cons y b => cases h
  | cons x a ih =>
    cases b with
    | nil => cases h
    | cons y b =>
      rw [compareWords] at h
      split_ifs at h with hsign
      · exact absurd h hsign
      · rw [sign_eq_zero.mp (not_not.mp hsign), ih h]

theorem compareLeft_eq (left right : List UInt8) : compareLeft left right = compareWords (run left) (run right) := by
  induction left generalizing right with
  | nil =>
    cases right with
    | nil => rfl
    | cons d right => cases hd : isDigit d <;> simp [compareLeft, run, compareWords, hd]
  | cons c left ih =>
    cases right with
    | nil => cases hc : isDigit c <;> simp [compareLeft, run, compareWords, hc]
    | cons d right =>
      cases hc : isDigit c <;> cases hd : isDigit d <;> simp [compareLeft, run, compareWords, hc, hd, ih]

theorem compareRight_eq (bias : Int) (left right : List UInt8) : compareRight bias left right =
      if (run left).length < (run right).length then -1
      else if (run right).length < (run left).length then 1
      else if bias ≠ 0 then bias
      else compareWords (run left) (run right) := by
  induction left generalizing bias right with
  | nil =>
    cases right with
    | nil => by_cases hbias : bias = 0 <;> simp [compareRight, run, compareWords, hbias]
    | cons d right =>
      by_cases hbias : bias = 0 <;> cases hd : isDigit d <;> simp [compareRight, run, compareWords, hd, hbias]
  | cons c left ih =>
    cases right with
    | nil => by_cases hbias : bias = 0 <;> cases hc : isDigit c <;> simp [compareRight, run, compareWords, hc, hbias]
    | cons d right =>
      by_cases hbias : bias = 0 <;> cases hc : isDigit c <;> cases hd : isDigit d <;>
        simp [compareRight, run, compareWords, hc, hd, ih, hbias]

/-- What the order of the runs looks at first: nothing of a run that begins with zero, the length of another one. -/
def rank (digits : List UInt8) : Nat := if digits.head? = some 48 then 0 else digits.length

/-- The order of the runs: by rank, then as words. -/
def compareRuns (left right : List UInt8) : Int :=
  if rank left < rank right then -1
  else if rank right < rank left then 1
  else compareWords left right

theorem compareRuns_nonpos {left right : List UInt8} : compareRuns left right ≤ 0 ↔
      rank left < rank right ∨ rank left = rank right ∧ compareWords left right ≤ 0 := by
  rw [compareRuns]
  split_ifs <;> omega

theorem compareRuns_swap (left right : List UInt8) : compareRuns right left = -compareRuns left right := by
  rw [compareRuns, compareRuns, compareWords_swap left right]
  split_ifs <;> omega

theorem compareRuns_trans {a b c : List UInt8} (hab : compareRuns a b ≤ 0) (hbc : compareRuns b c ≤ 0) :
    compareRuns a c ≤ 0 := by
  rw [compareRuns_nonpos] at hab hbc ⊢
  rcases hab with hab | ⟨hab, hwords⟩
  · exact .inl (by omega)
  · rcases hbc with hbc | ⟨hbc, hwords'⟩
    · exact .inl (by omega)
    · exact .inr ⟨hab.trans hbc, compareWords_trans hwords hwords'⟩

theorem eq_of_compareRuns {a b : List UInt8} (h : compareRuns a b = 0) : a = b := by
  apply eq_of_compareWords
  rw [compareRuns] at h
  split_ifs at h <;> omega

theorem run_cons (hc : isDigit c = true) (s : List UInt8) : run (c :: s) = c :: run s := by
  rw [run, takeWhile_cons, if_pos hc]
  rfl

theorem compareDigits_eq (hc : isDigit c = true) (hd : isDigit d = true) (left right : List UInt8) :
    compareDigits c d (c :: left) (d :: right) = compareRuns (run (c :: left)) (run (d :: right)) := by
  have hdigit : ∀ {c : UInt8}, isDigit c = true → c ≠ 48 → 48 < value c := by
    intro c hc hne
    rw [isDigit, Bool.and_eq_true, decide_eq_true_eq, decide_eq_true_eq] at hc
    have hvalue : value c ≠ value 48 := fun h => hne (value_injective h)
    have hzero : value 48 = 48 := by decide
    omega
  have hzero : value 48 = 48 := by decide
  rw [compareDigits, compareLeft_eq, compareRight_eq, compareRuns, rank, rank, run_cons hc, run_cons hd]
  simp only [List.head?_cons, Option.some.injEq, length_cons, compareWords]
  by_cases hc0 : c = 48
  · by_cases hd0 : d = 48
    · simp [hc0, hd0]
    · have hlt := hdigit hd hd0
      simp [hc0, hd0, sign, hzero, hlt]
  · by_cases hd0 : d = 48
    · have hlt := hdigit hc hc0
      simp [hc0, hd0, sign, hzero, hlt, not_lt_of_gt hlt]
    · simp [hc0, hd0]

theorem eq_of_compareDigits (hc : isDigit c = true) (hd : isDigit d = true) {a b : List UInt8}
    (h : compareDigits c d (c :: a) (d :: b) = 0) : c = d := by
  rw [compareDigits_eq hc hd] at h
  have hruns := eq_of_compareRuns h
  rw [run_cons hc, run_cons hd] at hruns
  exact (List.cons.inj hruns).1

/-! ### One comparison for both -/

/-- The comparison of the rest of two strings without white space and zero. -/
def compareBy (fold : UInt8 → UInt8) : List UInt8 → List UInt8 → Int
  | [], [] => 0
  | [], d :: _ => sign 0 (fold d)
  | c :: _, [] => sign (fold c) 0
  | c :: left, d :: right =>
    if isDigit c && isDigit d && compareDigits c d (c :: left) (d :: right) ≠ 0 then
      compareDigits c d (c :: left) (d :: right)
    else if sign (fold c) (fold d) ≠ 0 then sign (fold c) (fold d)
    else compareBy fold left right

/-- Digits stay, and nothing else becomes a digit or a zero. -/
structure Folds (fold : UInt8 → UInt8) : Prop where
  digit : ∀ c, isDigit c = true → fold c = c
  other : ∀ c, isDigit (fold c) = isDigit c
  zero : ∀ c, fold c = 0 → c = 0

theorem folds_id : Folds id := ⟨fun _ _ => rfl, fun _ => rfl, fun _ h => h⟩

theorem toUpperCase_of_other (h : ¬ (97 ≤ c.toNat ∧ c.toNat ≤ 122)) : toUpperCase c = c := by
  rw [toUpperCase, if_neg h]

theorem isDigit_iff : isDigit c = true ↔ 48 ≤ c.toNat ∧ c.toNat ≤ 57 := by
  have hlt := c.toNat_lt
  rw [isDigit, Bool.and_eq_true, decide_eq_true_eq, decide_eq_true_eq, value]
  split_ifs <;> omega

theorem folds_toUpperCase : Folds toUpperCase := by
  refine ⟨fun c hc => ?_, fun c => ?_, fun c h => toUpperCase_eq_zero h⟩
  · rw [isDigit_iff] at hc
    exact toUpperCase_of_other (by omega)
  · by_cases hlower : 97 ≤ c.toNat ∧ c.toNat ≤ 122
    · have hnat : (c - 32).toNat = c.toNat - 32 := by
        rw [UInt8.toNat_sub_of_le _ _ (UInt8.le_iff_toNat_le.mpr (by simp; omega))]
        rfl
      rw [Bool.eq_iff_iff, isDigit_iff, isDigit_iff, toUpperCase, if_pos hlower, hnat]
      omega
    · rw [toUpperCase_of_other hlower]

section Order

variable {fold : UInt8 → UInt8}

theorem compareBy_cons_nonpos {c d : UInt8} {left right : List UInt8} : compareBy fold (c :: left) (d :: right) ≤ 0 ↔
      if isDigit c = true ∧ isDigit d = true then
        compareDigits c d (c :: left) (d :: right) < 0 ∨
          compareDigits c d (c :: left) (d :: right) = 0 ∧ compareBy fold left right ≤ 0
      else value (fold c) < value (fold d) ∨ value (fold c) = value (fold d) ∧ compareBy fold left right ≤ 0 := by
  rw [compareBy]
  by_cases hdigits : isDigit c = true ∧ isDigit d = true
  · rw [if_pos hdigits, hdigits.1, hdigits.2, Bool.true_and, Bool.true_and]
    by_cases hruns : compareDigits c d (c :: left) (d :: right) = 0
    · have hcd := eq_of_compareDigits hdigits.1 hdigits.2 hruns
      subst hcd
      simp [hruns, sign_eq_zero]
    · simp only [hruns, ne_eq, not_false_eq_true, decide_true, if_true, false_and, or_false]
      omega
  · have hnone : (isDigit c && isDigit d) = false := by simpa using hdigits
    rw [if_neg hdigits, hnone, Bool.false_and, if_neg Bool.false_ne_true]
    by_cases hsign : sign (fold c) (fold d) = 0
    · rw [if_neg (not_not.mpr hsign), sign_eq_zero.mp hsign]
      simp
    · have hvalue : value (fold c) ≠ value (fold d) := fun h => hsign (sign_eq_zero.mpr (value_injective h))
      rw [if_pos hsign, sign_nonpos]
      omega

theorem fold_digit (hfold : Folds fold) (c : UInt8) :
    isDigit c = true ↔ 48 ≤ value (fold c) ∧ value (fold c) ≤ 57 := by
  rw [← hfold.other c, isDigit, Bool.and_eq_true, decide_eq_true_eq, decide_eq_true_eq]

theorem fold_value_ne (hfold : Folds fold) {c : UInt8} (hc : c ≠ 0) : value (fold c) ≠ value 0 :=
  fun h => hc (hfold.zero c (value_injective h))

theorem compareBy_trans (hfold : Folds fold) {a b c : List UInt8} (ha : ∀ x ∈ a, x ≠ 0)
    (hab : compareBy fold a b ≤ 0) (hbc : compareBy fold b c ≤ 0) : compareBy fold a c ≤ 0 := by
  have hzero : value 0 = 0 := by decide
  induction a generalizing b c with
  | nil =>
    cases b with
    | nil => exact hbc
    | cons y b =>
      cases c with
      | nil => exact le_refl _
      | cons z c =>
        rw [compareBy, sign_nonpos] at hab ⊢
        rw [compareBy_cons_nonpos] at hbc
        have hz := fold_digit hfold z
        split_ifs at hbc with hdigits
        · have hz := hz.mp hdigits.2
          omega
        · omega
  | cons x a ih =>
    have hx := fold_digit hfold x
    have hx0 := fold_value_ne hfold (ha x mem_cons_self)
    cases b with
    | nil =>
      cases c with
      | nil => exact hab
      | cons z c =>
        simp only [compareBy, sign_nonpos] at hab hbc
        rw [compareBy_cons_nonpos, if_neg fun h => by have := hx.mp h.1; omega]
        exact .inl (by omega)
    | cons y b =>
      have hy := fold_digit hfold y
      cases c with
      | nil =>
        rw [compareBy, sign_nonpos] at hbc ⊢
        rw [compareBy_cons_nonpos, if_neg fun h => by have := hy.mp h.2; omega] at hab
        omega
      | cons z c =>
        have hz := fold_digit hfold z
        have ih := @ih b c fun x hx => ha x (mem_cons_of_mem _ hx)
        rw [compareBy_cons_nonpos] at hab hbc ⊢
        by_cases hxz : isDigit x = true ∧ isDigit z = true
        · by_cases hyd : isDigit y = true
          · rw [if_pos ⟨hxz.1, hyd⟩, compareDigits_eq hxz.1 hyd] at hab
            rw [if_pos ⟨hyd, hxz.2⟩, compareDigits_eq hyd hxz.2] at hbc
            rw [if_pos hxz, compareDigits_eq hxz.1 hxz.2]
            have htrans := compareRuns_trans (hab.elim le_of_lt fun h => h.1.le) (hbc.elim le_of_lt fun h => h.1.le)
            rcases htrans.lt_or_eq with hlt | heq
            · exact .inl hlt
            · rw [← eq_of_compareRuns heq, compareRuns_swap] at hbc
              exact .inr ⟨heq, ih (by omega) (by omega)⟩
          · rw [if_neg fun h => hyd h.2] at hab
            rw [if_neg fun h => hyd h.1] at hbc
            have hxd := hx.mp hxz.1
            have hzd := hz.mp hxz.2
            rw [hy] at hyd
            omega
        · rw [if_neg hxz]
          rw [hx, hz] at hxz
          simp only [hx, hy, hz] at hab hbc
          split_ifs at hab hbc <;> omega

theorem compareBy_swap (left right : List UInt8) : compareBy fold right left = -compareBy fold left right := by
  induction left generalizing right with
  | nil =>
    cases right with
    | nil => rfl
    | cons d right => exact sign_swap 0 (fold d)
  | cons c left ih =>
    cases right with
    | nil => exact sign_swap (fold c) 0
    | cons d right =>
      rw [compareBy, compareBy, ih, sign_swap (fold c), compareDigits_swap c d, Bool.and_comm (isDigit d)]
      simp only [ne_eq, Int.neg_eq_zero]
      split_ifs <;> rfl

theorem run_map (hfold : Folds fold) (s : List UInt8) : run (s.map fold) = run s := by
  induction s with
  | nil => rfl
  | cons c s ih =>
    rw [map_cons, run, run, takeWhile_cons, takeWhile_cons, hfold.other]
    split_ifs with hc
    · rw [hfold.digit c hc]
      exact congrArg _ ih
    · rfl

theorem compareBy_eq_zero (hfold : Folds fold) {a b : List UInt8} (ha : ∀ x ∈ a, x ≠ 0) (hb : ∀ x ∈ b, x ≠ 0) :
    compareBy fold a b = 0 ↔ a.map fold = b.map fold := by
  have hne {c : UInt8} (hc : c ≠ 0) : fold c ≠ 0 := fun h => hc (hfold.zero c h)
  induction a generalizing b with
  | nil =>
    cases b with
    | nil => simp [compareBy]
    | cons d b => simp [compareBy, sign_eq_zero, (hne (hb d mem_cons_self)).symm]
  | cons c a ih =>
    cases b with
    | nil => simp [compareBy, sign_eq_zero, hne (ha c mem_cons_self)]
    | cons d b =>
      have ih := @ih b (fun x hx => ha x (mem_cons_of_mem _ hx)) fun x hx => hb x (mem_cons_of_mem _ hx)
      rw [map_cons, map_cons, List.cons.injEq, compareBy]
      constructor
      · intro h
        split_ifs at h with hdigits hsign
        · exact absurd h (by simpa using (Bool.and_eq_true_iff.mp hdigits).2)
        · exact absurd h hsign
        · exact ⟨sign_eq_zero.mp (not_not.mp hsign), ih.mp h⟩
      · rintro ⟨hcd, htail⟩
        have hruns : isDigit c = true → isDigit d = true → compareDigits c d (c :: a) (d :: b) = 0 := by
          intro hc hd
          have hmap : (c :: a).map fold = (d :: b).map fold := by rw [map_cons, map_cons, hcd, htail]
          rw [compareDigits_eq hc hd, ← run_map hfold (c :: a), hmap, run_map hfold]
          have hswap := compareRuns_swap (run (d :: b)) (run (d :: b))
          omega
        rw [hcd, if_neg (not_not.mpr (sign_eq_zero.mpr rfl)), ih.mpr htail]
        simp only [ne_eq, Bool.and_eq_true, decide_eq_true_eq, ite_eq_right_iff]
        exact fun h => hruns h.1.1 h.1.2

end Order

/-! ### The two comparisons of the library -/

section Plain

variable {α : Type} {fold : UInt8 → UInt8} {f : Nat → α} {g : Int → α}

/-- A loop over two plain strings whose step is the one of the source compares them. The induction is on what is left of
the left string. -/
theorem eq_compareBy (hfold : Folds fold) (hzero : fold 0 = 0) (hleft : Plain left) (hright : Plain right)
    (hstep : ∀ i c d, i ≤ left.length → i ≤ right.length → left.getD i 0 = c → right.getD i 0 = d → f i =
      if isDigit c && isDigit d && compareDigits c d (left.drop i) (right.drop i) ≠ 0 then
        g (compareDigits c d (left.drop i) (right.drop i))
      else if c = 0 ∧ d = 0 then g 0
      else if sign (fold c) (fold d) ≠ 0 then g (sign (fold c) (fold d))
      else f (i + 1)) (i : Nat) (hi : i ≤ left.length) (hi' : i ≤ right.length) :
    f i = g (compareBy fold (left.drop i) (right.drop i)) := by
  induction hn : left.length - i generalizing i with
  | zero =>
    have hdrop : left.drop i = [] := drop_eq_nil_of_le (by omega)
    have hc : left.getD i 0 = 0 := getD_eq_default _ _ (by omega)
    rcases drop_cases right i with ⟨hdrop', hd⟩ | ⟨d, hdrop', hd, hmem⟩
    · rw [hstep i 0 0 hi hi' hc hd, hdrop, hdrop']
      rfl
    · have hd0 := (hright d hmem).2
      have hne : sign 0 (fold d) ≠ 0 := fun h => hd0 (hfold.zero d (sign_eq_zero.mp h).symm)
      rw [hstep i 0 d hi hi' hc hd, hdrop, hdrop', compareBy, isDigit_zero, Bool.false_and, Bool.false_and,
        if_neg Bool.false_ne_true, if_neg fun h => hd0 h.2, hzero, if_pos hne]
  | succ n ih =>
    obtain ⟨hdrop, -⟩ | ⟨c, hdrop, hc, hmem⟩ := drop_cases left i
    · rw [drop_eq_nil_iff] at hdrop
      omega
    · have hc0 := (hleft c hmem).2
      rcases drop_cases right i with ⟨hdrop', hd⟩ | ⟨d, hdrop', hd, -⟩
      · have hne : sign (fold c) 0 ≠ 0 := fun h => hc0 (hfold.zero c (sign_eq_zero.mp h))
        rw [hstep i c 0 hi hi' hc hd, hdrop, hdrop', compareBy, isDigit_zero, Bool.and_false, Bool.false_and,
          if_neg Bool.false_ne_true, if_neg fun h => hc0 h.1, hzero, if_pos hne]
      · have hlt : i < right.length := by
          by_contra hge
          rw [drop_eq_nil_of_le (not_lt.mp hge)] at hdrop'
          cases hdrop'
        rw [hstep i c d hi hi' hc hd, hdrop, hdrop', compareBy, if_neg (c := c = 0 ∧ d = 0) fun h => hc0 h.1,
          ih (i + 1) (by omega) hlt (by omega)]
        split_ifs <;> rfl

end Plain

theorem toUpperCase_zero : toUpperCase 0 = 0 := rfl

theorem compare_plain (hleft : Plain left) (hright : Plain right) : compare left right = compareBy id left right := by
  rw [compare, cStr_of_plain hleft, cStr_of_plain hright]
  refine eq_compareBy (f := fun i => doCompare left right i i) (g := id) folds_id rfl hleft hright
    (fun i c d _ _ hc hd => ?_) 0 (Nat.zero_le _) (Nat.zero_le _)
  have hspace : isWhitespace d = false := hd ▸ isWhitespace_getD hright i
  rw [doCompare]
  simp only [skip_of_plain hleft, hc, hd, hspace, Bool.false_eq_true, if_false, dite_eq_ite, id]

theorem compareIgnoreCase_plain (hleft : Plain left) (hright : Plain right) :
    compareIgnoreCase left right = compareBy toUpperCase left right := by
  rw [compareIgnoreCase, cStr_of_plain hleft, cStr_of_plain hright]
  refine eq_compareBy (f := fun i => doCompareIgnoreCase left right i i) (g := id) folds_toUpperCase toUpperCase_zero
    hleft hright (fun i c d _ _ hc hd => ?_) 0 (Nat.zero_le _) (Nat.zero_le _)
  have hspace : isWhitespace d = false := hd ▸ isWhitespace_getD hright i
  rw [doCompareIgnoreCase]
  simp only [skip_of_plain hleft, hc, hd, hspace, Bool.false_eq_true, if_false, dite_eq_ite, id]

theorem compare_trans {c : ByteString} (ha : Plain a) (hb : Plain b) (hc : Plain c) (hab : compare a b ≤ 0)
    (hbc : compare b c ≤ 0) : compare a c ≤ 0 := by
  rw [compare_plain ha hb] at hab
  rw [compare_plain hb hc] at hbc
  rw [compare_plain ha hc]
  exact compareBy_trans folds_id (fun x hx => (ha x hx).2) hab hbc

theorem skip_step (s : ByteString) (i : Nat) :
    skip s i = if isWhitespace (s.getD i 0) then skip s (i + 1) else i := by
  rcases drop_cases s i with ⟨hdrop, hzero⟩ | ⟨c, hdrop, hc, -⟩
  · rw [skip, hdrop, hzero]
    rfl
  · rw [skip, skip, hdrop, hc, takeWhile_cons]
    split_ifs with hspace
    · rw [length_cons]
      omega
    · rfl

/-- Every string is equal to itself, whatever it holds: the white space on the right is skipped along the left string,
which is the same here. -/
theorem doCompare_self (s : ByteString) (i : Nat) : doCompare s s i i = 0 := by
  induction hn : s.length - i using Nat.strong_induction_on generalizing i with
  | _ n ih =>
    have hdigits (c : UInt8) (t : List UInt8) : compareDigits c c t t = 0 := by
      have hswap := compareDigits_swap c c t t
      omega
    have hself (c : UInt8) : sign c c = 0 := sign_eq_zero.mpr rfl
    rw [doCompare]
    simp only [← skip_step, ite_self, hdigits, hself, ne_eq, not_true_eq_false, decide_false, Bool.and_false,
      Bool.false_eq_true, if_false, dite_false, and_self]
    split_ifs with hend
    · rfl
    · have hlt : skip s i < s.length := by
        by_contra hge
        exact hend (getD_eq_default _ _ (not_lt.mp hge))
      have hle := le_skip s i
      exact ih (s.length - (skip s i + 1)) (by omega) (skip s i + 1) rfl

theorem compare_self (s : ByteString) : compare s s = 0 := doCompare_self (cStr s) 0

theorem compare_swap (ha : Plain a) (hb : Plain b) : compare b a = -compare a b := by
  rw [compare_plain ha hb, compare_plain hb ha, compareBy_swap]

theorem compare_eq_zero (ha : Plain a) (hb : Plain b) : compare a b = 0 ↔ a = b := by
  rw [compare_plain ha hb, compareBy_eq_zero folds_id (fun x hx => (ha x hx).2) (fun x hx => (hb x hx).2), map_id,
    map_id]

theorem eq_of_compare (ha : Plain a) (hb : Plain b) (h : compare a b = 0) : a = b := (compare_eq_zero ha hb).mp h

theorem compare_equivalent (hleft : Plain left) (hright : Plain right) :
    ¬compare left right < 0 ∧ ¬compare right left < 0 ↔ left = right := by
  rw [compare_swap hleft hright, ← compare_eq_zero hleft hright]
  omega

theorem compareIgnoreCase_trans {c : ByteString} (ha : Plain a) (hb : Plain b) (hc : Plain c)
    (hab : compareIgnoreCase a b ≤ 0) (hbc : compareIgnoreCase b c ≤ 0) : compareIgnoreCase a c ≤ 0 := by
  rw [compareIgnoreCase_plain ha hb] at hab
  rw [compareIgnoreCase_plain hb hc] at hbc
  rw [compareIgnoreCase_plain ha hc]
  exact compareBy_trans folds_toUpperCase (fun x hx => (ha x hx).2) hab hbc

theorem compareIgnoreCase_swap (ha : Plain a) (hb : Plain b) : compareIgnoreCase b a = -compareIgnoreCase a b := by
  rw [compareIgnoreCase_plain ha hb, compareIgnoreCase_plain hb ha, compareBy_swap]

theorem compareIgnoreCase_eq_zero (ha : Plain a) (hb : Plain b) :
    compareIgnoreCase a b = 0 ↔ a.map toUpperCase = b.map toUpperCase := by
  rw [compareIgnoreCase_plain ha hb]
  exact compareBy_eq_zero folds_toUpperCase (fun x hx => (ha x hx).2) (fun x hx => (hb x hx).2)

/-! ### Strings over an alphabet -/

/-- The loop of `doCompare` with its reads checked: none where an index lies behind the terminator of the string it
is used on. -/
def doCompareChecked (fold : UInt8 → UInt8) (left right : ByteString) (lIndex rIndex : Nat) : Option Int :=
  let l := skip left lIndex
  let curLeft := left.getD l 0
  let space := isWhitespace (right.getD rIndex 0)
  let r := if space then skip left (rIndex + 1) else rIndex
  let curRight := if space then left.getD r 0 else right.getD r 0
  let result := compareDigits curLeft curRight (left.drop l) (right.drop r)
  if hreads : left.length < l ∨ right.length < rIndex ∨ (space ∧ left.length < r) ∨
      (isDigit curLeft && isDigit curRight) ∧ right.length < r then none
  else if isDigit curLeft && isDigit curRight && result ≠ 0 then some result
  else if curLeft = 0 ∧ curRight = 0 then some 0
  else if sign (fold curLeft) (fold curRight) ≠ 0 then some (sign (fold curLeft) (fold curRight))
  else doCompareChecked fold left right (l + 1) (r + 1)
termination_by left.length + 1 - lIndex
decreasing_by
  have hskip := le_skip left lIndex
  show left.length + 1 - (skip left lIndex + 1) < left.length + 1 - lIndex
  omega

theorem doCompareChecked_plain {fold : UInt8 → UInt8} (hfold : Folds fold) (hzero : fold 0 = 0) (hleft : Plain left)
    (hright : Plain right) : doCompareChecked fold left right 0 0 = some (compareBy fold left right) := by
  refine eq_compareBy (f := fun i => doCompareChecked fold left right i i) (g := some) hfold hzero hleft hright
    (fun i c d hi hi' hc hd => ?_) 0 (Nat.zero_le _) (Nat.zero_le _)
  have hspace : isWhitespace d = false := hd ▸ isWhitespace_getD hright i
  rw [doCompareChecked]
  simp only [skip_of_plain hleft, hc, hd, hspace, Bool.false_eq_true, if_false, dite_eq_ite]
  rw [if_neg (by simp; omega)]

/-- The string holds characters of `A` alone, and no terminator. -/
def Over (A : Set UInt8) (s : ByteString) : Prop := ∀ c ∈ s, c ∈ A ∧ c ≠ 0

/-- The reads stay inside both strings, and both comparisons are linear orders, one up to the case. -/
structure Natural (a b c : ByteString) : Prop where
  reads : doCompareChecked id (cStr a) (cStr b) 0 0 = some (compare a b)
  readsIgnoreCase : doCompareChecked toUpperCase (cStr a) (cStr b) 0 0 = some (compareIgnoreCase a b)
  swap : compare b a = -compare a b
  swapIgnoreCase : compareIgnoreCase b a = -compareIgnoreCase a b
  trans : compare a b ≤ 0 → compare b c ≤ 0 → compare a c ≤ 0
  transIgnoreCase : compareIgnoreCase a b ≤ 0 → compareIgnoreCase b c ≤ 0 → compareIgnoreCase a c ≤ 0
  zero : compare a b = 0 ↔ a = b
  zeroIgnoreCase : compareIgnoreCase a b = 0 ↔ a.map toUpperCase = b.map toUpperCase

theorem natural_of_plain {c : ByteString} (ha : Plain a) (hb : Plain b) (hc : Plain c) : Natural a b c where
  reads := by
    rw [cStr_of_plain ha, cStr_of_plain hb, doCompareChecked_plain folds_id rfl ha hb, compare_plain ha hb]
  readsIgnoreCase := by
    rw [cStr_of_plain ha, cStr_of_plain hb, doCompareChecked_plain folds_toUpperCase toUpperCase_zero ha hb,
      compareIgnoreCase_plain ha hb]
  swap := compare_swap ha hb
  swapIgnoreCase := compareIgnoreCase_swap ha hb
  trans := compare_trans ha hb hc
  transIgnoreCase := compareIgnoreCase_trans ha hb hc
  zero := compare_eq_zero ha hb
  zeroIgnoreCase := compareIgnoreCase_eq_zero ha hb

theorem doCompareChecked_space (fold : UInt8 → UInt8) (hc : isWhitespace c = true) :
    doCompareChecked fold [] [c] 0 0 = none := by
  rw [doCompareChecked]
  simp [skip, hc]

/-- The strings over an alphabet are naturally ordered just when it has no white space. -/
theorem natural_iff (A : Set UInt8) :
    (∀ a b c, Over A a → Over A b → Over A c → Natural a b c) ↔ ∀ c ∈ A, isWhitespace c = false := by
  constructor
  · intro h c hc
    by_contra hspace
    have hspace : isWhitespace c = true := by simpa using hspace
    have hc0 : c ≠ 0 := by
      rintro rfl
      cases hspace
    have hempty : Over A [] := fun x hx => by cases hx
    have hone : Over A [c] := fun x hx => by
      rw [mem_singleton.mp hx]
      exact ⟨hc, hc0⟩
    have hreads := (h [] [c] [] hempty hone hempty).reads
    have hcStr : cStr [c] = [c] := by simp [cStr, hc0]
    rw [hcStr, show cStr [] = [] from rfl, doCompareChecked_space id hspace] at hreads
    cases hreads
  · intro h a b c ha hb hc
    have hplain : ∀ {s}, Over A s → Plain s := fun hs x hx => ⟨h x (hs x hx).1, (hs x hx).2⟩
    exact natural_of_plain (hplain ha) (hplain hb) (hplain hc)

/-- A blank is read past the end of the empty string, and does not count. -/
theorem not_natural : ¬Natural [] [32] [] ∧ compare [] [32] = 0 :=
  ⟨fun h => absurd h.reads (by decide +kernel), by decide +kernel⟩

end ActiveMQCpp.Decaf.StringUtils
