import ActiveMQCpp.DecafBitSetQueries

/-! The searches of a `BitSet` from an index on, and its text. -/

namespace ActiveMQCpp.Decaf.BitSet

open MachineInt List

variable {s : BitSet} {bits : Words} {i pos count : Nat} {S : Finset ℕ}
variable {k : Nat}

theorem findBit_spec {value : Bool} {w : BitVec 64} : ∀ {j count : Nat}, j + count ≤ 64 →
    (∃ k, findBit value w j count = some k ∧ j ≤ k ∧ k < j + count ∧ w.getLsbD k = value ∧
      ∀ m, j ≤ m → m < k → w.getLsbD m ≠ value) ∨
      (findBit value w j count = none ∧ ∀ m, j ≤ m → m < j + count → w.getLsbD m ≠ value) := by
  intro j count
  induction count generalizing j with
  | zero =>
    intro _
    exact .inr ⟨rfl, fun m hlow hhigh => by omega⟩
  | succ count ih =>
    intro h
    have htest := and_twoN_ne_zero (i := j) w
    rw [Nat.mod_eq_of_lt (show j < 64 by omega)] at htest
    rw [findBit, htest]
    by_cases hbit : w.getLsbD j = value
    · rw [if_pos hbit]
      exact .inl ⟨j, rfl, le_refl j, by omega, hbit, fun m hlow hhigh => by omega⟩
    · rw [if_neg hbit]
      rcases @ih (j + 1) (by omega) with ⟨k, hfind, hlow, hhigh, hvalue, hbefore⟩ | ⟨hfind, hall⟩
      · refine .inl ⟨k, hfind, by omega, by omega, hvalue, ?_⟩
        intro m hm hmk
        by_cases heq : m = j
        · rw [heq]
          exact hbit
        · exact hbefore m (by omega) hmk
      · refine .inr ⟨hfind, ?_⟩
        intro m hm hend
        by_cases heq : m = j
        · rw [heq]
          exact hbit
        · exact hall m (by omega) (by omega)

theorem skipWords_ok {skip : BitVec 64} : ∀ {idx count : Nat}, idx + count ≤ bits.length →
    ∃ k, skipWords bits skip idx count = .ok k ∧ idx ≤ k ∧ k ≤ idx + count ∧
      (∀ pos, idx ≤ pos → pos < k → bits.getD pos 0 = skip) ∧ (k < idx + count → bits.getD k 0 ≠ skip) := by
  intro idx count
  induction count generalizing idx with
  | zero =>
    intro _
    exact ⟨idx, rfl, le_refl _, le_refl _, fun pos hlow hhigh => by omega, fun h => by omega⟩
  | succ count ih =>
    intro h
    have hword := word_ok (show idx < bits.length by omega)
    by_cases hskip : bits.getD idx 0 = skip
    · obtain ⟨k, hrun, hlow, hhigh, hskipped, hstop⟩ := @ih (idx + 1) (by omega)
      refine ⟨k, ?_, by omega, by omega, ?_, fun hk => hstop (by omega)⟩
      · simp only [skipWords, hword, bind, Except.bind, if_pos hskip]
        exact hrun
      · intro pos hpos hk
        by_cases heq : pos = idx
        · rw [heq, hskip]
        · exact hskipped pos (by omega) hk
    · refine ⟨idx, ?_, le_refl _, by omega, fun pos hlow hhigh => by omega, fun _ => hskip⟩
      simp only [skipWords, hword, bind, Except.bind, if_neg hskip]

theorem bit_of_word (pos : Nat) (hk : k < 64) : bit bits (64 * pos + k) = (bits.getD pos 0).getLsbD k := by
  have hdiv : (64 * pos + k) / 64 = pos := by omega
  have hmod : (64 * pos + k) % 64 = k := by omega
  rw [bit, hdiv, hmod]

theorem nextBit_ok {value : Bool} {skip : BitVec 64} {beyond absent : Int} (h : s.Inv)
    (hbound : s.actualArrayLength < 33554432) (hskip : ∀ k, k < 64 → skip.getLsbD k = !value)
    (hother : ∀ w : BitVec 64, w ≠ skip → ∃ k, k < 64 ∧ w.getLsbD k = value)
    (hin : i < 64 * s.actualArrayLength) :
    (∃ n : Nat, s.nextBit value skip beyond absent i = .ok n ∧ i ≤ n ∧ n < 64 * s.actualArrayLength ∧
      s.member n = value ∧ ∀ m, i ≤ m → m < n → s.member m ≠ value) ∨
      (s.nextBit value skip beyond absent i = .ok absent ∧
        ∀ m, i ≤ m → m < 64 * s.actualArrayLength → s.member m ≠ value) := by
  have hfits := h.fits
  have hmod := Nat.mod_lt i (show 0 < 64 by decide)
  have hsplit : ∀ m, bit s.bits m = (s.bits.getD (m / 64) 0).getLsbD (m % 64) := fun m => rfl
  have hword := word_ok (show i / 64 < s.bits.length by omega)
  -- the first word: a bit in it, or none from the index on
  have hfirst : (∃ k, (if s.bits.getD (i / 64) 0 ≠ skip then findBit value (s.bits.getD (i / 64) 0) (i % 64) (64 - i % 64)
      else none) = some k ∧ i % 64 ≤ k ∧ k < 64 ∧ (s.bits.getD (i / 64) 0).getLsbD k = value ∧
        ∀ m, i % 64 ≤ m → m < k → (s.bits.getD (i / 64) 0).getLsbD m ≠ value) ∨
      ((if s.bits.getD (i / 64) 0 ≠ skip then findBit value (s.bits.getD (i / 64) 0) (i % 64) (64 - i % 64)
        else none) = none ∧ ∀ m, i % 64 ≤ m → m < 64 → (s.bits.getD (i / 64) 0).getLsbD m ≠ value) := by
    by_cases heq : s.bits.getD (i / 64) 0 = skip
    · rw [if_neg (not_not.mpr heq)]
      refine .inr ⟨rfl, ?_⟩
      intro m _ hm
      rw [heq, hskip m hm]
      cases value <;> decide
    · rw [if_pos heq]
      rcases @findBit_spec value (s.bits.getD (i / 64) 0) (i % 64) (64 - i % 64) (by omega)
        with ⟨k, hfind, hlow, hhigh, hbit, hbefore⟩ | ⟨hfind, hall⟩
      · exact .inl ⟨k, hfind, hlow, by omega, hbit, hbefore⟩
      · exact .inr ⟨hfind, fun m hlow hhigh => hall m hlow (by omega)⟩
  have hnonneg : ¬ ((i : Int) < 0) := by omega
  have hused : ¬ ((i : Int) ≥ (64 * s.actualArrayLength : Nat)) := by omega
  rw [nextBit, if_neg hnonneg, shiftOffset_eq hbound, if_neg hused]
  simp only [Int.toNat_natCast, hword, bind, Except.bind]
  rcases hfirst with ⟨k, hfind, hlow, hhigh, hbit, hbefore⟩ | ⟨hfind, hall⟩
  · simp only [hfind, shiftOffset_eq (show i / 64 < 33554432 by omega)]
    refine .inl ⟨64 * (i / 64) + k, by push_cast; rfl, by omega, by omega, ?_, ?_⟩
    · rw [member, bit_of_word _ hhigh, hbit]
    · intro m hm hmk
      have hdiv : m / 64 = i / 64 := by omega
      rw [member, hsplit, hdiv]
      exact hbefore (m % 64) (by omega) (by omega)
  · simp only [hfind]
    have hrestFirst : ∀ m, i ≤ m → m / 64 = i / 64 → s.member m ≠ value := by
      intro m hm hdiv
      rw [member, hsplit, hdiv]
      exact hall (m % 64) (by omega) (Nat.mod_lt m (by decide))
    obtain ⟨k, hrun, hlow, hhigh, hskipped, hstop⟩ := @skipWords_ok s.bits skip (i / 64 + 1)
      (s.actualArrayLength - (i / 64 + 1)) (by omega)
    have hbeforeWord : ∀ m, i ≤ m → m / 64 < k → s.member m ≠ value := by
      intro m hm hdiv
      by_cases hfirstWord : m / 64 = i / 64
      · exact hrestFirst m hm hfirstWord
      · rw [member, hsplit, hskipped (m / 64) (by omega) hdiv, hskip _ (Nat.mod_lt m (by decide))]
        cases value <;> decide
    simp only [hrun]
    by_cases hend : k = s.actualArrayLength
    · simp only [if_pos hend]
      refine .inr ⟨trivial, ?_⟩
      intro m hm hlast
      exact hbeforeWord m hm (by omega)
    · have hwordK := word_ok (show k < s.bits.length by omega)
      obtain ⟨j, hj, hvalue⟩ := hother _ (hstop (by omega))
      simp only [if_neg hend, hwordK]
      rcases @findBit_spec value (s.bits.getD k 0) 0 64 (by omega)
        with ⟨b, hfindK, -, hb, hbit, hbefore⟩ | ⟨-, hnone⟩
      · simp only [hfindK, shiftOffset_eq (show k < 33554432 by omega)]
        refine .inl ⟨64 * k + b, by push_cast; rfl, by omega, by omega, ?_, ?_⟩
        · rw [member, bit_of_word _ (by omega), hbit]
        · intro m hm hmk
          by_cases hdiv : m / 64 < k
          · exact hbeforeWord m hm hdiv
          · have hword : m / 64 = k := by omega
            rw [member, hsplit, hword]
            exact hbefore (m % 64) (Nat.zero_le _) (by omega)
      · exact absurd hvalue (hnone j (Nat.zero_le j) (by omega))

theorem allOnes_getLsbD (hk : k < 64) : (BitVec.allOnes 64).getLsbD k = true := by
  rw [BitVec.getLsbD_allOnes, decide_eq_true hk]

theorem exists_getLsbD_true (w : BitVec 64) (h : w ≠ 0) : ∃ k, k < 64 ∧ w.getLsbD k = true := by
  by_contra hnone
  push Not at hnone
  refine h (BitVec.eq_of_getLsbD_eq ?_)
  intro k hk
  rw [getLsbD_zero, ← Bool.not_eq_true]
  exact hnone k hk

theorem exists_getLsbD_false (w : BitVec 64) (h : w ≠ BitVec.allOnes 64) : ∃ k, k < 64 ∧ w.getLsbD k = false := by
  by_contra hnone
  push Not at hnone
  refine h (BitVec.eq_of_getLsbD_eq ?_)
  intro k hk
  rw [allOnes_getLsbD hk, ← Bool.not_eq_false]
  exact hnone k hk

theorem Represents.nextSetBit (h : Represents s S) (i : Nat) :
    (∃ n : Nat, s.nextSetBit i = .ok n ∧ IsLeast {j | j ∈ S ∧ i ≤ j} n) ∨
      (s.nextSetBit i = .ok (-1) ∧ ∀ j ∈ S, j < i) := by
  by_cases hin : i < 64 * s.actualArrayLength
  · rcases @nextBit_ok s i true 0 (-1) (-1) h.inv h.bound
      (fun k _ => getLsbD_zero k) exists_getLsbD_true hin with ⟨n, hrun, hle, hlt, hmem, hbefore⟩ | ⟨hrun, hnone⟩
    · refine .inl ⟨n, hrun, ⟨(h.mem_iff n).mpr hmem, hle⟩, ?_⟩
      rintro j ⟨hj, hij⟩
      by_contra hgt
      exact hbefore j hij (by omega) ((h.mem_iff j).mp hj)
    · refine .inr ⟨hrun, ?_⟩
      intro j hj
      by_contra hge
      exact hnone j (by omega) (h.lt_of_mem hj) ((h.mem_iff j).mp hj)
  · refine .inr ⟨?_, ?_⟩
    · have hused : (i : Int) ≥ (64 * s.actualArrayLength : Nat) := by omega
      rw [BitSet.nextSetBit, nextBit, if_neg (by omega), shiftOffset_eq h.bound, if_pos hused]
    · intro j hj
      have := h.lt_of_mem hj
      omega

theorem Represents.nextClearBit (h : Represents s S) (i : Nat) :
    ∃ n : Nat, s.nextClearBit i = .ok n ∧ IsLeast {j | j ∉ S ∧ i ≤ j} n := by
  have hnot : ∀ j, s.member j = false → j ∉ S := by
    intro j hj hmem
    rw [(h.mem_iff j).mp hmem] at hj
    cases hj
  have hyes : ∀ j, s.member j ≠ false → j ∈ S := by
    intro j hj
    rw [h.mem_iff]
    simpa using hj
  by_cases hin : i < 64 * s.actualArrayLength
  · rcases @nextBit_ok s i false (BitVec.allOnes 64) i
      (shiftOffset s.actualArrayLength) h.inv h.bound (fun k hk => allOnes_getLsbD hk) exists_getLsbD_false hin
      with ⟨n, hrun, hle, hlt, hmem, hbefore⟩ | ⟨hrun, hnone⟩
    · refine ⟨n, hrun, ⟨hnot n hmem, hle⟩, ?_⟩
      rintro j ⟨hj, hij⟩
      by_contra hgt
      exact hj (hyes j (hbefore j hij (by omega)))
    · refine ⟨64 * s.actualArrayLength, ?_, ⟨?_, by omega⟩, ?_⟩
      · rw [BitSet.nextClearBit, hrun, shiftOffset_eq h.bound]
      · intro hmem
        have := h.lt_of_mem hmem
        omega
      · rintro j ⟨hj, hij⟩
        by_contra hgt
        exact hj (hyes j (hnone j hij (by omega)))
  · refine ⟨i, ?_, ⟨?_, le_refl i⟩, ?_⟩
    · have hused : (i : Int) ≥ (64 * s.actualArrayLength : Nat) := by omega
      rw [BitSet.nextClearBit, nextBit, if_neg (by omega), shiftOffset_eq h.bound, if_pos hused]
    · intro hmem
      have := h.lt_of_mem hmem
      omega
    · rintro j ⟨-, hij⟩
      exact hij

/-! ### Text -/

def appendElement (sb : ByteString × Bool) (index : Nat) : ByteString × Bool :=
  ((if sb.2 then sb.1 ++ ascii ", " else sb.1) ++ Integer.toString index, true)

theorem appendBits_eq (w : BitVec 64) : ∀ (j count bitCount : Nat) (sb : ByteString × Bool), j + count ≤ 64 →
    appendBits w j count bitCount sb = (((List.range count).filter fun k => w.getLsbD (j + k)).map (bitCount + ·)).foldl
      appendElement sb := by
  intro j count
  induction count generalizing j with
  | zero =>
    intro bitCount sb _
    rfl
  | succ count ih =>
    rintro bitCount ⟨text, comma⟩ h
    have htest := and_twoN_ne_zero (i := j) w
    rw [Nat.mod_eq_of_lt (show j < 64 by omega)] at htest
    have htail : ∀ sb, appendBits w (j + 1) count (bitCount + 1) sb =
        ((((List.range count).map Nat.succ).filter fun k => w.getLsbD (j + k)).map (bitCount + ·)).foldl
          appendElement sb := by
      intro sb
      rw [ih (j + 1) (bitCount + 1) sb (by omega), filter_map, map_map]
      congr 1
      have hshift : ∀ k, j + 1 + k = j + Nat.succ k := fun k => by omega
      have hfilter : (fun k => w.getLsbD (j + 1 + k)) = (fun k => w.getLsbD (j + k)) ∘ Nat.succ := by
        funext k
        rw [hshift]
        rfl
      rw [hfilter]
      apply map_congr_left
      intro k _
      rw [Function.comp_apply]
      omega
    rw [range_succ_eq_map, filter_cons, Nat.add_zero]
    cases hbit : w.getLsbD j with
    | false =>
      rw [hbit] at htest
      have hzero : ¬ (w &&& twoN j ≠ 0) := by simpa using htest
      rw [appendBits, if_neg hzero, htail]
      simp
    | true =>
      rw [hbit] at htest
      have hne : w &&& twoN j ≠ 0 := by simpa using htest
      rw [appendBits, if_pos hne, htail, if_pos rfl, map_cons, foldl_cons, Nat.add_zero]
      rfl

theorem appendWords_ok : ∀ (pos count : Nat) (sb : ByteString × Bool), pos + count ≤ bits.length →
    appendWords bits pos count (64 * pos) sb = .ok ((((List.range (64 * count)).filter fun i =>
      bit bits (64 * pos + i)).map (64 * pos + ·)).foldl appendElement sb) := by
  intro pos count
  induction count generalizing pos with
  | zero =>
    intro sb _
    rfl
  | succ count ih =>
    intro sb h
    have hword := word_ok (show pos < bits.length by omega)
    have hone : (if bits.getD pos 0 = 0 then sb else appendBits (bits.getD pos 0) 0 64 (64 * pos) sb)
        = (((List.range 64).filter fun i => bit bits (64 * pos + i)).map (64 * pos + ·)).foldl appendElement sb := by
      have hsame : (List.range 64).filter (fun i => bit bits (64 * pos + i)) =
          (List.range 64).filter fun k => (bits.getD pos 0).getLsbD (0 + k) := by
        apply filter_congr
        intro k hk
        rw [bit_of_word pos (mem_range.mp hk), Nat.zero_add]
      rw [hsame]
      by_cases hzero : bits.getD pos 0 = 0
      · have hnone : (List.range 64).filter (fun k => (bits.getD pos 0).getLsbD (0 + k)) = [] := by
          rw [filter_eq_nil_iff]
          intro k _
          rw [hzero, getLsbD_zero]
          decide
        rw [if_pos hzero, hnone]
        rfl
      · rw [if_neg hzero, appendBits_eq _ 0 64 _ _ (by decide)]
    have hnext : 64 * pos + 64 = 64 * (pos + 1) := by omega
    have hsplit : 64 * (count + 1) = 64 + 64 * count := by omega
    simp only [appendWords, hword, bind, Except.bind, hone, hnext]
    rw [ih (pos + 1) _ (by omega), ← foldl_append, hsplit, range_add, filter_append, map_append,
      filter_map, map_map]
    congr 3
    have hfilter : (fun i => bit bits (64 * (pos + 1) + i)) = (fun i => bit bits (64 * pos + i)) ∘ (64 + ·) := by
      funext i
      rw [Function.comp_apply, ← Nat.add_assoc, hnext]
    rw [hfilter]
    apply map_congr_left
    intro i _
    rw [Function.comp_apply]
    omega

def elementText (index : Nat) : ByteString := Integer.toString index

theorem foldl_appendElement_true (sb : ByteString) (elements : List Nat) :
    (elements.foldl appendElement (sb, true)).1 = sb ++ (elements.map fun e => ascii ", " ++ elementText e).flatten := by
  induction elements generalizing sb with
  | nil => exact (append_nil sb).symm
  | cons e elements ih =>
    rw [foldl_cons, appendElement, if_pos rfl, ih, map_cons, flatten_cons, append_assoc,
      append_assoc, append_assoc]
    rfl

theorem intercalate_cons {α : Type} (sep x : List α) (xs : List (List α)) :
    sep.intercalate (x :: xs) = x ++ (xs.map (sep ++ ·)).flatten := by
  induction xs generalizing x with
  | nil => simp [List.intercalate]
  | cons y xs ih =>
    have hstep : sep.intercalate (x :: y :: xs) = x ++ (sep ++ sep.intercalate (y :: xs)) := by
      simp [List.intercalate]
    rw [hstep, ih, map_cons, flatten_cons, append_assoc]

theorem foldl_appendElement (sb : ByteString) (elements : List Nat) :
    (elements.foldl appendElement (sb, false)).1 = sb ++ (ascii ", ").intercalate (elements.map elementText) := by
  cases elements with
  | nil => simp [List.intercalate]
  | cons e elements =>
    rw [foldl_cons, appendElement, foldl_appendElement_true, map_cons, intercalate_cons, map_map,
      if_neg Bool.false_ne_true, append_assoc]
    rfl

theorem sort_eq_filter_range (S : Finset ℕ) {n : Nat} (h : ∀ i ∈ S, i < n) :
    S.sort (· ≤ ·) = (List.range n).filter fun i => decide (i ∈ S) := by
  have hsorted : ((List.range n).filter fun i => decide (i ∈ S)).Pairwise (· ≤ ·) := by
    apply List.Pairwise.filter
    exact pairwise_le_range
  have hnodup : ((List.range n).filter fun i => decide (i ∈ S)).Nodup := nodup_range.filter _
  have hset : ((List.range n).filter fun i => decide (i ∈ S)).toFinset = S := by
    ext i
    simp only [mem_toFinset, mem_filter, mem_range, decide_eq_true_eq, and_iff_right_iff_imp]
    exact h i
  have hsort := (toFinset_sort (· ≤ ·) hnodup).mpr hsorted
  rw [hset] at hsort
  exact hsort

theorem Represents.toString (h : Represents s S) : s.toString =
    .ok (ascii "\x7b" ++ (ascii ", ").intercalate ((S.sort (· ≤ ·)).map elementText) ++ ascii "\x7d") := by
  have hsize := h.inv.size
  have hfits := h.inv.fits
  have hsort := sort_eq_filter_range S (n := 64 * s.bitsSize) fun i hi => by
    have := h.lt_of_mem hi
    omega
  have hwords := @appendWords_ok s.bits 0 s.bitsSize (ascii "\x7b", false) (by omega)
  have hmembers : ((List.range (64 * s.bitsSize)).filter fun i => bit s.bits (64 * 0 + i)).map (64 * 0 + ·)
      = S.sort (· ≤ ·) := by
    simp only [Nat.mul_zero, Nat.zero_add, map_id']
    rw [hsort]
    apply filter_congr
    intro i _
    exact h.member i
  rw [hmembers, Nat.mul_zero] at hwords
  simp only [BitSet.toString, hwords, bind, Except.bind, foldl_appendElement]

end ActiveMQCpp.Decaf.BitSet
