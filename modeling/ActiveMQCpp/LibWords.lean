import Mathlib.Data.List.TakeWhile
import Mathlib.Data.List.Basic

/-! The words of a list: its longest parts without a separator. Separators next to each other, at the front and at the
back have no word between them. -/

namespace ActiveMQCpp.Words

open List

variable {α : Type}

def words (sep : α → Bool) (s : List α) : List (List α) := (s.splitOnP sep).filter fun w => !w.isEmpty

def Word (sep : α → Bool) (w : List α) : Prop := w ≠ [] ∧ ∀ c ∈ w, sep c = false

variable {sep : α → Bool}
variable {c : α} {s w : List α}

@[simp] theorem words_nil : words sep [] = [] := rfl

theorem words_cons_sep (hc : sep c = true) : words sep (c :: s) = words sep s := by
  rw [words, splitOnP_cons_eq_if_modifyHead, if_pos hc]
  rfl

theorem words_dropWhile (s : List α) : words sep (s.dropWhile sep) = words sep s := by
  induction s with
  | nil => rfl
  | cons c s ih =>
    rw [dropWhile_cons]
    split_ifs with hc
    · rw [ih, words_cons_sep hc]
    · rfl

theorem words_append_sep (hw : Word sep w) (hc : sep c = true) : words sep (w ++ c :: s) = w :: words sep s := by
  rw [words, splitOnP_append_cons_of_forall_mem hw.2 c hc, filter_cons_of_pos (by simpa using hw.1)]
  rfl

theorem words_append (hc : sep c = true) (s t : List α) : words sep (s ++ c :: t) = words sep s ++ words sep t := by
  rw [words, splitOnP_append_cons s t hc, filter_append]
  rfl

theorem words_of_word (hw : Word sep w) : words sep w = [w] := by
  rw [words, splitOnP_eq_singleton hw.2, filter_cons_of_pos (by simpa using hw.1)]
  rfl

theorem words_eq_cons (hc : sep c = false) :
    words sep (c :: s) = (c :: s).takeWhile (fun d => !sep d) :: words sep ((c :: s).dropWhile fun d => !sep d) := by
  have hword : Word sep ((c :: s).takeWhile fun d => !sep d) := by
    refine ⟨?_, ?_⟩
    · rw [takeWhile_cons, hc]
      exact cons_ne_nil _ _
    · intro d hd
      simpa using mem_takeWhile_imp hd
  have happend := takeWhile_append_dropWhile (p := fun d => !sep d) (l := c :: s)
  cases hrest : (c :: s).dropWhile fun d => !sep d with
  | nil =>
    rw [hrest, append_nil] at happend
    rw [happend] at hword ⊢
    exact words_of_word hword
  | cons d rest =>
    have hd : sep d = true := by
      have hne : (c :: s).dropWhile (fun d => !sep d) ≠ [] := by
        rw [hrest]
        exact cons_ne_nil _ _
      have hhead := head_dropWhile_not (fun d => !sep d) hne
      simpa [hrest] using hhead
    rw [hrest] at happend
    conv_lhs => rw [← happend]
    rw [words_append_sep hword hd, words_cons_sep hd]

theorem mem_words (hw : w ∈ words sep s) : Word sep w := by
  induction hn : s.length using Nat.strong_induction_on generalizing s with
  | _ n ih =>
    cases s with
    | nil => cases hw
    | cons c s =>
      rw [length_cons] at hn
      cases hc : sep c with
      | true =>
        rw [words_cons_sep hc] at hw
        exact ih s.length (by omega) hw rfl
      | false =>
        rw [words_eq_cons hc] at hw
        rcases mem_cons.mp hw with rfl | hrest
        · refine ⟨?_, fun d hd => by simpa using mem_takeWhile_imp hd⟩
          rw [takeWhile_cons, hc]
          exact cons_ne_nil _ _
        · refine ih _ ?_ hrest rfl
          rw [dropWhile_cons, hc]
          have hle := (dropWhile_suffix (l := s) fun d => !sep d).length_le
          simp only [Bool.not_false, if_true]
          omega

/-! ### Separators kept -/

/-- The words and, each on its own, the separators between them. -/
def segments (sep : α → Bool) : List α → List (List α)
  | [] => []
  | c :: s =>
    if sep c then [c] :: segments sep s
    else (c :: s.takeWhile fun d => !sep d) :: segments sep (s.dropWhile fun d => !sep d)
termination_by s => s.length
decreasing_by
  · exact Nat.lt_succ_self _
  · exact Nat.lt_succ_of_le (List.dropWhile_suffix _).length_le

@[simp] theorem segments_nil : segments sep [] = [] := by
  rw [segments]

theorem segments_cons_sep (hc : sep c = true) : segments sep (c :: s) = [c] :: segments sep s := by
  rw [segments, if_pos hc]

theorem segments_cons_word (hc : sep c = false) :
    segments sep (c :: s) = (c :: s).takeWhile (fun d => !sep d) :: segments sep ((c :: s).dropWhile fun d => !sep d) := by
  rw [segments, if_neg (by simp [hc])]
  simp [hc]

theorem flatten_segments (s : List α) : (segments sep s).flatten = s := by
  induction hn : s.length using Nat.strong_induction_on generalizing s with
  | _ n ih =>
    cases s with
    | nil => simp
    | cons c s =>
      rw [length_cons] at hn
      cases hc : sep c with
      | true => rw [segments_cons_sep hc, flatten_cons, ih s.length (by omega) s rfl, singleton_append]
      | false =>
        have hlt : ((c :: s).dropWhile fun d => !sep d).length < n := by
          have hle := (dropWhile_suffix (l := s) fun d => !sep d).length_le
          rw [dropWhile_cons_of_pos (by simp [hc])]
          omega
        rw [segments_cons_word hc, flatten_cons, ih _ hlt _ rfl, takeWhile_append_dropWhile]

theorem filter_segments (s : List α) : (segments sep s).filter (fun w => !w.any sep) = words sep s := by
  induction hn : s.length using Nat.strong_induction_on generalizing s with
  | _ n ih =>
    cases s with
    | nil => simp
    | cons c s =>
      rw [length_cons] at hn
      cases hc : sep c with
      | true =>
        rw [segments_cons_sep hc, filter_cons_of_neg (by simp [hc]), ih s.length (by omega) s rfl,
          words_cons_sep hc]
      | false =>
        have hlt : ((c :: s).dropWhile fun d => !sep d).length < n := by
          have hle := (dropWhile_suffix (l := s) fun d => !sep d).length_le
          rw [dropWhile_cons_of_pos (by simp [hc])]
          omega
        have hword : (!((c :: s).takeWhile fun d => !sep d).any sep) = true := by
          rw [Bool.not_eq_true', any_eq_false]
          intro d hd
          simpa using mem_takeWhile_imp hd
        rw [segments_cons_word hc, filter_cons, if_pos hword, ih _ hlt _ rfl, words_eq_cons hc]

theorem mem_of_mem_splitOnP (hw : w ∈ s.splitOnP sep) (hc : c ∈ w) : c ∈ s := by
  induction s generalizing w with
  | nil =>
    rw [splitOnP_nil, mem_singleton] at hw
    rwa [hw] at hc
  | cons d s ih =>
    rw [splitOnP_cons_eq_if_modifyHead] at hw
    split_ifs at hw with hd
    · rcases mem_cons.mp hw with rfl | hw
      · cases hc
      · exact mem_cons_of_mem _ (ih hw hc)
    · obtain ⟨first, rest, hsplit⟩ := exists_cons_of_ne_nil (splitOnP_ne_nil sep s)
      rw [hsplit] at hw ih
      rcases mem_cons.mp hw with rfl | hw
      · rcases mem_cons.mp hc with rfl | hc
        · exact mem_cons_self
        · exact mem_cons_of_mem _ (ih mem_cons_self hc)
      · exact mem_cons_of_mem _ (ih (mem_cons_of_mem _ hw) hc)

theorem mem_of_mem_words (hw : w ∈ words sep s) (hc : c ∈ w) : c ∈ s :=
  mem_of_mem_splitOnP (mem_filter.mp hw).1 hc

end ActiveMQCpp.Words
