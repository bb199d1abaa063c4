import ActiveMQCpp.DecafHexadecimal
import ActiveMQCpp.DecafPropertiesRoundTrip

/-! Which bytes and which comments of a stored text come back: the escapes of `dumpString` against those of the loader. -/

namespace ActiveMQCpp.Decaf.Properties

open Loader

variable {c : UInt8}

/-! ### Every byte -/

/-- The character is written, and its text is read as it; a blank may be left as it is inside a value. -/
def ReadsBack (key : Bool) (c : UInt8) : Prop :=
  ∃ text, dumpChar key c = .ok text ∧
    ∀ s : Loader, s.Ready → (key = false → c = 32 → s.InValue) → text.foldl Loader.step s = s.append c

theorem unicodeEscape_small (h : c.toNat < 128) : unicodeEscape c = .ok ([92, 117] ++ Long.hexPadded 4 c.toNat) := by
  have hlt : c.toNat < 16 ^ 4 := by omega
  have hpadded := Long.padded_hexDigits (k := 4) (by omega) hlt
  have hlength := congrArg List.length hpadded
  rw [List.length_append, List.length_replicate, Long.length_hexPadded] at hlength
  have hhex : Integer.toHexString c.toNat = Integer.hexDigits c.toNat := by
    rw [Integer.toHexString, Int.emod_eq_of_lt (by omega) (by omega), Int.toNat_natCast]
  simp only [unicodeEscape, if_pos h, hhex]
  rw [if_pos (by omega), List.append_assoc, hpadded]

theorem unicodeEscape_large (h : ¬c.toNat < 128) : unicodeEscape c = .error .ioException := by
  have hbyte := c.toNat_lt
  have hlength : ∀ k n, 16 ^ k ≤ n → k < (Integer.hexDigits n).length := by
    intro k
    induction k with
    | zero =>
      intro n _
      rw [Integer.hexDigits]
      split_ifs <;> simp
    | succ k ih =>
      intro n hn
      rw [pow_succ] at hn
      have hpos : 0 < 16 ^ k := Nat.pow_pos (by omega)
      rw [Integer.hexDigits, if_neg (by omega), List.length_append, List.length_singleton]
      exact Nat.succ_lt_succ (ih (n / 16) (by omega))
  simp only [unicodeEscape, if_neg h, Integer.toHexString]
  rw [if_neg]
  exact Nat.not_le.mpr (hlength 4 _ (by omega))

theorem dumpChar_control (key : Bool) (hc : ¬IsText c) : dumpChar key c = unicodeEscape c := by
  simp only [IsText, not_or, not_and] at hc
  obtain ⟨hplain, h9, h10, h12, h13⟩ := hc
  have hrange : ¬(32 ≤ c.toNat ∧ c.toNat ≤ 126) := fun h => hplain h.1 h.2
  have hslash : ¬(c ∈ ascii "\\#!=:" ∨ key = true ∧ c = 32) := by
    rintro (hmem | ⟨-, rfl⟩)
    · have hspecial : ∀ d ∈ ascii "\\#!=:", 32 ≤ d.toNat ∧ d.toNat ≤ 126 := by decide
      exact hrange (hspecial c hmem)
    · exact hrange (by decide)
  rw [dumpChar, if_neg h9, if_neg h10, if_neg h12, if_neg h13]
  simp only [if_neg hslash, if_neg hrange, List.nil_append]
  cases unicodeEscape c <;> rfl

theorem dumpChar_eq_ok_iff (key : Bool) (c : UInt8) : (∃ text, dumpChar key c = .ok text) ↔ c.toNat < 128 := by
  by_cases hc : IsText c
  · refine iff_of_true ⟨_, dumpChar_eq key hc⟩ ?_
    rcases hc with h | rfl | rfl | rfl | rfl
    · omega
    all_goals decide
  · rw [dumpChar_control key hc]
    by_cases hsmall : c.toNat < 128
    · exact iff_of_true ⟨_, unicodeEscape_small hsmall⟩ hsmall
    · refine iff_of_false ?_ hsmall
      rw [unicodeEscape_large hsmall]
      rintro ⟨text, h⟩
      cases h

theorem foldl_control (n : Nat) (properties : Properties) :
    ([92, 117] ++ Long.hexPadded 4 n).foldl step (start properties) =
      (start properties).appendAll (117 :: Long.hexPadded 4 n) := by
  have hread : ∀ {cs : ByteString} {s : Loader}, s.Ready → (∀ c ∈ cs, Character.digit c 16 ≠ -1) →
      cs.foldl step s = s.appendAll cs := by
    intro cs s hs hcs
    induction cs generalizing s with
    | nil => rfl
    | cons c cs ih =>
      have hplain : s.step c = s.append c := by
        refine step_plain hs ?_ ?_ ?_ ?_ ?_ ?_
        · intro hmem
          have hnone : ∀ d ∈ ascii "\\#!=:", Character.digit d 16 = -1 := by decide
          exact hcs c List.mem_cons_self (hnone c hmem)
        all_goals
          rintro rfl
          exact absurd rfl (hcs _ List.mem_cons_self)
      rw [List.foldl_cons, hplain, ih hs.append fun d hd => hcs d (List.mem_cons_of_mem _ hd)]
      rfl
  have hdigits : ∀ d ∈ Long.hexPadded 4 n, Character.digit d 16 ≠ -1 := fun d hd =>
    (Long.digit_hex_iff d).mpr (Long.mem_hexPadded hd)
  rw [List.foldl_append, show ([92, 117] : ByteString).foldl step (start properties) =
    (start properties).append 117 from rfl, hread (ready_start _).append hdigits]
  rfl

theorem readsBack_iff (key : Bool) (c : UInt8) : ReadsBack key c ↔ IsText c := by
  constructor
  · rintro ⟨text, hdump, hreads⟩
    by_contra hc
    have hsmall := (dumpChar_eq_ok_iff key c).mp ⟨text, hdump⟩
    have hread := hreads (start .empty) (ready_start _) fun _ h32 => absurd (by rw [h32]; decide) hc
    rw [dumpChar_control key hc, unicodeEscape_small hsmall] at hdump
    cases hdump
    have hlength := congrArg (fun s => s.buf.length) hread
    simp only [foldl_control, appendAll_eq (ready_start _), append_eq (ready_start _), List.length_append,
      List.length_cons, Long.length_hexPadded, List.length_nil] at hlength
    omega
  · intro hc
    exact ⟨escape key c, dumpChar_eq key hc, fun s hs hblank => foldl_escape hs hc hblank⟩

theorem dumpChars_eq_ok_iff (key : Bool) (cs : ByteString) :
    (∃ text, dumpChars key cs = .ok text) ↔ ∀ c ∈ cs, c.toNat < 128 := by
  induction cs with
  | nil => exact iff_of_true ⟨[], rfl⟩ (by simp)
  | cons c cs ih =>
    rw [List.forall_mem_cons, ← ih, ← dumpChar_eq_ok_iff key c, dumpChars]
    cases dumpChar key c with
    | error e => exact iff_of_false (by rintro ⟨_, ⟨⟩⟩) (by rintro ⟨⟨_, ⟨⟩⟩, _⟩)
    | ok first =>
      cases dumpChars key cs with
      | error e => exact iff_of_false (by rintro ⟨_, ⟨⟩⟩) (by rintro ⟨_, _, ⟨⟩⟩)
      | ok rest => exact iff_of_true ⟨_, rfl⟩ ⟨⟨_, rfl⟩, _, rfl⟩

theorem dumpString_eq_ok_iff (key : Bool) (cs : ByteString) :
    (∃ text, dumpString cs key = .ok text) ↔ ∀ c ∈ cs, c.toNat < 128 := by
  rw [dumpString]
  split_ifs with hblank
  · cases cs with
    | nil => cases hblank.2
    | cons c cs =>
      have hc : c = 32 := Option.some.inj hblank.2
      rw [List.forall_mem_cons, hc, ← dumpChars_eq_ok_iff key, List.tail_cons]
      cases dumpChars key cs with
      | error e => exact iff_of_false (by rintro ⟨_, ⟨⟩⟩) (by rintro ⟨_, _, ⟨⟩⟩)
      | ok rest => exact iff_of_true ⟨_, rfl⟩ ⟨by decide, _, rfl⟩
  · exact dumpChars_eq_ok_iff key cs

theorem storeEntry_eq_ok_iff (k v : ByteString) :
    (∃ text, storeEntry (k, v) = .ok text) ↔ ∀ c ∈ k ++ v, c.toNat < 128 := by
  rw [List.forall_mem_append, ← dumpString_eq_ok_iff true, ← dumpString_eq_ok_iff false, storeEntry]
  cases dumpString k true with
  | error e => exact iff_of_false (by rintro ⟨_, ⟨⟩⟩) (by rintro ⟨⟨_, ⟨⟩⟩, _⟩)
  | ok key =>
    cases dumpString v false with
    | error e => exact iff_of_false (by rintro ⟨_, ⟨⟩⟩) (by rintro ⟨_, _, ⟨⟩⟩)
    | ok value => exact iff_of_true ⟨_, rfl⟩ ⟨⟨_, rfl⟩, _, rfl⟩

/-! ### Every comment -/

/-- A stored text loads to the same map with the comment as without it. -/
def Unread (comments : ByteString) : Prop := ∀ date entries properties, (∀ c ∈ date, c ≠ 10 ∧ c ≠ 13) →
  load (header comments date ++ entries) properties = load (header [] date ++ entries) properties

/-- White space, or the start of a comment line. -/
def IsIdle (c : UInt8) : Prop := Character.isWhitespace c = true ∨ c = 35 ∨ c = 33

instance (c : UInt8) : Decidable (IsIdle c) := inferInstanceAs (Decidable (_ ∨ _))

theorem step_idle (hc : IsIdle c) (properties : Properties) (comment : Bool) : ∃ comment',
    step { start properties with comment := comment } c =
      { start properties with comment := comment' } := by
  have hspecial : c ≠ 92 ∧ c ≠ 58 ∧ c ≠ 61 := by
    refine ⟨?_, ?_, ?_⟩ <;> rintro rfl <;> exact absurd hc (by decide)
  by_cases hbreak : c = 10 ∨ c = 13
  · refine ⟨false, ?_⟩
    rcases hbreak with rfl | rfl <;> cases comment <;> rfl
  · have hother : ¬(c = 13 ∨ c = 10) := fun h => hbreak h.symm
    cases comment with
    | true => exact ⟨true, by simp [step, hother]⟩
    | false =>
      by_cases hcomment : c = 35 ∨ c = 33
      · exact ⟨true, by simp [step, start, hcomment]⟩
      · have hspace : Character.isWhitespace c = true := hc.resolve_right hcomment
        exact ⟨false, by simp [step, start, other, hcomment, hbreak, hspecial, hspace]⟩

/-- At the start of a line where nothing is read yet, or in a comment. -/
theorem foldl_idle {text : ByteString} (htext : ∀ c ∈ text, IsIdle c) (properties : Properties) (comment : Bool) :
    ∃ comment', text.foldl step { start properties with comment := comment } =
      { start properties with comment := comment' } := by
  induction text generalizing comment with
  | nil => exact ⟨comment, rfl⟩
  | cons c text ih =>
    obtain ⟨comment', hstep⟩ := step_idle (htext c List.mem_cons_self) properties comment
    rw [List.foldl_cons, hstep]
    exact ih (fun c' hc' => htext c' (List.mem_cons_of_mem _ hc')) comment'

theorem unread_of_start {comments : ByteString} (h : ∀ properties, ([35] ++ comments ++ [10]).foldl step
    (start properties) = start properties) : Unread comments := by
  intro date entries properties _
  have hstart : ({ properties := properties } : Loader) = start properties := rfl
  by_cases hempty : comments = []
  · rw [hempty]
  · have hsplit : header comments date ++ entries = ([35] ++ comments ++ [10]) ++ (header [] date ++ entries) := by
      simp [header, hempty]
    rw [load, load, hsplit, List.foldl_append, hstart, h]

/-- A character that counts, twice so that it is one after a backslash as well. -/
theorem foldl_twice (hidle : ¬IsIdle c) :
    ([c, c].foldl step (start .empty)).Ready ∧ 0 < ([c, c].foldl step (start .empty)).buf.length ∧
      ([c, c].foldl step (start .empty)).properties = .empty := by
  by_cases hspecial : c ∈ [(92 : UInt8), 58, 61]
  · simp only [List.mem_cons, List.not_mem_nil, or_false] at hspecial
    rcases hspecial with rfl | rfl | rfl <;> exact ⟨⟨rfl, rfl⟩, by decide, rfl⟩
  · simp only [IsIdle, not_or] at hidle
    obtain ⟨hspace, h35, h33⟩ := hidle
    have hplain : ∀ {s : Loader}, s.Ready → s.step c = s.append c := by
      intro s hs
      refine step_plain hs ?_ ?_ ?_ ?_ ?_ ?_
      · intro hmem
        have hall : ∀ d ∈ ascii "\\#!=:", d ∈ [(92 : UInt8), 58, 61] ∨ d = 35 ∨ d = 33 := by decide
        rcases hall c hmem with h | h | h
        · exact hspecial h
        · exact h35 h
        · exact h33 h
      all_goals
        rintro rfl
        exact absurd rfl hspace
    have hstart := ready_start .empty
    rw [List.foldl_cons, List.foldl_cons, List.foldl_nil, hplain hstart, hplain hstart.append]
    refine ⟨hstart.append.append, ?_, ?_⟩
    · rw [append_eq hstart.append, List.length_append, List.length_singleton]
      exact Nat.succ_pos _
    · rw [append_eq hstart.append, append_eq hstart]
      rfl

/-- A line break in a comment makes what follows it an entry. -/
theorem read_of_break {b : UInt8} (hb : b = 10 ∨ b = 13) (hidle : ¬IsIdle c) :
    load (header [b, c, c] [] ++ []) .empty ≠ load (header [] [] ++ []) .empty := by
  obtain ⟨hready, hlength, hproperties⟩ := foldl_twice hidle
  have hopen : ([35, b] : ByteString).foldl step (start .empty) = start .empty := by
    rcases hb with rfl | rfl <;> rfl
  have hput : ∀ k v : ByteString, (OrderedMap.empty : Properties).insert k v ≠ .empty := by
    intro k v h
    have hfind := congrArg (fun m => m.find k) h
    rw [OrderedMap.find_insert, if_pos rfl, OrderedMap.find_empty] at hfind
    cases hfind
  have hsplit : header [b, c, c] [] ++ [] = [35, b] ++ [c, c] ++ [10] ++ [35, 10] := rfl
  have hstart : ({ properties := .empty } : Loader) = start .empty := rfl
  have hline : ∀ s : Loader, [(10 : UInt8)].foldl step s = s.step 10 := fun s => rfl
  rw [load, hsplit, List.foldl_append, List.foldl_append, List.foldl_append, hstart, hopen, hline,
    step_lineFeed hready, newLine, if_pos (.inl hlength), putAt, hproperties]
  exact hput _ _

/-- The comments over an alphabet are not read exactly when it has no line break, or nothing that makes an entry. -/
theorem unread_iff (A : Set UInt8) : (∀ comments, (∀ c ∈ comments, c ∈ A) → Unread comments) ↔
    (∀ c ∈ A, c ≠ 10 ∧ c ≠ 13) ∨ ∀ c ∈ A, IsIdle c := by
  constructor
  · intro h
    by_contra hnot
    rw [not_or] at hnot
    obtain ⟨hbreak, hidle⟩ := hnot
    push Not at hbreak hidle
    obtain ⟨b, hb, hbreak⟩ := hbreak
    obtain ⟨x, hx, hidle⟩ := hidle
    have hline : b = 10 ∨ b = 13 := by
      by_cases h10 : b = 10
      · exact .inl h10
      · exact .inr (hbreak h10)
    exact read_of_break hline hidle (h [b, x, x] (by simp [hb, hx]) [] [] .empty (by simp))
  · rintro (hA | hA) comments hcomments
    · exact unread_of_start fun properties => foldl_commentLine (fun c hc => hA c (hcomments c hc)) properties
    · apply unread_of_start
      intro properties
      obtain ⟨comment, hfold⟩ := foldl_idle (fun c hc => hA c (hcomments c hc)) properties true
      have hopen : ([35] : ByteString).foldl step (start properties) =
          { start properties with comment := true } := rfl
      rw [List.foldl_append, List.foldl_append, hopen, hfold]
      cases comment <;> rfl

/-- An entry is stored when its bytes are below 128; a byte is read back when it is a character of texts. -/
theorem escapes_iff (k v : ByteString) (A : Set UInt8) :
    ((∃ text, storeEntry (k, v) = .ok text) ↔ ∀ c ∈ k ++ v, c.toNat < 128) ∧
    (∀ key c, ReadsBack key c ↔ IsText c) ∧
    ((∀ comments, (∀ c ∈ comments, c ∈ A) → Unread comments) ↔ (∀ c ∈ A, c ≠ 10 ∧ c ≠ 13) ∨ ∀ c ∈ A, IsIdle c) :=
  ⟨storeEntry_eq_ok_iff k v, readsBack_iff, unread_iff A⟩

/-- A byte from 128 on, a control character, and a comment of two lines. -/
theorem not_escapes : (storeEntry ([233], [])).isOk = false ∧ ¬ReadsBack true 1 ∧ ¬Unread (ascii "a\nb") := by
  refine ⟨by decide +kernel, fun h => absurd ((readsBack_iff true 1).mp h) (by decide), fun h => ?_⟩
  exact absurd (h [] [] .empty (by simp)) (by decide +kernel)

end ActiveMQCpp.Decaf.Properties
