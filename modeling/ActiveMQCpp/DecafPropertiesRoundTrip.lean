import ActiveMQCpp.DecafProperties

/-! Loading what `Properties::store` wrote. -/

namespace ActiveMQCpp.Decaf.Properties

open MachineInt List Loader OrderedMap

variable {s : Loader} {key : Bool} {c : UInt8} {cs : ByteString}

/-- The characters of the texts: printable ones, tab, line feed, form feed and carriage return. -/
def IsText (c : UInt8) : Prop := 32 ≤ c.toNat ∧ c.toNat ≤ 126 ∨ c = 9 ∨ c = 10 ∨ c = 12 ∨ c = 13

instance (c : UInt8) : Decidable (IsText c) := by
  unfold IsText
  infer_instance

/-- What `dumpChar` writes for one of them. -/
def escape (key : Bool) (c : UInt8) : ByteString :=
  if c = 9 then [92, 116]
  else if c = 10 then [92, 110]
  else if c = 12 then [92, 102]
  else if c = 13 then [92, 114]
  else if c ∈ ascii "\\#!=:" ∨ (key = true ∧ c = 32) then [92, c]
  else [c]

theorem dumpChar_eq (key : Bool) (h : IsText c) : dumpChar key c = .ok (escape key c) := by
  rw [dumpChar, escape]
  by_cases h9 : c = 9
  · rw [if_pos h9, if_pos h9]
  by_cases h10 : c = 10
  · rw [if_neg h9, if_neg h9, if_pos h10, if_pos h10]
  by_cases h12 : c = 12
  · rw [if_neg h9, if_neg h9, if_neg h10, if_neg h10, if_pos h12, if_pos h12]
  by_cases h13 : c = 13
  · rw [if_neg h9, if_neg h9, if_neg h10, if_neg h10, if_neg h12, if_neg h12, if_pos h13, if_pos h13]
  have hprintable : 32 ≤ c.toNat ∧ c.toNat ≤ 126 := by
    rcases h with h | rfl | rfl | rfl | rfl
    · exact h
    · exact absurd rfl h9
    · exact absurd rfl h10
    · exact absurd rfl h12
    · exact absurd rfl h13
  simp only [if_neg h9, if_neg h10, if_neg h12, if_neg h13, if_pos hprintable]
  split_ifs <;> rfl

def escapes : List (Bool × UInt8) → ByteString
  | [] => []
  | (key, c) :: cs => escape key c ++ escapes cs

def keyed (cs : ByteString) : List (Bool × UInt8) := cs.map fun c => (true, c)

/-- The characters of a value; a blank at its start is escaped as in a key. -/
def valued : ByteString → List (Bool × UInt8)
  | [] => []
  | c :: cs => (decide (c = 32), c) :: cs.map fun c => (false, c)

theorem map_snd_valued (cs : ByteString) : (valued cs).map Prod.snd = cs := by
  cases cs with
  | nil => rfl
  | cons c cs => rw [valued, map_cons, map_map]; simp

theorem map_snd_keyed (cs : ByteString) : (keyed cs).map Prod.snd = cs := by
  rw [keyed, map_map]
  simp

theorem dumpChars_eq (key : Bool) (h : ∀ c ∈ cs, IsText c) :
    dumpChars key cs = .ok (escapes (cs.map fun c => (key, c))) := by
  induction cs with
  | nil => rfl
  | cons c cs ih =>
    have hrest := ih fun c' hc' => h c' (mem_cons_of_mem _ hc')
    simp only [dumpChars, dumpChar_eq key (h c mem_cons_self), hrest, bind, Except.bind]
    rfl

theorem dumpString_key (h : ∀ c ∈ cs, IsText c) : dumpString cs true = .ok (escapes (keyed cs)) := by
  rw [dumpString, if_neg (by simp), dumpChars_eq true h, keyed]

theorem dumpString_value (h : ∀ c ∈ cs, IsText c) : dumpString cs false = .ok (escapes (valued cs)) := by
  cases cs with
  | nil => rfl
  | cons c cs =>
    rw [dumpString, valued]
    by_cases hblank : c = 32
    · have hrest := dumpChars_eq false fun c' hc' => h c' (mem_cons_of_mem c hc')
      subst hblank
      simp only [List.head?_cons, tail_cons, hrest, bind, Except.bind]
      rfl
    · have hcond : ¬ (false = false ∧ (c :: cs).head? = some 32) := by simpa using hblank
      rw [if_neg hcond, dumpChars_eq false h, decide_eq_false hblank]
      rfl

/-! ### Reading an escaped character -/

namespace Loader

/-- Not in a comment, and nothing pending from the characters before. -/
structure Ready (s : Loader) : Prop where
  comment : s.comment = false
  mode : s.mode = .none

theorem append_eq (h : s.Ready) : s.append c = { s with firstChar := false, buf := s.buf ++ [c] } := by
  rw [append]
  simp [h.mode]

theorem Ready.append (h : s.Ready) : (s.append c).Ready := by
  rw [append_eq h]
  exact ⟨h.comment, h.mode⟩

def appendAll (s : Loader) (cs : ByteString) : Loader := cs.foldl (fun s c => s.append c) s

theorem appendAll_eq (h : s.Ready) (cs : ByteString) :
    s.appendAll cs = { s with firstChar := s.firstChar && cs.isEmpty, buf := s.buf ++ cs } := by
  induction cs generalizing s with
  | nil =>
    rw [append_nil, isEmpty_nil, Bool.and_true]
    rfl
  | cons c cs ih =>
    rw [appendAll, foldl_cons, ← appendAll, ih h.append, append_eq h, isEmpty_cons, Bool.and_false,
      Bool.false_and, append_assoc]
    rfl

theorem Ready.appendAll (h : s.Ready) (cs : ByteString) : (s.appendAll cs).Ready := by
  rw [appendAll_eq h]
  exact ⟨h.comment, h.mode⟩

/-- A value has been begun, so that a blank belongs to it. -/
def InValue (s : Loader) : Prop := ∃ k, s.keyLength = some k ∧ k < s.buf.length

end Loader

theorem escape_cases (key : Bool) (h : IsText c) :
    (∃ x, escape key c = [92, x] ∧ ∀ s : Loader, ({ s with mode := .slash } : Loader).afterSlash x =
      ({ s with mode := .none } : Loader).append c) ∨
      (escape key c = [c] ∧ c ∉ ascii "\\#!=:" ∧ c ≠ 9 ∧ c ≠ 10 ∧ c ≠ 12 ∧ c ≠ 13 ∧ (c = 32 → key = false)) := by
  rw [escape]
  by_cases h9 : c = 9
  · subst h9
    exact .inl ⟨116, rfl, fun s => rfl⟩
  by_cases h10 : c = 10
  · subst h10
    exact .inl ⟨110, rfl, fun s => rfl⟩
  by_cases h12 : c = 12
  · subst h12
    exact .inl ⟨102, rfl, fun s => rfl⟩
  by_cases h13 : c = 13
  · subst h13
    exact .inl ⟨114, rfl, fun s => rfl⟩
  rw [if_neg h9, if_neg h10, if_neg h12, if_neg h13]
  by_cases hspecial : c ∈ ascii "\\#!=:" ∨ (key = true ∧ c = 32)
  · rw [if_pos hspecial]
    refine .inl ⟨c, rfl, ?_⟩
    intro s
    have hself : c = 92 ∨ c = 35 ∨ c = 33 ∨ c = 61 ∨ c = 58 ∨ c = 32 := by
      rcases hspecial with hmem | ⟨-, hblank⟩
      · have hall : ∀ d ∈ ascii "\\#!=:", d = 92 ∨ d = 35 ∨ d = 33 ∨ d = 61 ∨ d = 58 ∨ d = 32 := by decide
        exact hall c hmem
      · simp [hblank]
    rcases hself with rfl | rfl | rfl | rfl | rfl | rfl <;> rfl
  · rw [if_neg hspecial]
    push Not at hspecial
    refine .inr ⟨rfl, hspecial.1, h9, h10, h12, h13, ?_⟩
    intro hblank
    cases key with
    | false => rfl
    | true => exact absurd hblank (hspecial.2 rfl)

namespace Loader

variable {k : ByteString}
variable {v text : ByteString}

theorem step_slash (h : s.Ready) : s.step 92 = { s with mode := .slash } := by
  rw [step]
  simp [h.comment, h.mode]

theorem step_plain (h : s.Ready) (hspecial : c ∉ ascii "\\#!=:") (h9 : c ≠ 9) (h10 : c ≠ 10) (h12 : c ≠ 12) (h13 : c ≠ 13)
    (hblank : c = 32 → s.InValue) : s.step c = s.append c := by
  have hmem : ∀ d ∈ ascii "\\#!=:", c ≠ d := by
    intro d hd heq
    exact hspecial (heq ▸ hd)
  have h92 : c ≠ 92 := hmem 92 (by decide)
  have h35 : c ≠ 35 := hmem 35 (by decide)
  have h33 : c ≠ 33 := hmem 33 (by decide)
  have h61 : c ≠ 61 := hmem 61 (by decide)
  have h58 : c ≠ 58 := hmem 58 (by decide)
  have hother : s.step c = s.other c := by
    rw [step]
    simp [h.comment, h.mode, h10, h13, h92, h35, h33, h61, h58]
  rw [hother, other]
  by_cases h32 : c = 32
  · obtain ⟨k, hkey, hlt⟩ := hblank h32
    have hlength : ¬ s.buf.length = 0 := by omega
    have hne : ¬ k = s.buf.length := by omega
    subst h32
    have hspace : Character.isWhitespace 32 = true := rfl
    simp [hspace, h.mode, hkey, hlength, hne]
  · have hspace : Character.isWhitespace c = false := by
      simp [Character.isWhitespace, h9, h10, h12, h13, h32]
    simp [hspace, h.mode]

/-- Where a blank that is not escaped belongs to a value. -/
def Fits (s : Loader) : List (Bool × UInt8) → Prop
  | [] => True
  | (key, c) :: cs => (key = false → c = 32 → s.InValue) ∧ (s.append c).Fits cs

theorem foldl_escape (h : s.Ready) (hc : IsText c) (hblank : key = false → c = 32 → s.InValue) :
    (escape key c).foldl step s = s.append c := by
  rcases escape_cases key hc with ⟨x, hescape, hx⟩ | ⟨hescape, hspecial, h9, h10, h12, h13, hkey⟩
  · have hs : ({ s with mode := .none } : Loader) = s := by
      rw [← h.mode]
    have hcomment : ¬ ({ s with mode := .slash } : Loader).comment = true := by
      rw [h.comment]
      exact Bool.false_ne_true
    rw [hescape, foldl_cons, foldl_cons, foldl_nil, step_slash h, step, if_neg hcomment, if_pos rfl, hx, hs]
  · rw [hescape]
    exact step_plain h hspecial h9 h10 h12 h13 fun h32 => hblank (hkey h32) h32

theorem foldl_escapes {cs : List (Bool × UInt8)} (h : s.Ready) (hcs : ∀ c ∈ cs, IsText c.2) (hfits : s.Fits cs) :
    (escapes cs).foldl step s = s.appendAll (cs.map Prod.snd) := by
  induction cs generalizing s with
  | nil => rfl
  | cons c cs ih =>
    obtain ⟨hblank, hrest⟩ := hfits
    rw [escapes, foldl_append, foldl_escape h (hcs c mem_cons_self) hblank,
      ih h.append (fun c' hc' => hcs c' (mem_cons_of_mem _ hc')) hrest, map_cons, appendAll, appendAll,
      foldl_cons]

theorem fits_keyed (s : Loader) (cs : ByteString) : s.Fits (keyed cs) := by
  induction cs generalizing s with
  | nil => trivial
  | cons c cs ih => exact ⟨fun h => absurd h.symm Bool.false_ne_true, ih _⟩

theorem fits_inValue (h : s.Ready) (hvalue : s.InValue) (cs : ByteString) : s.Fits (cs.map fun c => (false, c)) := by
  induction cs generalizing s with
  | nil => trivial
  | cons c cs ih =>
    refine ⟨fun _ _ => hvalue, ih h.append ?_⟩
    obtain ⟨k, hkey, hlt⟩ := hvalue
    rw [append_eq h]
    refine ⟨k, hkey, ?_⟩
    rw [length_append]
    omega

theorem fits_valued (h : s.Ready) {k : Nat} (hkey : s.keyLength = some k) (hle : k ≤ s.buf.length) (cs : ByteString) :
    s.Fits (valued cs) := by
  cases cs with
  | nil => trivial
  | cons c cs =>
    refine ⟨?_, fits_inValue h.append ?_ cs⟩
    · intro hflag hblank
      exact absurd hblank (of_decide_eq_false hflag)
    · rw [append_eq h]
      refine ⟨k, hkey, ?_⟩
      rw [length_append, length_singleton]
      omega

/-! ### Lines -/

def start (properties : Properties) : Loader := { properties := properties }

theorem ready_start (properties : Properties) : (start properties).Ready := ⟨rfl, rfl⟩

theorem step_equals (h : s.Ready) (hkey : s.keyLength = none) : s.step 61 = { s with keyLength := some s.buf.length } := by
  have hmode := h.mode
  rw [step]
  simp [h.comment, hmode, hkey]

theorem step_lineFeed (h : s.Ready) : s.step 10 = s.newLine := by
  rw [step]
  simp [h.comment, h.mode]

theorem foldl_key (hk : ∀ c ∈ k, IsText c) (properties : Properties) :
    (escapes (keyed k) ++ [61]).foldl step (start properties) =
      { firstChar := k.isEmpty, keyLength := some k.length, buf := k, properties := properties } := by
  have hstart := ready_start properties
  have hkeyed : ∀ c ∈ keyed k, IsText c.2 := by
    intro c hc
    obtain ⟨d, hd, rfl⟩ := mem_map.mp hc
    exact hk d hd
  rw [foldl_append, foldl_escapes hstart hkeyed (fits_keyed _ k), map_snd_keyed, foldl_cons, foldl_nil]
  have hread := appendAll_eq hstart k
  rw [step_equals (hstart.appendAll k) (by rw [hread]; rfl), hread]
  rfl

theorem foldl_value (hv : ∀ c ∈ v, IsText c) (firstChar : Bool) (properties : Properties) :
    (escapes (valued v)).foldl step { firstChar := firstChar, keyLength := some k.length, buf := k, properties := properties }
      = { firstChar := firstChar && v.isEmpty, keyLength := some k.length, buf := k ++ v, properties := properties } := by
  have hready : ({ firstChar := firstChar, keyLength := some k.length, buf := k, properties := properties } : Loader).Ready :=
    ⟨rfl, rfl⟩
  have hvalued : ∀ c ∈ valued v, IsText c.2 := by
    intro c hc
    have hmem := mem_map_of_mem (f := Prod.snd) hc
    rw [map_snd_valued] at hmem
    exact hv c.2 hmem
  rw [foldl_escapes hready hvalued (fits_valued hready rfl (le_refl _) v), map_snd_valued, appendAll_eq hready]

theorem foldl_entry (hk : ∀ c ∈ k, IsText c) (hv : ∀ c ∈ v, IsText c) (properties : Properties) :
    (escapes (keyed k) ++ [61] ++ escapes (valued v) ++ [10]).foldl step (start properties) =
      start (properties.insert k v) := by
  rw [foldl_append, foldl_append, foldl_key hk, foldl_value hv, foldl_cons, foldl_nil,
    step_lineFeed ⟨rfl, rfl⟩, newLine]
  have hput : (k ++ v).length > 0 ∨ some k.length = some 0 := by
    cases k with
    | nil => exact .inr rfl
    | cons c k => exact .inl (Nat.zero_lt_succ _)
  rw [if_pos hput, start, putAt]
  simp only [Option.getD_some, take_left, drop_left]

/-! ### Comments -/

theorem foldl_comment (htext : ∀ c ∈ text, c ≠ 10 ∧ c ≠ 13) (hcomment : s.comment = true) :
    text.foldl step s = s := by
  induction text with
  | nil => rfl
  | cons c text ih =>
    obtain ⟨h10, h13⟩ := htext c mem_cons_self
    have hstep : s.step c = s := by
      rw [step]
      simp [hcomment, h10, h13]
    rw [foldl_cons, hstep]
    exact ih fun c' hc' => htext c' (mem_cons_of_mem _ hc')

theorem foldl_commentLine (htext : ∀ c ∈ text, c ≠ 10 ∧ c ≠ 13) (properties : Properties) :
    ([35] ++ text ++ [10]).foldl step (start properties) = start properties := by
  have hopen : ([35] : ByteString).foldl step (start properties) = { start properties with comment := true } := rfl
  rw [foldl_append, foldl_append, hopen, foldl_comment htext rfl]
  rfl

theorem foldl_header {comments date : ByteString} (hcomments : ∀ c ∈ comments, c ≠ 10 ∧ c ≠ 13)
    (hdate : ∀ c ∈ date, c ≠ 10 ∧ c ≠ 13) (properties : Properties) :
    (header comments date).foldl step (start properties) = start properties := by
  have hline := foldl_commentLine hdate properties
  rw [header]
  by_cases hempty : comments = []
  · rw [if_neg (not_not.mpr hempty), nil_append]
    exact hline
  · rw [if_pos hempty, append_assoc, append_assoc, foldl_append, foldl_commentLine hcomments,
      ← append_assoc]
    exact hline

end Loader

/-! ### All entries -/

def entryText (entry : ByteString × ByteString) : ByteString :=
  escapes (keyed entry.1) ++ [61] ++ escapes (valued entry.2) ++ [10]

def entriesText (entries : List (ByteString × ByteString)) : ByteString := (entries.map entryText).flatten

/-- The keys and values consist of the characters that the texts may have. -/
def IsTexts (entries : List (ByteString × ByteString)) : Prop :=
  ∀ e ∈ entries, (∀ c ∈ e.1, IsText c) ∧ ∀ c ∈ e.2, IsText c

variable {entries : List (ByteString × ByteString)}
variable {comments date q k : ByteString} {properties : Properties}

theorem storeEntries_eq (h : IsTexts entries) : storeEntries entries = .ok (entriesText entries) := by
  induction entries with
  | nil => rfl
  | cons e entries ih =>
    obtain ⟨hkey, hvalue⟩ := h e mem_cons_self
    have hfirst : storeEntry e = .ok (entryText e) := by
      rw [storeEntry, dumpString_key hkey, dumpString_value hvalue]
      rfl
    have hrest := ih fun e' he' => h e' (mem_cons_of_mem _ he')
    rw [storeEntries, hfirst, hrest]
    rfl

theorem foldl_entries (h : IsTexts entries) (properties : Properties) :
    (entriesText entries).foldl step (start properties) =
      start (entries.foldl (fun m e => m.insert e.1 e.2) properties) := by
  induction entries generalizing properties with
  | nil => rfl
  | cons e entries ih =>
    obtain ⟨hkey, hvalue⟩ := h e mem_cons_self
    rw [entriesText, map_cons, flatten_cons, foldl_append, ← entriesText, entryText,
      foldl_entry hkey hvalue, ih fun e' he' => h e' (mem_cons_of_mem _ he')]
    rfl

def storeText (comments date : ByteString) (properties : Properties) : ByteString :=
  header comments date ++ entriesText properties.entries

theorem load_storeText (hcomments : ∀ c ∈ comments, c ≠ 10 ∧ c ≠ 13)
    (hdate : ∀ c ∈ date, c ≠ 10 ∧ c ≠ 13) (h : IsTexts properties.entries) :
    load (storeText comments date properties) .empty = properties := by
  have hall : (empty : Properties).putAll properties = properties := empty_putAll properties
  rw [putAll] at hall
  rw [load, storeText, foldl_append]
  have hheader := foldl_header hcomments hdate .empty
  rw [start] at hheader
  rw [hheader, ← start, foldl_entries h, hall]
  rfl

/-! ### A text that has been cut off -/

theorem prefix_append_cases {a b : ByteString} (h : q <+: a ++ b) :
    (q <+: a ∧ q.length < a.length) ∨ ∃ rest, q = a ++ rest ∧ rest <+: b := by
  by_cases hlt : q.length < a.length
  · exact .inl ⟨prefix_of_prefix_length_le h (prefix_append a b) hlt.le, hlt⟩
  · obtain ⟨rest, rfl⟩ := prefix_of_prefix_length_le (prefix_append a b) h (by omega)
    exact .inr ⟨rest, rfl, (prefix_append_right_inj a).mp h⟩

namespace Loader

variable {q : ByteString}
variable {k v : ByteString}

theorem finish_part (h : s.Ready) (hc : IsText c) (hq : q <+: escape key c)
    (hlt : q.length < (escape key c).length) : (q.foldl step s).finish = s.finish := by
  rcases escape_cases key hc with ⟨x, hescape, -⟩ | ⟨hescape, -⟩
  · rw [hescape] at hq hlt
    rcases prefix_cons_iff.mp hq with rfl | ⟨rest, rfl, hrest⟩
    · rfl
    · have hnil : rest = [] := by
        apply eq_nil_of_length_eq_zero
        simp only [length_cons, length_nil] at hlt
        omega
      rw [hnil, foldl_cons, foldl_nil, step_slash h]
      rfl
  · rw [hescape] at hlt
    have hnil : q = [] := by
      apply eq_nil_of_length_eq_zero
      simp only [length_cons, length_nil] at hlt
      omega
    rw [hnil, foldl_nil]

theorem finish_escapes {cs : List (Bool × UInt8)} (h : s.Ready) (hcs : ∀ c ∈ cs, IsText c.2) (hfits : s.Fits cs)
    (hq : q <+: escapes cs) (hlt : q.length < (escapes cs).length) :
    ∃ n, n < cs.length ∧ (q.foldl step s).finish = (s.appendAll ((cs.map Prod.snd).take n)).finish := by
  induction cs generalizing s q with
  | nil => exact absurd hlt (Nat.not_lt_zero _)
  | cons c cs ih =>
    obtain ⟨hblank, hrest⟩ := hfits
    have hc := hcs c mem_cons_self
    rw [escapes] at hq hlt
    rcases prefix_append_cases hq with ⟨hpart, hshort⟩ | ⟨rest, rfl, hprefix⟩
    · exact ⟨0, Nat.zero_lt_succ _, finish_part h hc hpart hshort⟩
    · have hless : rest.length < (escapes cs).length := by
        rw [length_append, length_append] at hlt
        omega
      obtain ⟨n, hn, hfinish⟩ :=
        ih h.append (fun c' hc' => hcs c' (mem_cons_of_mem _ hc')) hrest hprefix hless
      refine ⟨n + 1, Nat.succ_lt_succ hn, ?_⟩
      rw [foldl_append, foldl_escape h hc hblank, hfinish]
      rfl

theorem isText_keyed (hk : ∀ c ∈ k, IsText c) : ∀ c ∈ keyed k, IsText c.2 := by
  intro c hc
  obtain ⟨d, hd, rfl⟩ := mem_map.mp hc
  exact hk d hd

theorem isText_valued (hv : ∀ c ∈ v, IsText c) : ∀ c ∈ valued v, IsText c.2 := by
  intro c hc
  have hmem := mem_map_of_mem (f := Prod.snd) hc
  rw [map_snd_valued] at hmem
  exact hv c.2 hmem

/-- What the end of the stream makes of a key without a separator. -/
def putKey (k : ByteString) (properties : Properties) : Properties := if k = [] then properties else properties.insert k []

theorem finish_key (k : ByteString) (properties : Properties) :
    ((start properties).appendAll k).finish = putKey k properties := by
  rw [appendAll_eq (ready_start properties), putKey, finish]
  cases k with
  | nil => rfl
  | cons c k =>
    have hput : ∀ s : Loader, s.buf = c :: k → s.putAt (c :: k).length = s.properties.insert (c :: k) [] := by
      intro s hs
      rw [putAt, hs, take_length, drop_length]
    exact hput _ rfl

theorem finish_value (k v : ByteString) (firstChar : Bool) (properties : Properties) :
    finish { firstChar := firstChar, keyLength := some k.length, buf := k ++ v, properties := properties } =
      properties.insert k v := by
  have hkey : ¬ (some k.length = none ∧ (k ++ v).length > 0) := fun h => Option.some_ne_none _ h.1
  simp only [finish, if_neg hkey, putAt, take_left, drop_left]

theorem finish_entry (hk : ∀ c ∈ k, IsText c) (hv : ∀ c ∈ v, IsText c) (properties : Properties)
    (hq : q <+: entryText (k, v)) :
    (∃ n, (q.foldl step (start properties)).finish = putKey (k.take n) properties ∧
      (k.length ≤ n → (entryText (k, v)).length ≤ q.length + (escapes (valued v)).length + 2)) ∨
      ∃ n, n ≤ v.length ∧ (q.foldl step (start properties)).finish = properties.insert k (v.take n) ∧
        (n = v.length → (entryText (k, v)).length ≤ q.length + 1) := by
  have hstart := ready_start properties
  have htext : entryText (k, v) = escapes (keyed k) ++ ([61] ++ (escapes (valued v) ++ [10])) := by
    rw [entryText, append_assoc, append_assoc]
  rw [htext] at hq ⊢
  simp only [length_append, length_singleton]
  rcases prefix_append_cases hq with ⟨hpart, hlt⟩ | ⟨rest, rfl, hrest⟩
  · obtain ⟨n, hn, hfinish⟩ := finish_escapes hstart (isText_keyed hk) (fits_keyed _ k) hpart hlt
    rw [map_snd_keyed, finish_key] at hfinish
    rw [keyed, length_map] at hn
    exact .inl ⟨n, hfinish, fun hall => absurd hn (not_lt.mpr hall)⟩
  have hkeyRun : (escapes (keyed k)).foldl step (start properties) = (start properties).appendAll k := by
    rw [foldl_escapes hstart (isText_keyed hk) (fits_keyed _ k), map_snd_keyed]
  rcases prefix_append_cases hrest with ⟨-, hlt⟩ | ⟨value, rfl, hvalue⟩
  · have hnil : rest = [] := eq_nil_of_length_eq_zero (by rw [length_singleton] at hlt; omega)
    refine .inl ⟨k.length, ?_, fun _ => by simp only [length_append]; omega⟩
    rw [hnil, append_nil, hkeyRun, finish_key, take_length]
  have hready : ({ firstChar := k.isEmpty, keyLength := some k.length, buf := k, properties := properties } :
    Loader).Ready := ⟨rfl, rfl⟩
  right
  rw [← append_assoc, foldl_append, foldl_key hk]
  simp only [length_append, length_singleton]
  rcases prefix_append_cases hvalue with ⟨hpart, hlt⟩ | ⟨newline, rfl, hnewline⟩
  · obtain ⟨n, hn, hfinish⟩ :=
      finish_escapes hready (isText_valued hv) (fits_valued hready rfl (le_refl _) v) hpart hlt
    have hlength : (valued v).length = v.length := by
      rw [← length_map (f := Prod.snd), map_snd_valued]
    rw [map_snd_valued, appendAll_eq hready, finish_value] at hfinish
    exact ⟨n, by omega, hfinish, by omega⟩
  · refine ⟨v.length, le_refl _, ?_, fun _ => by simp only [length_append]; omega⟩
    rw [foldl_append, foldl_value hv, take_length]
    rcases prefix_cons_iff.mp hnewline with rfl | ⟨nothing, rfl, hnil⟩
    · rw [foldl_nil, finish_value]
    · have hentry := foldl_entry hk hv properties
      rw [foldl_append, foldl_append, foldl_key hk, foldl_value hv] at hentry
      rw [prefix_nil.mp hnil, hentry]
      rfl

theorem finish_commentLine {text : ByteString} (htext : ∀ c ∈ text, c ≠ 10 ∧ c ≠ 13) (properties : Properties)
    (hq : q <+: [35] ++ text ++ [10]) : (q.foldl step (start properties)).finish = properties := by
  rw [append_assoc] at hq
  rcases prefix_append_cases hq with ⟨-, hlt⟩ | ⟨rest, rfl, hrest⟩
  · have hnil : q = [] := eq_nil_of_length_eq_zero (by rw [length_singleton] at hlt; omega)
    rw [hnil]
    rfl
  have hopen : ([35] : ByteString).foldl step (start properties) = { start properties with comment := true } := rfl
  rcases prefix_concat_iff.mp hrest with hall | hpart
  · have hline := foldl_commentLine htext properties
    rw [append_assoc, ← hall] at hline
    rw [hline]
    rfl
  · rw [foldl_append, hopen, foldl_comment (fun c hc => htext c (hpart.subset hc)) rfl]
    rfl

theorem finish_header {comments date : ByteString} (hcomments : ∀ c ∈ comments, c ≠ 10 ∧ c ≠ 13)
    (hdate : ∀ c ∈ date, c ≠ 10 ∧ c ≠ 13) (properties : Properties) (hq : q <+: header comments date) :
    (q.foldl step (start properties)).finish = properties := by
  rw [header] at hq
  by_cases hempty : comments = []
  · rw [if_neg (not_not.mpr hempty), nil_append] at hq
    exact finish_commentLine hdate properties hq
  · rw [if_pos hempty, append_assoc, append_assoc] at hq
    rcases prefix_append_cases hq with ⟨hpart, -⟩ | ⟨rest, rfl, hrest⟩
    · exact finish_commentLine hcomments properties hpart
    · rw [foldl_append, foldl_commentLine hcomments]
      rw [← append_assoc] at hrest
      exact finish_commentLine hdate properties hrest

end Loader

def KeysBelow (bound : ByteString) (properties : Properties) : Prop :=
  ∀ k, (properties.find k).isSome = true → k < bound

variable {bound : ByteString}
variable {text : ByteString}

theorem KeysBelow.insert (h : KeysBelow bound properties) (hk : k < bound)
    (v : ByteString) : KeysBelow bound (properties.insert k v) := by
  intro k' hfound
  rw [find_insert] at hfound
  split_ifs at hfound with heq
  · exact heq ▸ hk
  · exact h k' hfound

theorem KeysBelow.putKey (h : KeysBelow bound properties) (hk : k < bound) :
    KeysBelow bound (putKey k properties) := by
  rw [Loader.putKey]
  split_ifs
  · exact h
  · exact h.insert hk []

theorem take_lt (hk : k < bound) (n : Nat) : k.take n < bound := by
  have hnot : ¬ k < k.take n := (List.take_prefix n k).le
  exact lt_of_le_of_lt (not_lt.mp hnot) hk

theorem keysBelow_entries (h : IsTexts entries) (hkeys : ∀ e ∈ entries, e.1 < bound)
    (hbelow : KeysBelow bound properties) (hq : q <+: entriesText entries) :
    KeysBelow bound (q.foldl step (start properties)).finish := by
  induction entries generalizing properties q with
  | nil =>
    rw [prefix_nil.mp hq]
    exact hbelow
  | cons e entries ih =>
    obtain ⟨hkey, hvalue⟩ := h e mem_cons_self
    have hlt := hkeys e mem_cons_self
    rw [entriesText, map_cons, flatten_cons, ← entriesText] at hq
    rcases prefix_append_cases hq with ⟨hpart, -⟩ | ⟨rest, rfl, hrest⟩
    · rcases finish_entry hkey hvalue properties hpart with ⟨n, hfinish, -⟩ | ⟨n, -, hfinish, -⟩
      · rw [hfinish]
        exact hbelow.putKey (take_lt hlt n)
      · rw [hfinish]
        exact hbelow.insert hlt _
    · rw [foldl_append, entryText, foldl_entry hkey hvalue]
      exact ih (fun e' he' => h e' (mem_cons_of_mem _ he')) (fun e' he' => hkeys e' (mem_cons_of_mem _ he'))
        (hbelow.insert hlt _) hrest

theorem find_last {v : ByteString} (hk : ∀ c ∈ k, IsText c) (hv : ∀ c ∈ v, IsText c)
    (hbelow : KeysBelow k properties) (hq : q <+: entryText (k, v))
    (hshort : q.length + 3 ≤ (entryText (k, v)).length) :
    (q.foldl step (start properties)).finish.find k ≠ some v := by
  have hnone : properties.find k = none := by
    cases hfound : properties.find k with
    | none => rfl
    | some v' => exact absurd (hbelow k (by rw [hfound]; rfl)) (lt_irrefl k)
  rcases finish_entry hk hv properties hq with ⟨n, hfinish, hlength⟩ | ⟨n, hle, hfinish, hfull⟩
  · rw [hfinish, putKey]
    split_ifs with hempty
    · rw [hnone]
      exact Option.some_ne_none v ∘ Eq.symm
    · rw [find_insert]
      split_ifs with hkey
      · -- the value would be empty
        intro heq
        have hnil : v = [] := (Option.some.inj heq).symm
        have hall : k.length ≤ n := by
          have := congrArg List.length hkey
          rw [length_take] at this
          omega
        have hlong := hlength hall
        rw [hnil] at hlong hshort
        have hzero : (escapes (valued [])).length = 0 := rfl
        omega
      · rw [hnone]
        exact Option.some_ne_none v ∘ Eq.symm
  · rw [hfinish, find_insert, if_pos rfl]
    intro heq
    have hlength : n = v.length := by
      have := congrArg List.length (Option.some.inj heq)
      rw [length_take] at this
      omega
    have := hfull hlength
    omega

/-- A map is not loaded from a part of its text that lacks more than the separator and the end of the last line. -/
theorem load_prefix (hcomments : ∀ c ∈ comments, c ≠ 10 ∧ c ≠ 13)
    (hdate : ∀ c ∈ date, c ≠ 10 ∧ c ≠ 13) (h : IsTexts properties.entries)
    (hsome : properties.entries ≠ []) (hq : q <+: storeText comments date properties)
    (hshort : q.length + 3 ≤ (storeText comments date properties).length) : load q .empty ≠ properties := by
  obtain ⟨init, ⟨k, v⟩, hentries⟩ : ∃ init last, properties.entries = init ++ [last] :=
    ⟨_, _, (dropLast_append_getLast hsome).symm⟩
  have hfound : properties.find k = some v := by
    rw [find_eq_some, hentries]
    exact mem_append_right _ mem_cons_self
  have hsorted : ∀ e ∈ init, e.1 < k := by
    have hpairs := properties.sorted
    rw [hentries, OrderedMap.Sorted, pairwise_append] at hpairs
    exact fun e he => hpairs.2.2 e he (k, v) mem_cons_self
  rw [hentries] at h
  have hinit : IsTexts init := fun e he => h e (mem_append_left _ he)
  obtain ⟨hk, hv⟩ := h (k, v) (mem_append_right _ mem_cons_self)
  have hnone : KeysBelow k (.empty : Properties) := by
    intro k' hk'
    rw [find_empty] at hk'
    cases hk'
  have htext : storeText comments date properties = header comments date ++ (entriesText init ++ entryText (k, v)) := by
    rw [storeText, hentries, entriesText, map_append, flatten_append, ← entriesText]
    simp
  suffices hlost : (load q .empty).find k ≠ some v by
    intro heq
    rw [heq] at hlost
    exact hlost hfound
  have habsent : ∀ m : Properties, KeysBelow k m → m.find k ≠ some v := by
    intro m hbelow heq
    exact lt_irrefl k (hbelow k (by rw [heq]; rfl))
  rw [htext] at hq hshort
  rw [load, ← start]
  rcases prefix_append_cases hq with ⟨hpart, -⟩ | ⟨rest, rfl, hrest⟩
  · rw [finish_header hcomments hdate _ hpart]
    exact habsent _ hnone
  · rw [foldl_append, foldl_header hcomments hdate]
    rcases prefix_append_cases hrest with ⟨hpart, -⟩ | ⟨last, rfl, hlast⟩
    · exact habsent _ (keysBelow_entries hinit hsorted hnone hpart)
    · have hbelow := keysBelow_entries hinit hsorted hnone (prefix_refl _)
      rw [foldl_entries hinit] at hbelow
      rw [foldl_append, foldl_entries hinit]
      have hlength : last.length + 3 ≤ (entryText (k, v)).length := by
        simp only [length_append] at hshort
        omega
      exact find_last hk hv hbelow hlast hlength

def RoundTrips (comments date : ByteString) (properties : Properties) : Prop :=
  ∃ text, store comments date properties = .ok text ∧ load text .empty = properties

/-- The size of the text is an `int`; for a map without entries, it is enough that the stream accepts a part. -/
def Fits (comments date : ByteString) (properties : Properties) : Prop :=
  ((storeText comments date properties).length : Int) < 2147483648 ∨
    properties = .empty ∧ 0 ≤ toInt32 (storeText comments date properties).length

theorem store_eq (comments date : ByteString) (h : IsTexts properties.entries) :
    store comments date properties = write (storeText comments date properties) := by
  simp only [store, storeEntries_eq h, bind, Except.bind, storeText]

theorem write_of_lt (h : (text.length : Int) < 2147483648) : write text = .ok text := by
  have hsize : toInt32 text.length = text.length := toInt32_of_range (by omega) h
  have hnonneg : ¬ ((text.length : Int) < 0) := by omega
  simp only [write, hsize, if_neg hnonneg, Int.toNat_natCast, take_length]

/-- Otherwise nothing is written, or a part that lacks all but the size modulo `2^32`. -/
theorem write_of_ge (h : ¬ (text.length : Int) < 2147483648) :
    (toInt32 text.length < 0 ∧ write text = .error .ioException) ∨
      (0 ≤ toInt32 text.length ∧ ∃ n, n + 3 ≤ text.length ∧ write text = .ok (text.take n)) := by
  by_cases hneg : toInt32 text.length < 0
  · exact .inl ⟨hneg, by rw [write, if_pos hneg]⟩
  · refine .inr ⟨not_lt.mp hneg, (toInt32 text.length).toNat, ?_, by rw [write, if_neg hneg]⟩
    rw [toInt32] at hneg ⊢
    omega

theorem not_roundTrips (hcomments : ∀ c ∈ comments, c ≠ 10 ∧ c ≠ 13)
    (hdate : ∀ c ∈ date, c ≠ 10 ∧ c ≠ 13) (h : IsTexts properties.entries)
    (hsome : properties.entries ≠ [])
    (hlong : ¬ ((storeText comments date properties).length : Int) < 2147483648) :
    ¬ RoundTrips comments date properties := by
  rintro ⟨text, hstore, hsame⟩
  rw [store_eq comments date h] at hstore
  rcases write_of_ge hlong with ⟨-, hwrite⟩ | ⟨-, n, hshort, hwrite⟩
  · rw [hwrite] at hstore
    cases hstore
  · rw [hwrite] at hstore
    rw [← Except.ok.inj hstore] at hsame
    refine load_prefix hcomments hdate h hsome (List.take_prefix n _) ?_ hsame
    rw [length_take]
    omega

/-- The map comes back exactly when the size of its text is an `int`, or there is nothing in it. -/
theorem roundTrips_iff_fits {comments date : ByteString} (hcomments : ∀ c ∈ comments, c ≠ 10 ∧ c ≠ 13)
    (hdate : ∀ c ∈ date, c ≠ 10 ∧ c ≠ 13) {properties : Properties} (h : IsTexts properties.entries) :
    RoundTrips comments date properties ↔ Fits comments date properties := by
  have hload := load_storeText hcomments hdate h
  by_cases hlt : ((storeText comments date properties).length : Int) < 2147483648
  · refine iff_of_true ⟨storeText comments date properties, ?_, hload⟩ (.inl hlt)
    rw [store_eq comments date h, write_of_lt hlt]
  constructor
  · intro hround
    have hempty : properties = .empty := by
      by_contra hsome
      exact not_roundTrips hcomments hdate h (fun hnil => hsome (eq_empty hnil)) hlt hround
    refine .inr ⟨hempty, ?_⟩
    obtain ⟨text, hstore, -⟩ := hround
    rw [store_eq comments date h] at hstore
    rcases write_of_ge hlt with ⟨-, hwrite⟩ | ⟨hnonneg, -⟩
    · rw [hwrite] at hstore
      cases hstore
    · exact hnonneg
  · rintro (hfits | ⟨hempty, hfits⟩)
    · exact absurd hfits hlt
    · rcases write_of_ge hlt with ⟨hneg, -⟩ | ⟨-, n, -, hwrite⟩
      · exact absurd hfits (not_le.mpr hneg)
      · refine ⟨(storeText comments date properties).take n, by rw [store_eq comments date h, hwrite], ?_⟩
        have hheader : storeText comments date .empty = header comments date := append_nil _
        have hprefix := List.take_prefix n (storeText comments date properties)
        rw [hempty, hheader] at hprefix ⊢
        exact finish_header hcomments hdate _ hprefix

/-- A map with an empty key, and a value with blanks and a line feed. -/
theorem roundTrips_iff_fits_blanks :
    RoundTrips (ascii "A Header") (ascii "Thu Jan 01 00:00:00 UTC 1970")
        ((OrderedMap.empty.insert [] (ascii " a b")).insert (ascii "k =") [10]) ↔
      Fits (ascii "A Header") (ascii "Thu Jan 01 00:00:00 UTC 1970")
        ((OrderedMap.empty.insert [] (ascii " a b")).insert (ascii "k =") [10]) := by
  apply roundTrips_iff_fits
  · decide
  · decide
  · unfold IsTexts
    decide

theorem length_escapes_replicate (n : Nat) : (escapes ((List.replicate n 97).map fun c => (false, c))).length = n := by
  induction n with
  | zero => rfl
  | succ n ih =>
    rw [replicate_succ, map_cons, escapes, length_append, ih, Nat.add_comm]
    rfl

/-- One entry whose value has `2^31` characters. -/
theorem long_value_not_stored : ¬ RoundTrips [] [] (OrderedMap.empty.insert [] (List.replicate 2147483648 97)) := by
  obtain ⟨n, hn⟩ : ∃ n, n + 1 = 2147483648 := ⟨2147483647, rfl⟩
  rw [← hn]
  have hentries : (empty.insert [] (List.replicate (n + 1) 97) : Properties).entries =
      [([], List.replicate (n + 1) 97)] := rfl
  apply not_roundTrips
  · exact fun c hc => absurd hc not_mem_nil
  · exact fun c hc => absurd hc not_mem_nil
  · intro e he
    rw [hentries, mem_singleton] at he
    rw [he]
    refine ⟨fun c hc => absurd hc not_mem_nil, fun c hc => ?_⟩
    rw [eq_of_mem_replicate hc]
    decide
  · rw [hentries]
    exact cons_ne_nil _ _
  · have hvalue : (escapes (valued (List.replicate (n + 1) 97))).length = n + 1 := by
      rw [replicate_succ, valued, escapes, length_append, length_escapes_replicate, Nat.add_comm]
      rfl
    have hlength : n + 1 ≤ (storeText [] [] (empty.insert [] (List.replicate (n + 1) 97))).length := by
      rw [storeText, hentries, entriesText, map_singleton, flatten_singleton, entryText]
      simp only [length_append, hvalue]
      omega
    omega

end ActiveMQCpp.Decaf.Properties
