import ActiveMQCpp.DecafBufferedReads

/-! The streams that a `DataInputStream` reads from when a read may be taken back: a `ByteArrayInputStream`,
whose mark has no limit, and a `BufferedInputStream`, which drops its mark when it refills its buffer
beyond the limit. Programs of reads run over both as over the bytes that are left. -/

namespace ActiveMQCpp.Decaf

open Codec BufferedInputStream BufferedInputStream.Tracks List

/-! ### A buffer that does not have to grow -/

namespace BufferedInputStream

variable (choose : Nat → Nat) {s : BufferedInputStream}

/-- The buffer has room for all that the mark may ask to keep. -/
def Modest (s : BufferedInputStream) : Prop := s.markLimit ≤ s.bufferSize

theorem Modest.not_growsBadly (h : s.Modest) : ¬ s.growsBadly := by
  rintro ⟨-, -, hlimit, -⟩
  unfold Modest at h
  omega

def Keeps (s s' : BufferedInputStream) : Prop := s'.Modest ∧ s'.bufferSize = s.bufferSize

theorem Keeps.trans {s s' s'' : BufferedInputStream} (h : Keeps s s') (h' : Keeps s' s'') : Keeps s s'' :=
  ⟨h'.1, h'.2.trans h.2⟩

theorem keeps_fillFresh (h : s.Modest) : Keeps s (s.fillFresh choose).2 := by
  unfold fillFresh
  split
  · exact ⟨h, rfl⟩
  · split
    · exact ⟨Int.natCast_nonneg _, rfl⟩
    · exact ⟨h, rfl⟩

theorem makeRoom_modest (h : s.Modest) (p : Nat) :
    ∃ s', s.makeRoom p = some s' ∧ s'.markLimit = s.markLimit ∧ s'.bufferSize = s.bufferSize := by
  have hsmall : ¬ (p = 0 ∧ s.markLimit > s.bufferSize) := by
    rintro ⟨-, hlimit⟩
    unfold Modest at h
    omega
  unfold makeRoom
  rw [if_neg hsmall]
  split
  · exact ⟨_, rfl, rfl, rfl⟩
  · exact ⟨_, rfl, rfl, rfl⟩

theorem keeps_fillMarked (h : s.Modest) (p : Nat) : Keeps s (s.fillMarked choose p).2 := by
  obtain ⟨s', hroom, hlimit, hsize⟩ := makeRoom_modest h p
  unfold Modest at h
  unfold fillMarked
  rw [hroom]
  simp only
  split
  · exact ⟨by unfold Modest; simp only [hlimit, hsize]; exact h, hsize⟩
  · exact ⟨by unfold Modest; simp only [hlimit, hsize]; exact h, hsize⟩

theorem keeps_bufferData (h : s.Modest) : Keeps s (s.bufferData choose).2 := by
  unfold bufferData
  split
  · exact keeps_fillFresh choose h
  · split
    · exact keeps_fillFresh choose h
    · exact keeps_fillMarked choose h _

theorem keeps_takeByte (h : s.Modest) : Keeps s s.takeByte.2 := by
  unfold takeByte
  split
  · split
    · exact ⟨h, rfl⟩
    · exact ⟨h, rfl⟩
  · exact ⟨h, rfl⟩

theorem keeps_read (h : s.Modest) : Keeps s (s.read choose).2 := by
  unfold read
  split
  · have hfill := keeps_bufferData choose h
    cases hrun : s.bufferData choose with
    | mk answer s' =>
      rw [hrun] at hfill
      cases answer with
      | error e => exact hfill
      | ok more =>
        cases more with
        | none => exact hfill
        | some n => exact hfill.trans (keeps_takeByte hfill.1)
  · exact keeps_takeByte h

theorem keeps_readTurn (h : s.Modest) (required : Nat) : Keeps s (s.readTurn choose required).2 := by
  unfold readTurn
  split
  · exact ⟨h, rfl⟩
  · have hfill := keeps_bufferData choose h
    cases hrun : s.bufferData choose with
    | mk answer s' =>
      rw [hrun] at hfill
      cases answer with
      | error e => exact hfill
      | ok more =>
        cases more with
        | none => exact hfill
        | some n =>
          simp only
          split
          · exact hfill.trans ⟨hfill.1, rfl⟩
          · exact hfill

theorem growsWell_of_modest : ∀ {turns required : Nat} {s : BufferedInputStream}, s.Modest →
    growsWell choose turns required s := by
  intro turns
  induction turns with
  | zero =>
    intro required s _
    trivial
  | succ turns ih =>
    intro required s h
    refine ⟨h.not_growsBadly, ?_⟩
    have hturn := keeps_readTurn choose h required
    cases hrun : s.readTurn choose required with
    | mk answer s' =>
      rw [hrun] at hturn
      cases answer with
      | error e => trivial
      | ok copied =>
        cases copied with
        | none => trivial
        | some copied =>
          intro _ _
          exact ih hturn.1

theorem keeps_readLoop : ∀ {turns required : Nat} {bytes : ByteString} {s : BufferedInputStream}, s.Modest →
    Keeps s (s.readLoop choose turns required bytes).2 := by
  intro turns
  induction turns with
  | zero =>
    intro required bytes s h
    exact ⟨h, rfl⟩
  | succ turns ih =>
    intro required bytes s h
    have hturn := keeps_readTurn choose h required
    unfold readLoop
    cases hrun : s.readTurn choose required with
    | mk answer s' =>
      rw [hrun] at hturn
      cases answer with
      | error e => exact hturn
      | ok copied =>
        cases copied with
        | none => exact hturn
        | some copied =>
          simp only
          split
          · exact hturn
          · split
            · exact ⟨hturn.1, hturn.2⟩
            · have hrest := @ih (required - copied.length) (bytes ++ copied)
                { s' with inputStream := (s'.inputStream.available choose).2 } hturn.1
              exact ⟨hrest.1, hrest.2.trans hturn.2⟩

theorem arrayGrowsWell_of_modest (h : s.Modest) (length : Nat) : s.arrayGrowsWell choose length := by
  unfold arrayGrowsWell
  split
  · intro copylength _ _
    exact growsWell_of_modest choose h
  · exact growsWell_of_modest choose h

theorem keeps_readArray (h : s.Modest) (size offset length : Int) :
    Keeps s (s.readArray choose size offset length).2 := by
  unfold readArray
  split
  · exact ⟨h, rfl⟩
  split
  · exact ⟨h, rfl⟩
  split
  · exact ⟨h, rfl⟩
  split
  · cases hcopy : written ((s.buffer.drop s.pos).take (min length.toNat (s.count - s.pos))) with
    | none =>
      simp only [hcopy]
      exact ⟨h, rfl⟩
    | some bytes =>
      simp only [hcopy]
      split
      · exact ⟨h, rfl⟩
      · split
        · exact ⟨h, rfl⟩
        · have hcopied : ({ s with
              pos := s.pos + min length.toNat (s.count - s.pos)
              inputStream := (s.inputStream.available choose).2 } : BufferedInputStream).Modest := h
          exact keeps_readLoop choose hcopied
  · exact keeps_readLoop choose h

end BufferedInputStream

/-! ### The streams -/

/-- A `ByteArrayInputStream`, by the bytes behind its position and behind its mark, or a `BufferedInputStream`. -/
inductive MarkedSource where
  | bytes (rest marked : ByteString)
  | buffered (stream : BufferedInputStream)

namespace MarkedSource

/-- The failure of a stream as a `DataInputStream` passes it on. -/
def failureOf : StreamException → Failure
  | .ioException => .thrown .ioException "caught unknown exception"
  | .indexOutOfBoundsException => .thrown .indexOutOfBoundsException "parameter out of Bounds"
  | .undefined => .undefined
  | .unending => .undefined

def mark (limit : Int) : MarkedSource → MarkedSource
  | bytes rest _ => bytes rest rest
  | buffered s => buffered (s.mark limit)

def reset : EStateM Failure MarkedSource Unit
  | bytes _ marked => .ok () (bytes marked marked)
  | buffered s =>
    match s.reset with
    | (.done, s) => .ok () (buffered s)
    | (_, s) => .error (.thrown .ioException
        "BufferedInputStream::reset - The mark position was invalidated.") (buffered s)

variable (choose : Nat → Nat)

def read : EStateM Failure MarkedSource (Option UInt8)
  | bytes [] marked => .ok none (bytes [] marked)
  | bytes (b :: rest) marked => .ok (some b) (bytes rest marked)
  | buffered s =>
    match s.read choose with
    | (.byte b, s) => .ok (some b) (buffered s)
    | (.endOfStream, s) => .ok none (buffered s)
    | (.failed e, s) => .error (failureOf e) (buffered s)
    | (_, s) => .error .undefined (buffered s)

def readArray (size offset length : Int) : EStateM Failure MarkedSource (Option ByteString)
  | bytes rest marked =>
    if length = 0 then .ok (some []) (bytes rest marked)
    else if size < 0 ∨ (offset > size ∨ offset < 0) ∨ (length < 0 ∨ length > size - offset) then
      .error (failureOf .indexOutOfBoundsException) (bytes rest marked)
    else if rest = [] then .ok none (bytes rest marked)
    else .ok (some (rest.take length.toNat)) (bytes (rest.drop length.toNat) marked)
  | buffered s =>
    match s.readArray choose size offset length with
    | (.bytes bs, s) => .ok (some bs) (buffered s)
    | (.endOfStream, s) => .ok none (buffered s)
    | (.failed e, s) => .error (failureOf e) (buffered s)
    | (_, s) => .error .undefined (buffered s)

theorem read_buffered (s : BufferedInputStream) : read choose (buffered s) = match s.read choose with
      | (.byte b, s) => .ok (some b) (buffered s)
      | (.endOfStream, s) => .ok none (buffered s)
      | (.failed e, s) => .error (failureOf e) (buffered s)
      | (_, s) => .error .undefined (buffered s) := rfl

theorem readArray_bytes (size offset length : Int) (rest marked : ByteString) :
    readArray choose size offset length (bytes rest marked)
      = if length = 0 then .ok (some []) (bytes rest marked)
        else if size < 0 ∨ (offset > size ∨ offset < 0) ∨ (length < 0 ∨ length > size - offset) then
          .error (failureOf .indexOutOfBoundsException) (bytes rest marked)
        else if rest = [] then .ok none (bytes rest marked)
        else .ok (some (rest.take length.toNat)) (bytes (rest.drop length.toNat) marked) := rfl

theorem readArray_buffered (size offset length : Int) (s : BufferedInputStream) :
    readArray choose size offset length (buffered s) = match s.readArray choose size offset length with
      | (.bytes bs, s) => .ok (some bs) (buffered s)
      | (.endOfStream, s) => .ok none (buffered s)
      | (.failed e, s) => .error (failureOf e) (buffered s)
      | (_, s) => .error .undefined (buffered s) := rfl

/-- The loop of `readAllData` and `readFully`, which throw `eof` at the end of the stream. A turn that does not
end the loop has read a byte. -/
def fillLoop (eof : Failure) (length : Nat) : Nat → ByteString → EStateM Failure MarkedSource ByteString
  | 0, _ => throw .undefined
  | turns + 1, done => do
    match ← readArray choose length done.length ((length : Int) - done.length) with
    | none => throw eof
    | some bs => if (done ++ bs).length < length then fillLoop eof length turns (done ++ bs) else pure (done ++ bs)

def fill (eof : Failure) (length : Nat) : EStateM Failure MarkedSource ByteString :=
  if length = 0 then pure [] else fillLoop choose eof length length []

/-! ### Where a stream stands -/

/-- The stream stands at the position in the data and its mark, if it is kept, at the marked one. -/
def Follows (data : ByteString) (t : Access) : MarkedSource → Prop
  | bytes rest marked =>
    t.position ≤ data.length ∧ rest = data.drop t.position ∧
      ∀ p limit, t.mark = some (p, limit) → p ≤ data.length ∧ marked = data.drop p
  | buffered s => s.Tracks 0 data t

/-- The buffer has its first size, or a larger one that could be doubled. -/
def Roomy : MarkedSource → Prop
  | bytes _ _ => True
  | buffered s => 8192 ≤ s.bufferSize ∧ s.bufferSize < 1073741824

/-- The buffer need not grow for the mark. -/
def Ready : MarkedSource → Prop
  | bytes _ _ => True
  | buffered s => s.Modest ∧ 8192 ≤ s.bufferSize ∧ s.bufferSize < 1073741824

/-- The mark is kept. -/
def Marked : MarkedSource → Prop
  | bytes _ _ => True
  | buffered s => s.markPos ≠ none

variable {data : ByteString} {t : Access} {src : MarkedSource}
variable {limit : Int}
variable {length p : Nat}

theorem Follows.within (h : src.Follows data t) : t.position ≤ data.length := by
  cases src with
  | bytes rest marked => exact h.1
  | buffered s => exact within h

theorem Follows.position_unique {t' : Access} (h : src.Follows data t) (h' : src.Follows data t') :
    t.position = t'.position := by
  have hle := h.within
  have hle' := h'.within
  have hlen : (data.drop t.position).length = (data.drop t'.position).length := by
    cases src with
    | bytes rest marked => rw [← h.2.1, ← h'.2.1]
    | buffered s =>
      have hunread := congrArg List.length (unread h)
      have hunread' := congrArg List.length (unread h')
      rw [length_map] at hunread hunread'
      exact hunread.symm.trans hunread'
  rw [length_drop, length_drop] at hlen
  omega

theorem Follows.mark (h : src.Follows data t) (limit : Int) :
    (src.mark limit).Follows data { t with mark := some (t.position, limit) } := by
  cases src with
  | bytes rest marked =>
    refine ⟨h.1, h.2.1, ?_⟩
    intro p limit' hp
    obtain ⟨rfl, rfl⟩ := Prod.mk.inj (Option.some.inj hp)
    exact ⟨h.1, h.2.1⟩
  | buffered s =>
    obtain ⟨t', ht', htracks⟩ := BufferedInputStream.Tracks.mark h limit
    have ht' : t' = { t with mark := some (t.position, limit) } := ht'
    subst ht'
    exact htracks

theorem Ready.roomy (h : src.Ready) : src.Roomy := by
  cases src with
  | bytes rest marked => trivial
  | buffered s => exact h.2

theorem ready_mark (hroomy : src.Roomy) (hlimit : limit ≤ 8192) : (src.mark limit).Ready := by
  cases src with
  | bytes rest marked => trivial
  | buffered s =>
    refine ⟨?_, hroomy⟩
    show limit ≤ s.bufferSize
    have := hroomy.1
    omega

theorem ready_of_keeps {s s' : BufferedInputStream} (h : (buffered s).Ready) (hkeeps : s.Keeps s') :
    (buffered s').Ready := by
  refine ⟨hkeeps.1, ?_⟩
  rw [hkeeps.2]
  exact h.2

theorem Follows.read (h : src.Follows data t) (hgrow : ∀ s, src = buffered s → s.pos ≥ s.count → ¬ s.growsBadly) :
    (t.position = data.length ∧ ∃ src', src.read choose = .ok none src' ∧ src'.Follows data t) ∨
    (∃ b src', data[t.position]? = some b ∧ src.read choose = .ok (some b) src' ∧ src'.Follows data (t.advance 1)) := by
  cases src with
  | bytes rest marked =>
    obtain ⟨hle, hrest, hmark⟩ := h
    cases rest with
    | nil =>
      left
      have hend := drop_eq_nil_iff.mp hrest.symm
      exact ⟨by omega, _, rfl, hle, hrest, hmark⟩
    | cons b rest =>
      right
      have hlt : t.position < data.length := by
        have hlen := congrArg List.length hrest
        rw [length_cons, length_drop] at hlen
        omega
      rw [drop_eq_getElem_cons hlt] at hrest
      obtain ⟨hb, hrest⟩ := List.cons.inj hrest
      refine ⟨b, _, ?_, rfl, hlt, hrest, hmark⟩
      rw [List.getElem?_eq_getElem hlt, hb]
  | buffered s =>
    obtain ⟨t', hallows, htracks⟩ : ∃ t', t.Allows data .read (s.read choose).1 t' ∧
        BufferedInputStream.Tracks 0 data (s.read choose).2 t' := BufferedInputStream.Tracks.read h (hgrow s rfl)
    rw [read_buffered]
    cases hrun : s.read choose with
    | mk answer s' =>
      rw [hrun] at hallows htracks
      cases answer with
      | byte b =>
        right
        obtain ⟨hb, rfl⟩ := hallows
        exact ⟨b, buffered s', hb, rfl, htracks⟩
      | endOfStream =>
        left
        obtain ⟨hend, rfl⟩ := hallows
        have hle : t'.position ≤ data.length := within h
        exact ⟨by omega, buffered s', rfl, htracks⟩
      | bytes bs => exact hallows.elim
      | skipped n => exact hallows.elim
      | done => exact hallows.elim
      | failed e => exact hallows.elim

theorem ready_read (h : src.Ready) : ∀ {answer : Option UInt8} {src' : MarkedSource},
    src.read choose = .ok answer src' → src'.Ready := by
  intro answer src' hrun
  cases src with
  | bytes rest marked =>
    cases rest with
    | nil =>
      cases hrun
      trivial
    | cons b rest =>
      cases hrun
      trivial
  | buffered s =>
    have hkeeps := ready_of_keeps h (keeps_read choose h.1)
    rw [read_buffered] at hrun
    cases hread : s.read choose with
    | mk a s' =>
      rw [hread] at hrun hkeeps
      cases a with
      | byte b =>
        cases hrun
        exact hkeeps
      | endOfStream =>
        cases hrun
        exact hkeeps
      | _ => cases hrun

theorem Follows.readArray (h : src.Follows data t) (hready : src.Ready) {size offset : Nat}
    (hpart : offset + length ≤ size) (hpos : 0 < length) :
    (t.position = data.length ∧ ∃ src', src.readArray choose size offset length = .ok none src' ∧
      src'.Follows data t ∧ src'.Ready) ∨
    (∃ bs src', src.readArray choose size offset length = .ok (some bs) src' ∧ bs ≠ [] ∧ bs.length ≤ length ∧
      bs = (data.drop t.position).take bs.length ∧ src'.Follows data (t.advance bs.length) ∧ src'.Ready) := by
  cases src with
  | bytes rest marked =>
    obtain ⟨hle, hrest, hmark⟩ := h
    rw [readArray_bytes, if_neg (by omega), if_neg (by omega)]
    by_cases hnil : rest = []
    · left
      rw [if_pos hnil]
      have hend := List.drop_eq_nil_iff.mp (hrest.symm.trans hnil)
      exact ⟨by omega, _, rfl, ⟨hle, hrest, hmark⟩, trivial⟩
    · right
      have hsome := List.length_pos_iff.mpr hnil
      have hlen := congrArg List.length hrest
      rw [List.length_drop] at hlen
      have htake : (rest.take length).length = min length rest.length := List.length_take
      rw [if_neg hnil, Int.toNat_natCast]
      refine ⟨rest.take length, bytes (rest.drop length) marked, rfl, ?_, by omega, ?_, ⟨?_, ?_, hmark⟩, trivial⟩
      · apply List.length_pos_iff.mp
        omega
      · rw [htake, ← hrest, List.take_eq_take_min]
      · simp only [Access.advance]
        omega
      · simp only [Access.advance, htake]
        rw [← List.drop_drop, ← hrest]
        by_cases hshort : length ≤ rest.length
        · rw [Nat.min_eq_left hshort]
        · rw [Nat.min_eq_right (by omega), List.drop_of_length_le (by omega), List.drop_of_length_le le_rfl]
  | buffered s =>
    have hwell : s.arrayGrowsWell choose ((length : Int)).toNat :=
      BufferedInputStream.arrayGrowsWell_of_modest choose hready.1 _
    obtain ⟨t', hallows, htracks⟩ := BufferedInputStream.Tracks.readArray h (size : Int) offset length
      fun _ _ => hwell
    have hkeeps := ready_of_keeps hready
      (BufferedInputStream.keeps_readArray choose hready.1 (size : Int) offset length)
    rw [readArray_buffered]
    cases hrun : s.readArray choose (size : Int) offset length with
    | mk answer s' =>
      rw [hrun] at hallows htracks hkeeps
      cases answer with
      | bytes bs =>
        right
        obtain ⟨-, hnil, hle, htake, rfl⟩ := hallows
        refine ⟨bs, buffered s', rfl, ?_, by omega, htake, htracks, hkeeps⟩
        intro hempty
        have := hnil hempty
        omega
      | endOfStream =>
        left
        obtain ⟨-, -, hend, rfl⟩ := hallows
        have hle : t'.position ≤ data.length := BufferedInputStream.Tracks.within h
        exact ⟨by omega, buffered s', rfl, htracks, hkeeps⟩
      | failed e =>
        cases e with
        | indexOutOfBoundsException =>
          refine absurd ⟨?_, ?_, ?_, ?_⟩ hallows.1
          all_goals omega
        | ioException => exact hallows.elim
        | undefined => exact hallows.elim
        | unending => exact hallows.elim
      | byte b => exact hallows.elim
      | skipped n => exact hallows.elim
      | done => exact hallows.elim

theorem Follows.fillLoop {eof : Failure} : ∀ {turns : Nat} {stored : ByteString} {src : MarkedSource},
    src.Follows data (t.advance stored.length) → src.Ready →
    stored = (data.drop t.position).take stored.length → stored.length < length → length ≤ stored.length + turns →
    if t.position + length ≤ data.length then
      ∃ src', src.fillLoop choose eof length turns stored = .ok ((data.drop t.position).take length) src' ∧
        src'.Follows data (t.advance length) ∧ src'.Ready
    else
      ∃ src', src.fillLoop choose eof length turns stored = .error eof src' ∧
        src'.Follows data (t.advance (data.length - t.position)) ∧ src'.Ready := by
  intro turns
  induction turns with
  | zero =>
    intro stored src h hready hstored hlt hturns
    omega
  | succ turns ih =>
    intro stored src h hready hstored hlt hturns
    have hpart : stored.length + (length - stored.length) ≤ length := by omega
    have hsub : (length : Int) - (stored.length : Int) = ((length - stored.length : Nat) : Int) := by omega
    have hwithin : t.position + stored.length ≤ data.length := h.within
    rw [MarkedSource.fillLoop, hsub]
    rcases h.readArray choose hready hpart (by omega) with
      ⟨hend, src', hrun, hsrc', hready'⟩ | ⟨bs, src', hrun, hsome, hle, htake, hsrc', hready'⟩
    · have hend : t.position + stored.length = data.length := hend
      have hrest : data.length - t.position = stored.length := by omega
      rw [if_neg (by omega), bind_ok hrun, hrest]
      exact ⟨src', rfl, hsrc', hready'⟩
    · have hpos := length_pos_iff.mpr hsome
      have hmore : stored ++ bs = (data.drop t.position).take (stored ++ bs).length :=
        take_more hstored htake
      have hlen : (stored ++ bs).length = stored.length + bs.length := length_append
      have hadvance : (t.advance stored.length).advance bs.length = t.advance (stored ++ bs).length := by
        rw [hlen]
        exact advance_advance t _ _
      rw [hadvance] at hsrc'
      rw [bind_ok hrun]
      simp only
      by_cases hmissing : (stored ++ bs).length < length
      · rw [if_pos hmissing]
        exact ih hsrc' hready' hmore hmissing (by omega)
      · have hall : (stored ++ bs).length = length := by omega
        have hwithin' : t.position + (stored ++ bs).length ≤ data.length := hsrc'.within
        rw [if_neg hmissing, if_pos (by omega)]
        rw [hall] at hmore hsrc'
        refine ⟨src', ?_, hsrc', hready'⟩
        rw [← hmore]
        rfl

theorem Follows.fill (h : src.Follows data t) (hready : src.Ready) (eof : Failure) (length : Nat) :
    if t.position + length ≤ data.length then
      ∃ src', src.fill choose eof length = .ok ((data.drop t.position).take length) src' ∧
        src'.Follows data (t.advance length) ∧ src'.Ready
    else
      ∃ src', src.fill choose eof length = .error eof src' ∧
        src'.Follows data (t.advance (data.length - t.position)) ∧ src'.Ready := by
  rw [MarkedSource.fill]
  by_cases hzero : length = 0
  · subst hzero
    have hwithin := h.within
    rw [if_pos (by omega), if_pos rfl, take_zero]
    exact ⟨src, rfl, h, hready⟩
  · rw [if_neg hzero]
    have hstart : src.Follows data (t.advance ([] : ByteString).length) := h
    exact Follows.fillLoop choose hstart hready rfl (Nat.pos_of_ne_zero hzero) (Nat.le_add_left _ _)

/-! ### Back to the mark -/

theorem Follows.reset (h : src.Follows data t) (hmark : t.mark = some (p, limit)) (hkept : src.Marked) :
    ∃ src', src.reset = .ok () src' ∧ src'.Follows data { t with position := p } ∧ (src.Ready → src'.Ready) := by
  cases src with
  | bytes rest marked =>
    obtain ⟨hp, hmarked⟩ := h.2.2 p limit hmark
    exact ⟨bytes marked marked, rfl, ⟨hp, hmarked, h.2.2⟩, fun hready => hready⟩
  | buffered s =>
    obtain ⟨t', hallows, htracks⟩ := BufferedInputStream.Tracks.reset h
    obtain ⟨m, hm⟩ := Option.ne_none_iff_exists'.mp hkept
    have hrun : s.reset = (.done, { s with pos := m }) := by rw [BufferedInputStream.reset, hm]
    rw [hrun] at hallows htracks
    obtain ⟨p', limit', hmark', ht'⟩ := hallows
    rw [hmark] at hmark'
    obtain ⟨rfl, -⟩ := Prod.mk.inj (Option.some.inj hmark')
    subst ht'
    refine ⟨buffered { s with pos := m }, ?_, htracks, fun hready => hready⟩
    rw [MarkedSource.reset, hrun]

theorem reset_unmarked (h : ¬ src.Marked) : src.reset = .error (.thrown .ioException
      "BufferedInputStream::reset - The mark position was invalidated.") src := by
  cases src with
  | bytes rest marked => exact absurd trivial h
  | buffered s =>
    have hnone : s.markPos = none := not_not.mp h
    rw [MarkedSource.reset, BufferedInputStream.reset, hnone]

theorem Follows.marked (h : src.Follows data t) (hmark : t.mark = some (p, limit))
    (hlimit : (t.position : Int) - p ≤ limit) : src.Marked := by
  cases src with
  | bytes rest marked => trivial
  | buffered s =>
    intro hnone
    have := gone h hnone p limit hmark
    omega

/-- A `ByteArrayInputStream` returns all it has at once. -/
theorem fill_bytes (eof : Failure) (length : Nat) (rest marked : ByteString) :
    fill choose eof length (bytes rest marked)
      = if length ≤ rest.length then .ok (rest.take length) (bytes (rest.drop length) marked)
        else .error eof (bytes [] marked) := by
  by_cases hzero : length = 0
  · subst hzero
    rfl
  obtain ⟨turns, rfl⟩ := Nat.exists_eq_succ_of_ne_zero hzero
  have hturn : readArray choose (turns.succ : Nat) ([] : ByteString).length
      ((turns.succ : Nat) - (([] : ByteString).length : Nat)) (bytes rest marked)
        = if rest = [] then .ok none (bytes rest marked)
          else .ok (some (rest.take turns.succ)) (bytes (rest.drop turns.succ) marked) := by
    rw [readArray_bytes, length_nil, if_neg (by omega), if_neg (by omega)]
    rfl
  rw [fill, if_neg hzero, fillLoop]
  by_cases hnil : rest = []
  · subst hnil
    rw [if_pos rfl] at hturn
    rw [bind_ok hturn, if_neg (by simp)]
    rfl
  · rw [if_neg hnil] at hturn
    rw [bind_ok hturn]
    simp only [nil_append, length_take]
    by_cases hle : turns.succ ≤ rest.length
    · rw [if_neg (by omega), if_pos hle]
      rfl
    · have hpos := length_pos_iff.mpr hnil
      obtain ⟨turns, rfl⟩ := Nat.exists_eq_succ_of_ne_zero (show turns ≠ 0 by omega)
      rw [if_pos (by omega), if_neg hle, fillLoop, drop_of_length_le (by omega), length_take]
      have hend : readArray choose (turns.succ.succ : Nat) (min turns.succ.succ rest.length : Nat)
          ((turns.succ.succ : Nat) - (min turns.succ.succ rest.length : Nat)) (bytes [] marked)
            = .ok none (bytes [] marked) := by
        rw [readArray_bytes, if_neg (by omega), if_neg (by omega), if_pos rfl]
      rw [bind_ok hend]
      rfl

end MarkedSource

/-! ### Programs of reads -/

/-- What a function of `DataInputStream` takes from its stream, one bulk read after the other. -/
inductive Reader (α : Type) where
  | done (a : α)
  | fail (e : Failure)
  | take (eof : Failure) (length : Nat) (next : ByteString → Reader α)

namespace Reader

variable {α β : Type}

def bind : Reader α → (α → Reader β) → Reader β
  | done a, f => f a
  | fail e, _ => fail e
  | take eof length next, f => take eof length fun bytes => (next bytes).bind f

instance : Monad Reader where
  pure := done
  bind := bind

def run (choose : Nat → Nat) : Reader α → EStateM Failure MarkedSource α
  | done a => pure a
  | fail e => throw e
  | take eof length next => do
    let bytes ← MarkedSource.fill choose eof length
    (next bytes).run choose

def onBytes : Reader α → DataIn α
  | done a => pure a
  | fail e => throw e
  | take eof length next => fun input =>
    if length ≤ input.length then (next (input.take length)).onBytes (input.drop length)
    else .error eof []

theorem onBytes_take (eof : Failure) (length : Nat) (next : ByteString → Reader α) (input : List UInt8) :
    (take eof length next).onBytes input
      = if length ≤ input.length then (next (input.take length)).onBytes (input.drop length) else .error eof [] := rfl

theorem onBytes_bind (reader : Reader α) (f : α → Reader β) :
    (reader >>= f).onBytes = reader.onBytes >>= fun a => (f a).onBytes := by
  show (reader.bind f).onBytes = _
  induction reader with
  | done a => rfl
  | fail e => rfl
  | take eof length next ih =>
    funext input
    rw [bind, onBytes_take, bind_run, onBytes_take]
    by_cases hle : length ≤ input.length
    · rw [if_pos hle, if_pos hle, ih, bind_run]
    · rw [if_neg hle, if_neg hle]

@[simp] theorem onBytes_pure (a : α) : (pure a : Reader α).onBytes = pure a := rfl

open MarkedSource

variable (choose : Nat → Nat) {data : ByteString} {t : Access} {src : MarkedSource}

theorem run_follows (reader : Reader α) {t : Access} {src : MarkedSource} (h : src.Follows data t)
    (hready : src.Ready) :
    ∃ n src', src'.Follows data (t.advance n) ∧ src'.Ready ∧
      match reader.onBytes (data.drop t.position) with
      | .ok a rest => rest = data.drop (t.position + n) ∧ reader.run choose src = .ok a src'
      | .error e rest => rest = data.drop (t.position + n) ∧ reader.run choose src = .error e src' := by
  induction reader generalizing t src with
  | done a => exact ⟨0, src, h, hready, rfl, rfl⟩
  | fail e => exact ⟨0, src, h, hready, rfl, rfl⟩
  | take eof length next ih =>
    have hwithin := h.within
    have hfill := h.fill choose hready eof length
    rw [onBytes_take, length_drop]
    by_cases hle : length ≤ data.length - t.position
    · rw [if_pos (by omega)] at hfill
      obtain ⟨src', hrun, hsrc', hready'⟩ := hfill
      obtain ⟨n, src'', hsrc'', hready'', hnext⟩ := ih ((data.drop t.position).take length) hsrc' hready'
      rw [advance_advance] at hsrc''
      rw [if_pos hle, drop_drop]
      refine ⟨length + n, src'', hsrc'', hready'', ?_⟩
      rw [Access.advance, Nat.add_assoc] at hnext
      simp only [run]
      rw [bind_ok hrun]
      exact hnext
    · rw [if_neg (by omega)] at hfill
      obtain ⟨src', hrun, hsrc', hready'⟩ := hfill
      rw [if_neg hle]
      refine ⟨data.length - t.position, src', hsrc', hready', ?_, ?_⟩
      · rw [drop_of_length_le (by omega)]
      · rw [run, bind_error hrun]

theorem run_bytes (reader : Reader α) (rest marked : ByteString) :
    reader.run choose (.bytes rest marked) = match reader.onBytes rest with
      | .ok a s => .ok a (.bytes s marked)
      | .error e s => .error e (.bytes s marked) := by
  induction reader generalizing rest with
  | done a => rfl
  | fail e => rfl
  | take eof length next ih =>
    rw [run, bind_run, MarkedSource.fill_bytes, onBytes_take]
    by_cases hle : length ≤ rest.length
    · rw [if_pos hle, if_pos hle]
      exact ih _ _
    · rw [if_neg hle, if_neg hle]

end Reader

end ActiveMQCpp.Decaf
