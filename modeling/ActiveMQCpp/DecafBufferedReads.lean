import ActiveMQCpp.DecafBufferedInputStream

/-! A `BufferedInputStream` against direct access to the bytes of the wrapped stream. -/

namespace ActiveMQCpp.Decaf

open MachineInt Runs Refinement BufferedInputStream List Option

/-- A position in the sequence, and the one that was marked with its limit. -/
structure Access where
  position : Nat := 0
  mark : Option (Nat × Int) := none

namespace Access

def advance (n : Nat) (t : Access) : Access := { t with position := t.position + n }

def validPart (size offset length : Int) : Prop := 0 ≤ offset ∧ offset ≤ size ∧ 0 ≤ length ∧ length ≤ size - offset

/-- What direct access to the sequence answers. A bulk read may return fewer bytes than it was asked for, and `skip`
may skip fewer; `reset` may fail beyond the limit of the mark. -/
def Allows (data : ByteString) (t : Access) : StreamOp → StreamAnswer → Access → Prop
  | .read, .byte b, t' => data[t.position]? = some b ∧ t' = t.advance 1
  | .read, .endOfStream, t' => data.length ≤ t.position ∧ t' = t
  | .readArray size offset length, .bytes bs, t' =>
    validPart size offset length ∧ (bs = [] → length = 0) ∧ (bs.length : Int) ≤ length ∧
      bs = (data.drop t.position).take bs.length ∧ t' = t.advance bs.length
  | .readArray size offset length, .endOfStream, t' =>
    validPart size offset length ∧ 0 < length ∧ data.length ≤ t.position ∧ t' = t
  | .readArray size offset length, .failed .indexOutOfBoundsException, t' =>
    ¬ validPart size offset length ∧ t' = t
  | .skip amount, .skipped n, t' =>
    0 ≤ n ∧ n ≤ max amount 0 ∧ t.position + n ≤ data.length ∧ t' = t.advance n.toNat
  | .mark readLimit, .done, t' => t' = { t with mark := some (t.position, readLimit) }
  | .reset, .done, t' => ∃ position limit, t.mark = some (position, limit) ∧ t' = { t with position := position }
  | .reset, .failed .ioException, t' =>
    (∀ position limit, t.mark = some (position, limit) → limit < t.position - position) ∧ t' = t
  | _, _, _ => False

end Access

namespace BufferedInputStream

variable {choose : Nat → Nat} {data : ByteString} {s s' : BufferedInputStream} {t : Access} {k : Nat}
variable {p n : Nat}
variable {amount : Int}

/-- The first byte of the buffer that is still needed. -/
def base (s : BufferedInputStream) : Nat := s.markPos.getD s.pos

theorem base_none (h : s.markPos = none) : s.base = s.pos := by
  rw [base, h]
  rfl

theorem base_some (h : s.markPos = some p) : s.base = p := by
  rw [base, h]
  rfl

/-- The stream is at the position, and has the bytes from the mark on; without them the limit of the mark is
exceeded once `k` more bytes have been read. -/
structure Tracks (k : Nat) (data : ByteString) (s : BufferedInputStream) (t : Access) : Prop where
  room : 0 < s.bufferSize
  size : s.buffer.length = s.bufferSize
  fits : s.count ≤ s.bufferSize
  pos_le : s.pos ≤ s.count
  base_le : s.base ≤ s.pos
  reach : s.pos - s.base ≤ t.position
  within : t.position ≤ data.length
  content : (s.buffer.take s.count).drop s.base ++ s.inputStream.rest.map some =
    (data.drop (t.position - (s.pos - s.base))).map some
  marked : ∀ p, s.markPos = some p → t.mark = some (t.position - (s.pos - p), s.markLimit)
  gone : s.markPos = none → ∀ position limit, t.mark = some (position, limit) →
    limit < (t.position + k : Nat) - (position : Int)

theorem Tracks.unread (h : Tracks k data s t) :
    (s.buffer.take s.count).drop s.pos ++ s.inputStream.rest.map some = (data.drop t.position).map some := by
  have hlength : s.pos - s.base ≤ ((s.buffer.take s.count).drop s.base).length := by
    rw [length_drop, length_take, h.size, Nat.min_eq_left h.fits]
    have := h.pos_le
    omega
  have hdrop := congrArg (List.drop (s.pos - s.base)) h.content
  have hbase : s.base + (s.pos - s.base) = s.pos := Nat.add_sub_cancel' h.base_le
  have hposition : t.position - (s.pos - s.base) + (s.pos - s.base) = t.position := Nat.sub_add_cancel h.reach
  rwa [drop_append_of_le_length hlength, drop_drop, hbase, ← map_drop, drop_drop, hposition] at hdrop

theorem Tracks.consume (h : Tracks k data s t) (hk : k ≤ n) (hn : s.pos + n ≤ s.count) :
    Tracks 0 data { s with pos := s.pos + n } (t.advance n) := by
  have hbase := h.base_le
  have hreach := h.reach
  have hfits := h.fits
  have hunread := congrArg List.length h.unread
  simp only [length_append, length_drop, length_take, length_map, h.size] at hunread
  have hwithin : t.position + n ≤ data.length := by
    have := h.within
    omega
  rcases eq_none_or_eq_some s.markPos with hmark | ⟨p, hmark⟩
  · have hbase' : ({ s with pos := s.pos + n } : BufferedInputStream).base = s.pos + n := base_none hmark
    have hlength : n ≤ ((s.buffer.take s.count).drop s.pos).length := by
      rw [length_drop, length_take, h.size]
      omega
    refine ⟨h.room, h.size, h.fits, hn, hbase'.le, ?_, hwithin, ?_, ?_, ?_⟩
    · rw [hbase', Nat.sub_self]
      exact Nat.zero_le _
    · have hdrop := congrArg (List.drop n) h.unread
      rw [drop_append_of_le_length hlength, drop_drop, ← map_drop, drop_drop] at hdrop
      rw [hbase', Nat.sub_self]
      exact hdrop
    · intro p hp
      exact absurd (hmark.symm.trans hp) (some_ne_none p).symm
    · intro _ position limit hsome
      have := h.gone hmark position limit hsome
      simp only [Access.advance]
      omega
  · have hbase' : ({ s with pos := s.pos + n } : BufferedInputStream).base = p := base_some hmark
    rw [base_some hmark] at hbase hreach
    have hshift : t.position + n - (s.pos + n - p) = t.position - (s.pos - p) := by omega
    refine ⟨h.room, h.size, h.fits, hn, ?_, ?_, hwithin, ?_, ?_, ?_⟩
    · rw [hbase']
      exact Nat.le_add_right_of_le hbase
    · rw [hbase']
      simp only [Access.advance]
      omega
    · have hcontent := h.content
      rw [base_some hmark] at hcontent
      rw [hbase']
      simp only [Access.advance, hshift]
      exact hcontent
    · intro p' hp'
      have heq : p = p' := Option.some.inj (hmark.symm.trans hp')
      subst heq
      simp only [Access.advance, hshift]
      exact h.marked p hmark
    · intro hnone
      exact absurd (hmark.symm.trans hnone) (some_ne_none p)

theorem Tracks.rest_eq (h : Tracks k data s t) (hpos : s.pos = s.count) : s.inputStream.rest = data.drop t.position := by
  have hunread := h.unread
  have hnone : (s.buffer.take s.count).drop s.pos = [] := by
    apply drop_eq_nil_of_le
    rw [length_take, hpos]
    exact Nat.min_le_left _ _
  rw [hnone, nil_append] at hunread
  exact map_injective_iff.mpr (some_injective _) hunread

theorem written_map (bs : ByteString) : written (bs.map some) = some bs := by
  induction bs with
  | nil => rfl
  | cons b bs ih => rw [map_cons, written, ih, map_some]

theorem Tracks.copy (h : Tracks k data s t) (hn : s.pos + n ≤ s.count) :
    written ((s.buffer.drop s.pos).take n) = some ((data.drop t.position).take n) ∧
      ((data.drop t.position).take n).length = n := by
  have hfits := h.fits
  have hunread := h.unread
  have hlength : n ≤ ((s.buffer.take s.count).drop s.pos).length := by
    rw [length_drop, length_take, h.size]
    omega
  have htake := congrArg (List.take n) hunread
  rw [take_append_of_le_length hlength, ← map_take, drop_take, take_take,
    Nat.min_eq_left (by omega)] at htake
  refine ⟨by rw [htake, written_map], ?_⟩
  have hall := congrArg List.length htake
  rw [length_map, length_take, length_drop, h.size] at hall
  omega

/-! ### The wrapped stream -/

theorem read_wrapped {stream : WrappedStream} {length : Nat} (hlength : 0 < length) :
    (stream.rest = [] ∧ ∃ stream', stream.read choose length = (none, stream') ∧ stream'.rest = []) ∨
      ∃ bytes stream', stream.read choose length = (some bytes, stream') ∧ stream.rest = bytes ++ stream'.rest ∧
        0 < bytes.length ∧ bytes.length ≤ length := by
  rw [WrappedStream.read, if_neg (Nat.ne_of_gt hlength)]
  by_cases hend : stream.rest = []
  · rw [if_pos hend]
    exact .inl ⟨hend, _, rfl, hend⟩
  · rw [if_neg hend]
    have hpos := length_pos_iff.mpr hend
    refine .inr ⟨_, _, rfl, (take_append_drop _ _).symm, ?_, ?_⟩
    · rw [length_take]
      omega
    · rw [length_take]
      omega

theorem Tracks.bypass (h : Tracks 0 data s t) (hpos : s.pos = s.count) (hmark : s.markPos = none) {n : Nat}
    {stream : WrappedStream} (hrest : stream.rest = s.inputStream.rest.drop n) (hn : n ≤ s.inputStream.rest.length) :
    Tracks 0 data { s with inputStream := stream } (t.advance n) := by
  have heq := h.rest_eq hpos
  have hwithin := h.within
  rw [heq, length_drop] at hn
  have hnone : (s.buffer.take s.count).drop s.pos = [] := by
    apply drop_eq_nil_of_le
    rw [length_take, hpos]
    exact Nat.min_le_left _ _
  have hbase' : ({ s with inputStream := stream } : BufferedInputStream).base = s.pos := base_none hmark
  refine ⟨h.room, h.size, h.fits, h.pos_le, h.base_le, ?_, ?_, ?_, ?_, ?_⟩
  · exact le_trans h.reach (Nat.le_add_right _ _)
  · simp only [Access.advance]
    omega
  · rw [hbase', Nat.sub_self]
    simp only [Nat.sub_zero, hnone, nil_append, hrest, heq, Access.advance, drop_drop]
  · intro p hp
    exact absurd (hmark.symm.trans hp) (some_ne_none p).symm
  · intro _ position limit hsome
    have := h.gone hmark position limit hsome
    simp only [Access.advance]
    omega

theorem Tracks.turn (h : Tracks k data s t) {stream : WrappedStream} (hrest : stream.rest = s.inputStream.rest) :
    Tracks k data { s with inputStream := stream } t :=
  ⟨h.room, h.size, h.fits, h.pos_le, h.base_le, h.reach, h.within, by simp only [hrest]; exact h.content, h.marked, h.gone⟩

/-! ### Filling the buffer -/

/-- A refill that has to enlarge the buffer although there are bytes to keep, or that finds no length for it. -/
def growsBadly (s : BufferedInputStream) : Prop :=
  s.markPos = some 0 ∧ (s.pos : Int) < s.markLimit ∧ (s.bufferSize : Int) < s.markLimit ∧
    (0 < s.pos ∨ 2147483648 ≤ s.bufferSize * 2)

theorem take_overwrite_zero (buffer : List (Option UInt8)) (bytes : List (Option UInt8)) :
    (Buffer.overwrite buffer 0 bytes).take bytes.length = bytes := by
  rw [Buffer.overwrite, take_zero, nil_append, take_left]

theorem take_overwrite {buffer bytes : List (Option UInt8)} {pos : Nat} (h : pos ≤ buffer.length) :
    (Buffer.overwrite buffer pos bytes).take (pos + bytes.length) = buffer.take pos ++ bytes := by
  have hpos : (buffer.take pos).length = pos := length_take_of_le h
  rw [Buffer.overwrite, ← append_assoc, take_left' (by rw [length_append, hpos])]

theorem Tracks.makeRoom (h : Tracks k data s t) (hpos : s.pos = s.count) (hmark : s.markPos = some p)
    (hlimit : (s.pos : Int) - p < s.markLimit) (hgrow : ¬ s.growsBadly) :
    ∃ s', s.makeRoom p = some s' ∧ s'.buffer.length = s'.bufferSize ∧ s.pos - p < s'.bufferSize ∧
      s'.buffer.take (s.pos - p) = (s.buffer.take s.count).drop p ∧ s'.inputStream = s.inputStream ∧
      s'.markLimit = s.markLimit ∧ s'.pos = s.pos := by
  have hroom := h.room
  have hsize := h.size
  have hfits := h.fits
  have hbase := h.base_le
  rw [base_some hmark] at hbase
  rw [BufferedInputStream.makeRoom]
  by_cases henlarge : p = 0 ∧ s.markLimit > s.bufferSize
  · obtain ⟨rfl, hmore⟩ := henlarge
    have hstart : s.pos = 0 := by
      by_contra hne
      exact hgrow ⟨hmark, by omega, hmore, .inl (Nat.pos_of_ne_zero hne)⟩
    have hdouble : s.bufferSize * 2 < 2147483648 := by
      by_contra hge
      exact hgrow ⟨hmark, by omega, hmore, .inr (not_lt.mp hge)⟩
    have hlength : toInt32 (s.bufferSize * 2) = s.bufferSize * 2 := toInt32_of_range (by omega) (by omega)
    have hpositive : 0 < (if (s.bufferSize * 2 : Int) > s.markLimit then s.markLimit else (s.bufferSize * 2 : Int)) := by
      split_ifs <;> omega
    rw [if_pos ⟨rfl, hmore⟩]
    simp only [hlength, if_neg (not_lt.mpr hpositive.le)]
    refine ⟨_, rfl, length_replicate, ?_, ?_, rfl, rfl, rfl⟩
    · simp only
      omega
    · rw [← hpos, hstart]
      rfl
  · rw [if_neg henlarge]
    by_cases hmove : p > 0
    · rw [if_pos hmove]
      have hfull : (Buffer.overwrite s.buffer 0 (s.buffer.drop p)).length = s.buffer.length :=
        Buffer.length_overwrite (by rw [length_drop]; omega)
      refine ⟨_, rfl, hfull.trans hsize, by simp only; omega, ?_, rfl, rfl, rfl⟩
      have hshort : s.pos - p ≤ (s.buffer.drop p).length := by
        rw [length_drop]
        omega
      simp only [Buffer.overwrite, take_zero, nil_append]
      rw [take_append_of_le_length hshort, ← hpos, ← drop_take]
    · rw [if_neg hmove]
      have hzero : p = 0 := by omega
      subst hzero
      refine ⟨s, rfl, hsize, by omega, ?_, rfl, rfl, rfl⟩
      rw [Nat.sub_zero, drop_zero, hpos]

theorem Tracks.fillFresh (h : Tracks 0 data s t) (hpos : s.pos = s.count)
    (hover : ∀ p, s.markPos = some p → s.markLimit ≤ (s.pos : Int) - p) :
    (∃ s', s.fillFresh choose = (.ok none, s') ∧ Tracks 0 data s' t ∧ data.length ≤ t.position) ∨
      ∃ n s', s.fillFresh choose = (.ok (some n), s') ∧ Tracks 1 data s' t ∧ s'.pos < s'.count := by
  have hrest := h.rest_eq hpos
  rw [BufferedInputStream.fillFresh]
  rcases read_wrapped h.room with ⟨hend, stream, hrun, hend'⟩ | ⟨bytes, stream, hrun, hsplit, hsome, hle⟩
  · rw [hrun]
    refine .inl ⟨_, rfl, h.turn (hend'.trans hend.symm), ?_⟩
    rw [hend] at hrest
    exact drop_eq_nil_iff.mp hrest.symm
  · rw [hrun]
    simp only [if_pos hsome]
    have hsize := h.size
    have hlength : (bytes.map some : List (Option UInt8)).length = bytes.length := length_map _
    refine .inr ⟨_, _, rfl, ⟨h.room, ?_, hle, Nat.zero_le _, le_refl _, Nat.zero_le _, h.within, ?_, ?_, ?_⟩, hsome⟩
    · rw [Buffer.length_overwrite (by rw [hlength]; omega), hsize]
    · simp only [base, getD_none, drop_zero, Nat.sub_self, Nat.sub_zero]
      rw [← hlength, take_overwrite_zero, ← map_append, ← hsplit, hrest]
    · intro p hp
      cases hp
    · intro _ position limit hsome'
      rcases eq_none_or_eq_some s.markPos with hmark | ⟨p, hmark⟩
      · have := h.gone hmark position limit hsome'
        omega
      · have hmarked := h.marked p hmark
        rw [hsome'] at hmarked
        have hreach := h.reach
        have hbase := h.base_le
        rw [base_some hmark] at hreach hbase
        have hexceeded := hover p hmark
        cases hmarked
        omega

theorem Tracks.fillMarked (h : Tracks 0 data s t) (hpos : s.pos = s.count) (hmark : s.markPos = some p)
    (hlimit : (s.pos : Int) - p < s.markLimit) (hgrow : ¬ s.growsBadly) :
    (∃ s', s.fillMarked choose p = (.ok none, s') ∧ Tracks 0 data s' t ∧ data.length ≤ t.position) ∨
      ∃ n s', s.fillMarked choose p = (.ok (some n), s') ∧ Tracks 1 data s' t ∧ s'.pos < s'.count := by
  obtain ⟨s1, hmake, hsize, hroom, hkept, hstream, hsame, hpos'⟩ := h.makeRoom hpos hmark hlimit hgrow
  have hrest := h.rest_eq hpos
  have hcontent := h.content
  have hreach := h.reach
  rw [base_some hmark, ← hkept] at hcontent
  rw [base_some hmark] at hreach
  have hmarked := h.marked p hmark
  simp only [BufferedInputStream.fillMarked, hmake, hpos', hstream]
  rcases @read_wrapped choose s.inputStream (s1.bufferSize - (s.pos - p)) (by omega)
    with ⟨hend, stream, hrun, hend'⟩ | ⟨bytes, stream, hrun, hsplit, hsome, hle⟩
  · rw [hrun]
    refine .inl ⟨_, rfl, ⟨?_, hsize, hroom.le, le_refl _, Nat.zero_le _, ?_, h.within, ?_, ?_, ?_⟩, ?_⟩
    · exact lt_of_le_of_lt (Nat.zero_le _) hroom
    · exact hreach
    · simp only [base, getD_some, drop_zero, Nat.sub_zero, hend']
      rwa [hend] at hcontent
    · intro p' hp'
      cases hp'
      simp only [Nat.sub_zero, hsame]
      exact hmarked
    · intro hnone
      cases hnone
    · rw [hend] at hrest
      exact drop_eq_nil_iff.mp hrest.symm
  · rw [hrun]
    have hlength : (bytes.map some : List (Option UInt8)).length = bytes.length := length_map _
    refine .inr ⟨_, _, rfl, ⟨?_, ?_, ?_, ?_, Nat.zero_le _, ?_, h.within, ?_, ?_, ?_⟩, ?_⟩
    · exact lt_of_le_of_lt (Nat.zero_le _) hroom
    · rw [Buffer.length_overwrite (by rw [hlength]; omega), hsize]
    · simp only
      omega
    · exact Nat.le_add_right _ _
    · exact hreach
    · simp only [base, getD_some, drop_zero, Nat.sub_zero]
      rw [← hlength, take_overwrite (by omega), append_assoc, ← map_append, ← hsplit]
      exact hcontent
    · intro p' hp'
      cases hp'
      simp only [Nat.sub_zero, hsame]
      exact hmarked
    · intro hnone
      cases hnone
    · simp only
      omega

theorem Tracks.bufferData (h : Tracks 0 data s t) (hpos : s.pos = s.count) (hgrow : ¬ s.growsBadly) :
    (∃ s', s.bufferData choose = (.ok none, s') ∧ Tracks 0 data s' t ∧ data.length ≤ t.position) ∨
      ∃ n s', s.bufferData choose = (.ok (some n), s') ∧ Tracks 1 data s' t ∧ s'.pos < s'.count := by
  rw [BufferedInputStream.bufferData]
  rcases eq_none_or_eq_some s.markPos with hmark | ⟨p, hmark⟩
  · rw [hmark]
    refine h.fillFresh hpos ?_
    intro p hp
    exact absurd (hmark.symm.trans hp) (some_ne_none p).symm
  · rw [hmark]
    by_cases hlimit : (s.pos : Int) - p ≥ s.markLimit
    · simp only [if_pos hlimit]
      refine h.fillFresh hpos ?_
      intro p' hp'
      have heq : p = p' := Option.some.inj (hmark.symm.trans hp')
      exact heq ▸ hlimit
    · simp only [if_neg hlimit]
      exact h.fillMarked hpos hmark (not_le.mp hlimit) hgrow

/-! ### The operations -/

theorem Tracks.weaken (h : Tracks 0 data s t) : Tracks 1 data s t :=
  ⟨h.room, h.size, h.fits, h.pos_le, h.base_le, h.reach, h.within, h.content, h.marked, fun hmark position limit hsome => by
    have := h.gone hmark position limit hsome
    omega⟩

theorem Tracks.takeByte (h : Tracks 1 data s t) (hpos : s.pos < s.count) :
    ∃ b, s.takeByte = (.byte b, { s with pos := s.pos + 1 }) ∧ data[t.position]? = some b ∧
      Tracks 0 data { s with pos := s.pos + 1 } (t.advance 1) := by
  have hunread := congrArg (fun cells => cells[0]?) h.unread
  have hfits := h.fits
  have hlength : 0 < ((s.buffer.take s.count).drop s.pos).length := by
    rw [length_drop, length_take, h.size]
    omega
  rw [List.getElem?_append_left hlength, List.getElem?_drop, Nat.add_zero, List.getElem?_take_of_lt hpos,
    List.getElem?_map, List.getElem?_drop, Nat.add_zero] at hunread
  have hin : s.pos < s.buffer.length := by
    rw [h.size]
    omega
  cases hbyte : data[t.position]? with
  | none =>
    rw [hbyte, List.getElem?_eq_getElem hin] at hunread
    cases hunread
  | some b =>
    rw [hbyte] at hunread
    refine ⟨b, ?_, rfl, h.consume (le_refl 1) hpos⟩
    rw [BufferedInputStream.takeByte, if_pos (Nat.ne_of_lt hpos), hunread]
    rfl

theorem Tracks.read (h : Tracks 0 data s t) (hgrow : s.pos ≥ s.count → ¬ s.growsBadly) :
    ∃ t', t.Allows data .read (s.read choose).1 t' ∧ Tracks 0 data (s.read choose).2 t' := by
  rw [BufferedInputStream.read]
  by_cases hpos : s.pos ≥ s.count
  · rw [if_pos hpos]
    rcases @Tracks.bufferData choose data s t h (le_antisymm h.pos_le hpos) (hgrow hpos)
      with ⟨s', hrun, hs', hend⟩ | ⟨n, s', hrun, hs', hlt⟩
    · rw [hrun]
      exact ⟨t, ⟨hend, rfl⟩, hs'⟩
    · obtain ⟨b, htake, hbyte, hnext⟩ := hs'.takeByte hlt
      simp only [hrun, htake]
      exact ⟨t.advance 1, ⟨hbyte, rfl⟩, hnext⟩
  · obtain ⟨b, htake, hbyte, hnext⟩ := h.weaken.takeByte (not_le.mp hpos)
    rw [if_neg hpos, htake]
    exact ⟨t.advance 1, ⟨hbyte, rfl⟩, hnext⟩

/-- What a bulk read of at most `limit` bytes returns. -/
def Gathers (data : ByteString) (t : Access) (limit : Nat) (result : StreamAnswer × BufferedInputStream) : Prop :=
  (∃ bs, result.1 = .bytes bs ∧ bs ≠ [] ∧ bs.length ≤ limit ∧ bs = (data.drop t.position).take bs.length ∧
    Tracks 0 data result.2 (t.advance bs.length)) ∨
    (result.1 = .endOfStream ∧ data.length ≤ t.position ∧ Tracks 0 data result.2 t)

/-- No refill of the loop grows the buffer badly. -/
def growsWell (choose : Nat → Nat) : (turns required : Nat) → BufferedInputStream → Prop
  | 0, _, _ => True
  | turns + 1, required, s =>
    ¬ s.growsBadly ∧
      match s.readTurn choose required with
      | (.ok (some copied), s) =>
        required - copied.length ≠ 0 → (s.inputStream.available choose).1 ≠ 0 →
          growsWell choose turns (required - copied.length)
            { s with inputStream := (s.inputStream.available choose).2 }
      | _ => True

theorem take_more {xs bytes copied : ByteString} {position : Nat} (hbytes : bytes = (xs.drop position).take bytes.length)
    (hcopied : copied = (xs.drop (position + bytes.length)).take copied.length) :
    bytes ++ copied = (xs.drop position).take (bytes ++ copied).length := by
  rw [length_append, take_add, ← hbytes, drop_drop, ← hcopied]

theorem Tracks.readTurn {required : Nat} (h : Tracks 0 data s t) (hpos : s.pos = s.count) (hrequired : 0 < required)
    (hgrow : ¬ s.growsBadly) :
    (∃ s', s.readTurn choose required = (.ok none, s') ∧ Tracks 0 data s' t ∧ data.length ≤ t.position) ∨
      ∃ copied s', s.readTurn choose required = (.ok (some copied), s') ∧ copied ≠ [] ∧ copied.length ≤ required ∧
        copied = (data.drop t.position).take copied.length ∧ Tracks 0 data s' (t.advance copied.length) ∧
        (required - copied.length ≠ 0 → s'.pos = s'.count) := by
  rw [BufferedInputStream.readTurn]
  by_cases hdirect : s.markPos = none ∧ required ≥ s.bufferSize
  · have hrest := h.rest_eq hpos
    rw [if_pos hdirect]
    rcases @read_wrapped choose s.inputStream required hrequired
      with ⟨hend, stream, hrun, hend'⟩ | ⟨bytes, stream, hrun, hsplit, hsome, hle⟩
    · rw [hrun]
      refine .inl ⟨_, rfl, h.turn (hend'.trans hend.symm), ?_⟩
      rw [hend] at hrest
      exact drop_eq_nil_iff.mp hrest.symm
    · rw [hrun]
      refine .inr ⟨bytes, _, rfl, length_pos_iff.mp hsome, hle, ?_, h.bypass hpos hdirect.1 ?_ ?_, fun _ => hpos⟩
      · rw [← hrest, hsplit, take_left]
      · rw [hsplit, drop_left]
      · rw [hsplit, length_append]
        omega
  · rw [if_neg hdirect]
    rcases @Tracks.bufferData choose data s t h hpos hgrow with ⟨s', hrun, hs', hend⟩ | ⟨n, s', hrun, hs', hlt⟩
    · rw [hrun]
      exact .inl ⟨s', rfl, hs', hend⟩
    · obtain ⟨hcopy, hlength⟩ := hs'.copy (show s'.pos + min required (s'.count - s'.pos) ≤ s'.count by omega)
      simp only [hrun, hcopy]
      refine .inr ⟨_, _, rfl, ?_, ?_, ?_, ?_, ?_⟩
      · apply length_pos_iff.mp
        omega
      · omega
      · rw [hlength]
      · rw [hlength]
        exact hs'.consume (by omega) (by omega)
      · simp only [hlength]
        omega

theorem Tracks.readLoop : ∀ {turns required : Nat} {s : BufferedInputStream} {bytes : ByteString},
    required ≤ turns → 0 < required → s.pos = s.count → bytes = (data.drop t.position).take bytes.length →
    Tracks 0 data s (t.advance bytes.length) → growsWell choose turns required s →
      Gathers data t (bytes.length + required) (s.readLoop choose turns required bytes) := by
  intro turns
  induction turns with
  | zero =>
    intro required s bytes hle hpos
    omega
  | succ turns ih =>
    intro required s bytes hle hrequired hpos hbytes h hwell
    obtain ⟨hgrow, hrest⟩ := hwell
    rw [BufferedInputStream.readLoop]
    rcases @Tracks.readTurn choose data s _ required h hpos hrequired hgrow
      with ⟨s', hrun, hs', hend⟩ | ⟨copied, s', hrun, hsome, hshort, hcopied, hs', hpos'⟩
    · simp only [hrun, gathered]
      by_cases hnone : bytes = []
      · rw [hnone] at hs' hend
        exact .inr ⟨by simp only [hnone, if_true], hend, hs'⟩
      · rw [if_neg hnone]
        exact .inl ⟨bytes, rfl, hnone, Nat.le_add_right _ _, hbytes, hs'⟩
    · have hmore := take_more hbytes hcopied
      have hadvance : (t.advance bytes.length).advance copied.length = t.advance (bytes ++ copied).length := by
        rw [Access.advance, Access.advance, Access.advance, length_append, ← Nat.add_assoc]
      have hlength : (bytes ++ copied).length = bytes.length + copied.length := length_append
      have hnonempty : bytes ++ copied ≠ [] := append_ne_nil_of_right_ne_nil _ hsome
      have hpositive := length_pos_iff.mpr hsome
      rw [hadvance] at hs'
      rw [hrun] at hrest
      simp only [hrun]
      by_cases hall : required - copied.length = 0
      · rw [if_pos hall]
        exact .inl ⟨_, rfl, hnonempty, by omega, hmore, hs'⟩
      · rw [if_neg hall]
        have hturn : Tracks 0 data { s' with inputStream := (s'.inputStream.available choose).2 }
            (t.advance (bytes ++ copied).length) := hs'.turn rfl
        by_cases hready : (s'.inputStream.available choose).1 = 0
        · rw [if_pos hready]
          exact .inl ⟨_, rfl, hnonempty, by omega, hmore, hturn⟩
        · rw [if_neg hready]
          have hloop := @ih (required - copied.length)
            { s' with inputStream := (s'.inputStream.available choose).2 } (bytes ++ copied) (by omega) (by omega)
            (hpos' hall) hmore hturn (hrest hall hready)
          have hlimit : (bytes ++ copied).length + (required - copied.length) = bytes.length + required := by omega
          rwa [hlimit] at hloop

/-- The condition of a bulk read: that of its loop, for what is left after the bytes of the buffer. -/
def arrayGrowsWell (choose : Nat → Nat) (length : Nat) (s : BufferedInputStream) : Prop :=
  if s.pos < s.count then
    let copylength := min length (s.count - s.pos)
    copylength ≠ length → (s.inputStream.available choose).1 ≠ 0 →
      growsWell choose (length - copylength) (length - copylength)
        { s with pos := s.pos + copylength, inputStream := (s.inputStream.available choose).2 }
  else growsWell choose length length s

theorem Gathers.allows {size offset length : Int} (hvalid : Access.validPart size offset length) (hpos : 0 < length)
    {result : StreamAnswer × BufferedInputStream} (h : Gathers data t length.toNat result) :
    ∃ t', t.Allows data (.readArray size offset length) result.1 t' ∧ Tracks 0 data result.2 t' := by
  rcases h with ⟨bs, hanswer, hsome, hle, htake, htracks⟩ | ⟨hanswer, hend, htracks⟩
  · rw [hanswer]
    exact ⟨_, ⟨hvalid, fun hnil => absurd hnil hsome, by omega, htake, rfl⟩, htracks⟩
  · rw [hanswer]
    exact ⟨t, ⟨hvalid, hpos, hend, rfl⟩, htracks⟩

theorem Tracks.readArray (h : Tracks 0 data s t) (size offset length : Int)
    (hgrow : Access.validPart size offset length → 0 < length → s.arrayGrowsWell choose length.toNat) :
    ∃ t', t.Allows data (.readArray size offset length) (s.readArray choose size offset length).1 t' ∧
      Tracks 0 data (s.readArray choose size offset length).2 t' := by
  rw [BufferedInputStream.readArray]
  by_cases hoffset : offset > size ∨ offset < 0
  · rw [if_pos hoffset]
    refine ⟨t, ⟨?_, rfl⟩, h⟩
    rintro ⟨hlow, hhigh, -, -⟩
    omega
  by_cases hlength : length < 0 ∨ length > size - offset
  · rw [if_neg hoffset, if_pos hlength]
    refine ⟨t, ⟨?_, rfl⟩, h⟩
    rintro ⟨-, -, hlow, hhigh⟩
    omega
  have hvalid : Access.validPart size offset length := by
    refine ⟨?_, ?_, ?_, ?_⟩ <;> omega
  rw [if_neg hoffset, if_neg hlength]
  by_cases hzero : length = 0
  · rw [if_pos hzero]
    exact ⟨t, ⟨hvalid, fun _ => hzero, hvalid.2.2.1, rfl, rfl⟩, h⟩
  have hpos : 0 < length := lt_of_le_of_ne hvalid.2.2.1 (Ne.symm hzero)
  have hwell := hgrow hvalid hpos
  rw [arrayGrowsWell] at hwell
  rw [if_neg hzero]
  apply Gathers.allows hvalid hpos
  by_cases hbuffered : s.pos < s.count
  · rw [if_pos hbuffered] at hwell ⊢
    obtain ⟨n, hn⟩ : ∃ n, min length.toNat (s.count - s.pos) = n := ⟨_, rfl⟩
    have hnpos : 0 < n := by omega
    have hnle : s.pos + n ≤ s.count := by omega
    obtain ⟨hcopy, hcopied⟩ := h.copy hnle
    have htake : (data.drop t.position).take n = (data.drop t.position).take ((data.drop t.position).take n).length := by
      rw [hcopied]
    have hnonempty : (data.drop t.position).take n ≠ [] := by
      apply length_pos_iff.mp
      omega
    have hnext := h.consume (Nat.zero_le n) hnle
    have hnext' : Tracks 0 data { s with pos := s.pos + n } (t.advance ((data.drop t.position).take n).length) := by
      rwa [hcopied]
    simp only [hn] at hwell ⊢
    simp only [hcopy]
    by_cases hfull : (n : Int) = length
    · rw [if_pos hfull]
      exact .inl ⟨_, rfl, hnonempty, by omega, htake, hnext'⟩
    · rw [if_neg hfull]
      have hturn : Tracks 0 data { s with pos := s.pos + n, inputStream := (s.inputStream.available choose).2 }
          (t.advance ((data.drop t.position).take n).length) := hnext'.turn rfl
      by_cases hready : (s.inputStream.available choose).1 = 0
      · rw [if_pos hready]
        exact .inl ⟨_, rfl, hnonempty, by omega, htake, hturn⟩
      · rw [if_neg hready]
        have hloop := @Tracks.readLoop choose data t (length.toNat - n) (length.toNat - n)
          { s with pos := s.pos + n, inputStream := (s.inputStream.available choose).2 }
          ((data.drop t.position).take n) (le_refl _) (by omega) (by simp only; omega) htake hturn
          (hwell (by omega) hready)
        have hlimit : ((data.drop t.position).take n).length + (length.toNat - n) = length.toNat := by omega
        rwa [hlimit] at hloop
  · rw [if_neg hbuffered] at hwell ⊢
    have hend : s.pos = s.count := le_antisymm h.pos_le (not_lt.mp hbuffered)
    have hloop := @Tracks.readLoop choose data t length.toNat length.toNat s [] (le_refl _) (by omega) hend rfl h hwell
    rwa [length_nil, Nat.zero_add] at hloop

/-- `skip` asks for no negative amount; where it comes to the end of the buffer, a mark is kept only within its limit,
and the buffer does not grow badly. -/
def skipsWell (amount : Int) (s : BufferedInputStream) : Prop :=
  0 ≤ amount ∧ ((s.count : Int) - s.pos < amount → s.markPos ≠ none →
    if amount ≤ s.markLimit then ¬ ({ s with pos := s.count } : BufferedInputStream).growsBadly
    else s.inputStream.rest = [])

theorem advance_advance (t : Access) (m n : Nat) : (t.advance m).advance n = t.advance (m + n) := by
  rw [Access.advance, Access.advance, Access.advance, ← Nat.add_assoc]

theorem Tracks.allows_skip (h : Tracks 0 data s (t.advance n)) (hle : (n : Int) ≤ amount) :
    ∃ t', t.Allows data (.skip amount) (.skipped n) t' ∧ Tracks 0 data s t' := by
  have hwithin := h.within
  simp only [Access.advance] at hwithin
  exact ⟨t.advance n, ⟨Int.natCast_nonneg n, le_max_of_le_left hle, by omega, by rw [Int.toNat_natCast]⟩, h⟩

theorem Tracks.skip (h : Tracks 0 data s t) (hwell : s.skipsWell amount) :
    ∃ t', t.Allows data (.skip amount) (s.skip choose amount).1 t' ∧ Tracks 0 data (s.skip choose amount).2 t' := by
  obtain ⟨hnonneg, hrefill⟩ := hwell
  have hpos := h.pos_le
  obtain ⟨n, rfl⟩ := Int.eq_ofNat_of_zero_le hnonneg
  rw [skip]
  by_cases hzero : (n : Int) = 0
  · rw [if_pos hzero]
    have hnone : Tracks 0 data s (t.advance 0) := h
    exact hnone.allows_skip hnonneg
  by_cases hbuffered : (s.count : Int) - s.pos ≥ n
  · have hinside : ¬ ((s.pos : Int) + n < 0) := by omega
    have hto : ((s.pos : Int) + n).toNat = s.pos + n := by omega
    simp only [if_neg hzero, if_pos hbuffered, if_neg hinside, hto]
    exact (h.consume (Nat.zero_le n) (by omega)).allows_skip (le_refl _)
  obtain ⟨read, hread⟩ : ∃ read, s.count - s.pos = read := ⟨_, rfl⟩
  have hend : s.pos + read = s.count := by omega
  have hdrained := h.consume (Nat.zero_le read) hend.le
  rw [hend] at hdrained
  simp only [if_neg hzero, if_neg hbuffered, hread]
  by_cases hmarked : s.markPos ≠ none ∧ (n : Int) ≤ s.markLimit
  · rw [if_pos hmarked]
    have hgrow := hrefill (by omega) hmarked.1
    rw [if_pos hmarked.2] at hgrow
    rcases @Tracks.bufferData choose data _ _ hdrained rfl hgrow
      with ⟨s', hrun, hs', -⟩ | ⟨m, s', hrun, hs', hlt⟩
    · rw [hrun]
      exact hs'.allows_skip (by omega)
    · simp only [hrun]
      by_cases henough : (s'.count : Int) - s'.pos ≥ n - read
      · have hto : ((n : Int) - read).toNat = n - read := by omega
        have hall := hs'.consume (show 1 ≤ n - read by omega) (by omega)
        have hsum : read + (n - read) = n := by omega
        rw [advance_advance, hsum] at hall
        rw [if_pos henough, hto]
        exact hall.allows_skip (le_refl _)
      · have hall := hs'.consume (show 1 ≤ s'.count - s'.pos by omega) (by omega)
        have hsum : s'.pos + (s'.count - s'.pos) = s'.count := by omega
        rw [advance_advance, hsum] at hall
        rw [if_neg henough]
        exact hall.allows_skip (by omega)
  · rw [if_neg hmarked]
    simp only [WrappedStream.skip]
    obtain ⟨m, hm⟩ : ∃ m, min (choose s.inputStream.turn) (min ((n : Int) - read).toNat s.inputStream.rest.length) = m :=
      ⟨_, rfl⟩
    rw [hm]
    have hle : (read + m : Nat) ≤ (n : Int) := by omega
    rcases eq_none_or_eq_some s.markPos with hmark | ⟨p, hmark⟩
    · have hmore : m ≤ s.inputStream.rest.length := by omega
      have hnext := @Tracks.bypass data _ _ hdrained rfl hmark m
        { rest := s.inputStream.rest.drop m, turn := s.inputStream.turn + 1 } rfl hmore
      rw [advance_advance] at hnext
      exact hnext.allows_skip hle
    · -- beyond the limit of the mark there must be nothing to skip
      have hsome : s.markPos ≠ none := by
        rw [hmark]
        exact some_ne_none p
      have hlast := hrefill (by omega) hsome
      rw [if_neg fun hlimit => hmarked ⟨hsome, hlimit⟩] at hlast
      have hnothing : m = 0 := by
        rw [hlast, length_nil] at hm
        omega
      subst hnothing
      have hnext := @Tracks.turn data _ _ _ hdrained
        { rest := s.inputStream.rest.drop 0, turn := s.inputStream.turn + 1 } drop_zero
      exact hnext.allows_skip hle

theorem Tracks.mark (h : Tracks 0 data s t) (readLimit : Int) :
    ∃ t', t.Allows data (.mark readLimit) .done t' ∧ Tracks 0 data (s.mark readLimit) t' := by
  have hbase : (s.mark readLimit).base = s.pos := rfl
  refine ⟨_, rfl, ⟨h.room, h.size, h.fits, h.pos_le, hbase.le, ?_, h.within, ?_, ?_, ?_⟩⟩
  · rw [hbase, BufferedInputStream.mark, Nat.sub_self]
    exact Nat.zero_le _
  · rw [hbase]
    simp only [BufferedInputStream.mark, Nat.sub_self, Nat.sub_zero]
    exact h.unread
  · intro p hp
    cases hp
    simp only [BufferedInputStream.mark, Nat.sub_self, Nat.sub_zero]
  · intro hnone
    cases hnone

theorem Tracks.reset (h : Tracks 0 data s t) :
    ∃ t', t.Allows data .reset s.reset.1 t' ∧ Tracks 0 data s.reset.2 t' := by
  rcases eq_none_or_eq_some s.markPos with hmark | ⟨p, hmark⟩
  · rw [BufferedInputStream.reset, hmark]
    refine ⟨t, ⟨?_, rfl⟩, h⟩
    intro position limit hsome
    exact h.gone hmark position limit hsome
  · have hbase := h.base_le
    have hcontent := h.content
    have hwithin := h.within
    rw [base_some hmark] at hbase hcontent
    have hmarked := h.marked p hmark
    have hreset : Tracks 0 data { s with pos := p } { t with position := t.position - (s.pos - p) } := by
      have hbase' : ({ s with pos := p } : BufferedInputStream).base = p := base_some hmark
      refine ⟨h.room, h.size, h.fits, hbase.trans h.pos_le, hbase'.le, ?_, ?_, ?_, ?_, ?_⟩
      · rw [hbase', Nat.sub_self]
        exact Nat.zero_le _
      · simp only
        omega
      · rw [hbase']
        simp only [Nat.sub_self, Nat.sub_zero]
        exact hcontent
      · intro p' hp'
        have heq : p = p' := Option.some.inj (hmark.symm.trans hp')
        subst heq
        simp only [Nat.sub_self, Nat.sub_zero]
        exact hmarked
      · intro hnone
        exact absurd (hmark.symm.trans hnone) (some_ne_none p)
    have hrun : s.reset = (.done, { s with pos := p }) := by
      rw [BufferedInputStream.reset, hmark]
    rw [hrun]
    exact ⟨_, ⟨_, _, hmarked, rfl⟩, hreset⟩

/-! ### Runs -/

/-- What an operation needs of the state before it. -/
def Orderly (choose : Nat → Nat) (s : BufferedInputStream) : StreamOp → Prop
  | .read => s.pos ≥ s.count → ¬ s.growsBadly
  | .readArray size offset length =>
    Access.validPart size offset length → 0 < length → s.arrayGrowsWell choose length.toNat
  | .skip amount => s.skipsWell amount
  | .mark _ | .reset => True

theorem Tracks.step (h : Tracks 0 data s t) (op : StreamOp) (horderly : s.Orderly choose op) :
    ∃ t', t.Allows data op (s.step choose op).1 t' ∧ Tracks 0 data (s.step choose op).2 t' := by
  cases op with
  | read => exact h.read horderly
  | readArray size offset length => exact h.readArray size offset length horderly
  | skip amount => exact h.skip horderly
  | mark readLimit => exact h.mark readLimit
  | reset => exact h.reset

theorem tracks_new (data : ByteString) {bufferSize : Nat} (hsize : 0 < bufferSize) :
    Tracks 0 data (new data bufferSize) {} := by
  refine ⟨hsize, length_replicate, Nat.zero_le _, le_refl _, le_refl _, Nat.zero_le _, Nat.zero_le _, rfl, ?_, ?_⟩
  · intro p hp
    cases hp
  · intro _ position limit hmark
    cases hmark

/-- However the wrapped stream chunks its bytes, a buffered stream answers as direct access to them does while its
operations are orderly. -/
theorem bufferedInputStream_transparent (choose : Nat → Nat) (data : ByteString) {bufferSize : Nat}
    (hsize : 0 < bufferSize) (ops : List StreamOp)
    (hall : Always (moves (step choose)) (Orderly choose) (new data bufferSize) ops) :
    Accepts (Access.Allows data) {} ops (answers (step choose) (new data bufferSize) ops) :=
  accepts_answers (fun _ _ op h horderly => h.step op horderly) (tracks_new data hsize) hall

instance (size offset length : Int) : Decidable (Access.validPart size offset length) :=
  inferInstanceAs (Decidable (_ ∧ _ ∧ _ ∧ _))

instance (s : BufferedInputStream) : Decidable s.growsBadly := inferInstanceAs (Decidable (_ ∧ _ ∧ _ ∧ _))

instance decidableGrowsWell (choose : Nat → Nat) :
    (turns required : Nat) → (s : BufferedInputStream) → Decidable (growsWell choose turns required s)
  | 0, _, _ => isTrue trivial
  | turns + 1, required, s =>
    have : Decidable (match s.readTurn choose required with
        | (.ok (some copied), s) =>
          required - copied.length ≠ 0 → (s.inputStream.available choose).1 ≠ 0 →
            growsWell choose turns (required - copied.length)
              { s with inputStream := (s.inputStream.available choose).2 }
        | _ => True) :=
      match s.readTurn choose required with
      | (.ok (some _), _) =>
        have := decidableGrowsWell choose turns
        inferInstanceAs (Decidable (_ → _ → _))
      | (.ok none, _) => isTrue trivial
      | (.error _, _) => isTrue trivial
    inferInstanceAs (Decidable (_ ∧ _))

instance (choose : Nat → Nat) (length : Nat) (s : BufferedInputStream) : Decidable (s.arrayGrowsWell choose length) :=
  inferInstanceAs (Decidable (if s.pos < s.count then
    min length (s.count - s.pos) ≠ length → (s.inputStream.available choose).1 ≠ 0 → growsWell choose _ _ _
  else growsWell choose length length s))

instance (amount : Int) (s : BufferedInputStream) : Decidable (s.skipsWell amount) :=
  inferInstanceAs (Decidable (0 ≤ amount ∧ ((s.count : Int) - s.pos < amount → s.markPos ≠ none →
    if amount ≤ s.markLimit then ¬ ({ s with pos := s.count } : BufferedInputStream).growsBadly
    else s.inputStream.rest = [])))

instance (choose : Nat → Nat) (s : BufferedInputStream) : (op : StreamOp) → Decidable (s.Orderly choose op)
  | .read => inferInstanceAs (Decidable (_ → _))
  | .readArray _ _ _ => inferInstanceAs (Decidable (_ → _ → _))
  | .skip amount => inferInstanceAs (Decidable (s.skipsWell amount))
  | .mark _ | .reset => inferInstanceAs (Decidable True)

/-- Short reads, a refill that moves the marked bytes to the start of the buffer, and a reset to them. -/
theorem bufferedInputStream_transparent_short :
    answers (step fun turn => 1 + turn % 3) (new [1, 2, 3, 4, 5, 6, 7] 3)
        [.read, .mark 2, .readArray 4 1 2, .reset, .skip 2, .read, .readArray 5 0 5, .reset, .read] =
        [.byte 1, .done, .bytes [2, 3], .done, .skipped 2, .byte 4, .bytes [5, 6, 7], .failed .ioException,
          .endOfStream] ∧
      Accepts (Access.Allows [1, 2, 3, 4, 5, 6, 7]) {}
        [.read, .mark 2, .readArray 4 1 2, .reset, .skip 2, .read, .readArray 5 0 5, .reset, .read]
        (answers (step fun turn => 1 + turn % 3) (new [1, 2, 3, 4, 5, 6, 7] 3)
          [.read, .mark 2, .readArray 4 1 2, .reset, .skip 2, .read, .readArray 5 0 5, .reset, .read]) :=
  ⟨by decide, bufferedInputStream_transparent _ _ (by decide) _ (by decide)⟩

/-- A buffer that grows loses the marked bytes; a skip past the limit of the mark leaves the mark where its bytes no
longer follow; a negative amount goes back; a buffer of no bytes ends at once. -/
theorem bufferedInputStream_not_transparent :
    ¬ Accepts (Access.Allows [1, 2]) {} [.mark 5, .read, .read, .reset, .read]
        (answers (step fun _ => 1) (new [1, 2] 1) [.mark 5, .read, .read, .reset, .read]) ∧
      ¬ Accepts (Access.Allows [1, 2, 3, 4]) {} [.read, .mark 1, .skip 2, .reset, .read, .read]
        (answers (step fun _ => 2) (new [1, 2, 3, 4] 2) [.read, .mark 1, .skip 2, .reset, .read, .read]) ∧
      ¬ Accepts (Access.Allows [1, 2]) {} [.read, .skip (-1)]
        (answers (step fun _ => 2) (new [1, 2] 2) [.read, .skip (-1)]) ∧
      ¬ Accepts (Access.Allows [1]) {} [.read] (answers (step fun _ => 1) (new [1] 0) [.read]) := by
  refine ⟨?_, ?_, ?_, ?_⟩
  · have hanswers : answers (step fun _ => 1) (new [1, 2] 1) [.mark 5, .read, .read, .reset, .read] =
        [.done, .byte 1, .byte 2, .done, .failed .undefined] := by decide
    rw [hanswers]
    rintro ⟨_, -, _, -, _, -, _, -, _, hlast, -⟩
    exact hlast
  · have hanswers : answers (step fun _ => 2) (new [1, 2, 3, 4] 2) [.read, .mark 1, .skip 2, .reset, .read, .read] =
        [.byte 1, .done, .skipped 2, .done, .byte 2, .byte 4] := by decide
    rw [hanswers]
    rintro ⟨_, ⟨-, rfl⟩, _, rfl, _, ⟨-, -, -, rfl⟩, _, ⟨position, limit, hmark, rfl⟩, _, ⟨-, rfl⟩, _, ⟨hbyte, -⟩, -⟩
    cases hmark
    exact absurd hbyte (by decide)
  · have hanswers : answers (step fun _ => 2) (new [1, 2] 2) [.read, .skip (-1)] = [.byte 1, .skipped (-1)] := by
      decide
    rw [hanswers]
    rintro ⟨_, -, _, ⟨hnonneg, -⟩, -⟩
    exact absurd hnonneg (by decide)
  · have hanswers : answers (step fun _ => 1) (new [1] 0) [.read] = [.endOfStream] := by decide
    rw [hanswers]
    rintro ⟨_, ⟨hend, -⟩, -⟩
    exact absurd hend (by decide)

end BufferedInputStream

end ActiveMQCpp.Decaf
