import ActiveMQCpp.DecafBufferedInputStream

/-! `DataInputStream::readFully` into a part of the caller's buffer, over a stream that yields its bytes in
chunks. -/

namespace ActiveMQCpp.Decaf.DataInputStream

open Codec Buffer List

structure Reading where
  buffer : ByteString
  inputStream : WrappedStream
  deriving DecidableEq

abbrev ReadInto := EStateM Failure Reading

/-- The checks of a bounded read, which `readFully` makes as well. -/
def checkBounds (size offset length : Int) : ReadInto Unit :=
  if size < 0 then
    throw (.thrown .indexOutOfBoundsException s!"size parameter out of Bounds: {size}.")
  else if offset > size ∨ offset < 0 then
    throw (.thrown .indexOutOfBoundsException s!"offset parameter out of Bounds: {offset}.")
  else if length < 0 ∨ length > size - offset then
    throw (.thrown .indexOutOfBoundsException s!"length parameter out of Bounds: {length}.")
  else pure ()

/-- `DECAF_CATCH_RETHROW` of the exceptions a read documents, then `DECAF_CATCHALL_THROW(IOException)`. -/
def catchRead : Failure → Failure
  | .thrown type message =>
    if type = .nullPointerException ∨ type = .indexOutOfBoundsException ∨ type.isIOException then
      .thrown type message
    else .thrown .ioException "caught unknown exception"
  | .undefined => .undefined

variable (choose : Nat → Nat)
variable {offset length : Nat}

/-- `read(buffer, size, offset, length)` of the wrapped stream. Bytes behind the end of the buffer are nobody's. -/
def readArray (size offset length : Int) : ReadInto Int :=
  if length = 0 then pure 0
  else do
    checkBounds size offset length
    let s ← get
    match s.inputStream.read choose length.toNat with
    | (none, inputStream) =>
      set { s with inputStream := inputStream }
      pure (-1)
    | (some bytes, inputStream) =>
      if s.buffer.length < offset.toNat + bytes.length then throw .undefined
      else
        set { buffer := Buffer.overwrite s.buffer offset.toNat bytes, inputStream := inputStream : Reading }
        pure bytes.length

/-- The loop of `readFully` after `n` bytes. The wrapped stream is given `length` for the size of the buffer. -/
def readLoop (offset length : Int) : Nat → Int → ReadInto Unit
  | 0, n => if n < length then throw .undefined else pure ()
  | turns + 1, n =>
    if n < length then do
      let count ← readArray choose length (offset + n) (length - n)
      if count = -1 then throw (.thrown .eofException "Reached EOF")
      else readLoop offset length turns (n + count)
    else pure ()

/-- `readFully(buffer, size, offset, length)`. A turn of the loop reads one byte at least. -/
def readFullyBounded (size offset length : Int) : ReadInto Unit :=
  mapError catchRead <|
    if length = 0 then pure ()
    else do
      checkBounds size offset length
      readLoop choose offset length length.toNat 0

/-! ### A buffer filled from its start -/

theorem checkBounds_ok {size : Nat} (h : offset + length ≤ size) : checkBounds size offset length = pure () := by
  unfold checkBounds
  rw [if_neg (by omega), if_neg (by omega), if_neg (by omega)]

theorem readArray_turn {n : Nat} (hn : n < length) (s : Reading) (hroom : length ≤ s.buffer.length) :
    (s.inputStream.rest = [] ∧ ∃ turn, readArray choose length n (length - n : Nat) s
      = .ok (-1) { s with inputStream := { s.inputStream with turn := turn } }) ∨
    (∃ k turn, 0 < k ∧ n + k ≤ length ∧ k ≤ s.inputStream.rest.length ∧
      readArray choose length n (length - n : Nat) s
        = .ok k { buffer := overwrite s.buffer n (s.inputStream.rest.take k)
                  inputStream := { rest := s.inputStream.rest.drop k, turn := turn } }) := by
  have hrun : readArray choose length n (length - n : Nat) s
      = match s.inputStream.read choose (length - n) with
        | (none, inputStream) => .ok (-1) { s with inputStream := inputStream }
        | (some bytes, inputStream) =>
          if s.buffer.length < n + bytes.length then .error .undefined s
          else .ok bytes.length
            { buffer := overwrite s.buffer n bytes, inputStream := inputStream } := by
    unfold readArray
    rw [if_neg (by omega), checkBounds_ok (by omega)]
    simp only [bind_run, pure_run, get_run, Int.toNat_natCast]
    cases s.inputStream.read choose (length - n) with
    | mk bytes inputStream =>
      cases bytes with
      | none => rfl
      | some bytes =>
        by_cases hover : s.buffer.length < n + bytes.length
        · simp only [if_pos hover]
          rfl
        · simp only [if_neg hover]
          rfl
  by_cases hend : s.inputStream.rest = []
  · left
    refine ⟨hend, s.inputStream.turn + 1, ?_⟩
    rw [hrun, WrappedStream.read, if_neg (by omega), if_pos hend]
  · right
    have hpos : 0 < s.inputStream.rest.length := length_pos_of_ne_nil hend
    have hread : s.inputStream.read choose (length - n)
        = (some (s.inputStream.rest.take (max 1 (min (choose s.inputStream.turn) (length - n)))),
          { rest := s.inputStream.rest.drop (max 1 (min (choose s.inputStream.turn) (length - n)))
            turn := s.inputStream.turn + 1 }) := by
      rw [WrappedStream.read, if_neg (by omega), if_neg hend]
    have hchunk : max 1 (min (choose s.inputStream.turn) (length - n)) ≤ length - n := by omega
    have hone : 0 < max 1 (min (choose s.inputStream.turn) (length - n)) := by omega
    generalize max 1 (min (choose s.inputStream.turn) (length - n)) = chunk at hread hchunk hone
    have htake : (s.inputStream.rest.take chunk).length = min chunk s.inputStream.rest.length := length_take
    -- a chunk beyond the end of the stream is what is left of it
    have hmin : s.inputStream.rest.take (min chunk s.inputStream.rest.length) = s.inputStream.rest.take chunk ∧
        s.inputStream.rest.drop (min chunk s.inputStream.rest.length) = s.inputStream.rest.drop chunk := by
      by_cases hle : chunk ≤ s.inputStream.rest.length
      · rw [Nat.min_eq_left hle]
        exact ⟨rfl, rfl⟩
      · rw [Nat.min_eq_right (by omega), take_of_length_le (by omega), drop_of_length_le (by omega),
          take_of_length_le (by omega), drop_of_length_le (by omega)]
        exact ⟨rfl, rfl⟩
    refine ⟨min chunk s.inputStream.rest.length, s.inputStream.turn + 1, by omega, by omega, by omega, ?_⟩
    rw [hrun, hread, hmin.1, hmin.2]
    simp only [htake]
    rw [if_neg (by omega)]

/-- What `readFully` owes: exactly the next `length` bytes from `offset` on, or an `EOFException` when there are
fewer, with nothing stored but the bytes there are. -/
def ReadsFully (offset length : Nat) (s : Reading) (result : EStateM.Result Failure Reading Unit) : Prop :=
  if length ≤ s.inputStream.rest.length then
    ∃ turn, result = .ok ()
      { buffer := Buffer.overwrite s.buffer offset (s.inputStream.rest.take length)
        inputStream := { rest := s.inputStream.rest.drop length, turn := turn } }
  else
    ∃ turn message, result = .error (.thrown .eofException message)
      { buffer := Buffer.overwrite s.buffer offset s.inputStream.rest
        inputStream := { rest := [], turn := turn } }

theorem readLoop_readsFully (start : Reading) (hroom : length ≤ start.buffer.length) :
    ∀ {turns n turn : Nat}, length ≤ n + turns → n ≤ length → n ≤ start.inputStream.rest.length →
      ReadsFully 0 length start (readLoop choose 0 length turns n
        { buffer := overwrite start.buffer 0 (start.inputStream.rest.take n)
          inputStream := { rest := start.inputStream.rest.drop n, turn := turn } }) := by
  intro turns
  induction turns with
  | zero =>
    intro n turn hturns hn hrest
    have hdone : n = length := by omega
    subst hdone
    rw [ReadsFully, if_pos hrest, readLoop, if_neg (lt_irrefl _)]
    exact ⟨turn, rfl⟩
  | succ turns ih =>
    intro n turn hturns hn hrest
    rw [readLoop]
    by_cases hdone : n = length
    · subst hdone
      rw [ReadsFully, if_pos hrest, if_neg (lt_irrefl _)]
      exact ⟨turn, rfl⟩
    · have hlen : (start.inputStream.rest.take n).length = n := length_take_of_le hrest
      have hsize : (overwrite start.buffer 0 (start.inputStream.rest.take n)).length
          = start.buffer.length := length_overwrite (by omega)
      rw [if_pos (by omega), bind_run]
      have hsub : (length : Int) - (n : Int) = ((length - n : Nat) : Int) := by omega
      rw [Int.zero_add, hsub]
      rcases readArray_turn choose (show n < length by omega)
        { buffer := overwrite start.buffer 0 (start.inputStream.rest.take n)
          inputStream := { rest := start.inputStream.rest.drop n, turn := turn } } (by rw [hsize]; exact hroom) with
        ⟨hend, turn', hrun⟩ | ⟨k, turn', hk, hle, hleft, hrun⟩
      · have hall : start.inputStream.rest.length ≤ n := drop_eq_nil_iff.mp hend
        rw [hrun]
        unfold ReadsFully
        rw [if_neg (by omega)]
        refine ⟨turn', "Reached EOF", ?_⟩
        show EStateM.Result.error _ _ = _
        simp only [take_of_length_le hall, drop_of_length_le hall]
      · rw [hrun]
        rw [length_drop] at hleft
        have hstored : overwrite (overwrite start.buffer 0 (start.inputStream.rest.take n)) n
            ((start.inputStream.rest.drop n).take k)
            = overwrite start.buffer 0 (start.inputStream.rest.take (n + k)) := by
          have hend : overwrite (start.inputStream.rest.take n ++ start.buffer.drop n) n
              ((start.inputStream.rest.drop n).take k)
              = _ := congrArg (overwrite _ · _) hlen.symm |>.trans overwrite_end
          rw [overwrite_front, hlen, hend, overwrite_front, drop_drop, take_add,
            length_append, hlen]
        have hcount : ((k : Int) = -1) = False := by
          simp only [eq_iff_iff, iff_false]
          omega
        simp only [hcount, if_false, hstored, drop_drop]
        have hnext : (n : Int) + (k : Int) = ((n + k : Nat) : Int) := by omega
        rw [hnext]
        exact ih (by omega) hle (by omega)

/-! ### `readFully` -/

theorem ReadsFully.mapError {s : Reading} {m : ReadInto Unit}
    (h : ReadsFully offset length s (m s)) : ReadsFully offset length s (mapError catchRead m s) := by
  unfold ReadsFully at h ⊢
  by_cases henough : length ≤ s.inputStream.rest.length
  · rw [if_pos henough] at h ⊢
    obtain ⟨turn, hm⟩ := h
    exact ⟨turn, mapError_eq_ok.mpr hm⟩
  · rw [if_neg henough] at h ⊢
    obtain ⟨turn, message, hm⟩ := h
    exact ⟨turn, message, mapError_error hm⟩

theorem readFullyBounded_zero (size offset : Int) (s : Reading) :
    readFullyBounded choose size offset 0 s = .ok () s := rfl

theorem readFullyBounded_start (s : Reading) (hroom : length ≤ s.buffer.length) :
    ReadsFully 0 length s (readFullyBounded choose s.buffer.length 0 length s) := by
  by_cases hzero : length = 0
  · subst hzero
    rw [ReadsFully, if_pos (Nat.zero_le _)]
    exact ⟨s.inputStream.turn, rfl⟩
  · have hloop : ReadsFully 0 length s (readLoop choose 0 length length (0 : Nat)
        { buffer := overwrite s.buffer 0 (s.inputStream.rest.take 0)
          inputStream := { rest := s.inputStream.rest.drop 0, turn := s.inputStream.turn } }) :=
      readLoop_readsFully choose s hroom (by omega) (Nat.zero_le _) (Nat.zero_le _)
    apply ReadsFully.mapError
    have hfits : 0 + length ≤ s.buffer.length := by omega
    have hchecked : checkBounds s.buffer.length 0 length = pure () := checkBounds_ok hfits
    rw [if_neg (by omega), hchecked, Int.toNat_natCast]
    rw [take_zero, overwrite_nil, drop_zero] at hloop
    exact hloop

theorem readFullyBounded_refused (s : Reading) (hoffset : 0 < offset) (hlength : 0 < length)
    (hroom : offset + length ≤ s.buffer.length) :
    ∃ message, readFullyBounded choose s.buffer.length offset length s
      = .error (.thrown .indexOutOfBoundsException message) s := by
  have hchecked : checkBounds s.buffer.length offset length = pure () := checkBounds_ok hroom
  have hrefused : ∃ message, readArray choose length offset length s
      = .error (.thrown .indexOutOfBoundsException message) s := by
    unfold readArray checkBounds
    rw [if_neg (by omega), if_neg (by omega)]
    by_cases hbeyond : (offset : Int) > length ∨ (offset : Int) < 0
    · rw [if_pos hbeyond]
      exact ⟨_, rfl⟩
    · rw [if_neg hbeyond, if_pos (by omega)]
      exact ⟨_, rfl⟩
  obtain ⟨message, hread⟩ := hrefused
  obtain ⟨turns, hturns⟩ : ∃ turns, length = turns + 1 := ⟨length - 1, by omega⟩
  refine ⟨message, ?_⟩
  unfold readFullyBounded
  rw [if_neg (by omega), hchecked, Int.toNat_natCast]
  have hloop : readLoop choose offset length length 0 s = .error (.thrown .indexOutOfBoundsException message) s := by
    have hstart : readLoop choose offset length (turns + 1) 0 s
        = .error (.thrown .indexOutOfBoundsException message) s := by
      rw [readLoop, if_pos (by omega), Int.add_zero, Int.sub_zero, bind_error hread]
    rwa [← hturns] at hstart
  exact mapError_error hloop

/-- However the wrapped stream splits its bytes, `readFully` does what it owes exactly when there is no offset or
nothing to read. -/
theorem readFully_under_chunking (choose : Nat → Nat) (s : Reading) (offset length : Nat)
    (hroom : offset + length ≤ s.buffer.length) :
    ReadsFully offset length s (readFullyBounded choose s.buffer.length offset length s) ↔ offset = 0 ∨ length = 0 := by
  constructor
  · intro hreads
    by_contra hboth
    obtain ⟨message, hrun⟩ := readFullyBounded_refused choose s (by omega) (by omega) hroom
    rw [hrun] at hreads
    unfold ReadsFully at hreads
    split_ifs at hreads
    · obtain ⟨turn, hok⟩ := hreads
      cases hok
    · obtain ⟨turn, message', herror⟩ := hreads
      cases herror
  · rintro (hoffset | hlength)
    · subst hoffset
      exact readFullyBounded_start choose s (by omega)
    · subst hlength
      rw [Int.natCast_zero, readFullyBounded_zero, ReadsFully, if_pos (Nat.zero_le _), take_zero,
        overwrite_nil, drop_zero]
      exact ⟨s.inputStream.turn, rfl⟩

/-- Five bytes that come two at a time, read into the start of a buffer. -/
theorem readFully_under_chunking_pairs :
    3 + 0 ≤ 4 ∧ ReadsFully 0 3 { buffer := [9, 9, 9, 9], inputStream := { rest := [1, 2, 3, 4, 5] } }
      (readFullyBounded (fun _ => 2) 4 0 3
        { buffer := [9, 9, 9, 9], inputStream := { rest := [1, 2, 3, 4, 5] } }) :=
  ⟨by decide, (readFully_under_chunking (fun _ => 2)
    { buffer := [9, 9, 9, 9], inputStream := { rest := [1, 2, 3, 4, 5] } } 0 3 (by decide)).mpr (Or.inl rfl)⟩

/-- Two bytes are left and the buffer has room for them behind its first place; the read is refused. -/
theorem readFully_refuses_offset :
    1 + 2 ≤ 3 ∧ ¬ ReadsFully 1 2 { buffer := [9, 9, 9], inputStream := { rest := [1, 2] } }
      (readFullyBounded (fun _ => 2) 3 1 2 { buffer := [9, 9, 9], inputStream := { rest := [1, 2] } }) ∧
    ∃ message, readFullyBounded (fun _ => 2) 3 1 2 { buffer := [9, 9, 9], inputStream := { rest := [1, 2] } }
      = .error (.thrown .indexOutOfBoundsException message)
          { buffer := [9, 9, 9], inputStream := { rest := [1, 2] } } := by
  obtain ⟨message, hrun⟩ := readFullyBounded_refused (fun _ => 2)
    { buffer := [9, 9, 9], inputStream := { rest := [1, 2] } }
    (show 0 < 1 by decide) (show 0 < 2 by decide) (by decide)
  have hrun : readFullyBounded (fun _ => 2) 3 1 2 { buffer := [9, 9, 9], inputStream := { rest := [1, 2] } }
      = .error (.thrown .indexOutOfBoundsException message)
          { buffer := [9, 9, 9], inputStream := { rest := [1, 2] } } := hrun
  refine ⟨by decide, ?_, message, hrun⟩
  rw [hrun]
  intro hreads
  rw [ReadsFully, if_pos (by decide)] at hreads
  obtain ⟨turn, hok⟩ := hreads
  cases hok

/-- What the byte lists of the other readers stand for: filling a whole buffer from a chunked stream returns the
bytes that `readFully` takes off a list, and leaves the same ones. -/
theorem readFully_refines (choose : Nat → Nat) (s : Reading) : match readFully s.buffer.length s.inputStream.rest with
    | .ok bytes rest => ∃ turn, readFullyBounded choose s.buffer.length 0 s.buffer.length s
        = .ok () { buffer := bytes, inputStream := { rest := rest, turn := turn } }
    | .error _ rest => ∃ message buffer turn, readFullyBounded choose s.buffer.length 0 s.buffer.length s
        = .error (.thrown .eofException message) { buffer := buffer, inputStream := { rest := rest, turn := turn } } := by
  have hreads := readFullyBounded_start choose s le_rfl
  unfold ReadsFully at hreads
  by_cases hempty : s.buffer.length = 0
  · have hnil : s.buffer = [] := length_eq_zero_iff.mp hempty
    rw [if_pos (by omega), hnil, length_nil, drop_zero] at hreads
    rw [readFully, if_pos (by omega), hnil]
    exact hreads
  · rw [readFully, if_neg (by omega), if_neg (by omega)]
    by_cases henough : s.buffer.length ≤ s.inputStream.rest.length
    · have hall : (s.inputStream.rest.take s.buffer.length).length = s.buffer.length := length_take_of_le henough
      rw [if_pos henough, overwrite_front, hall, drop_length, append_nil] at hreads
      rw [if_pos (by omega), Int.toNat_natCast]
      exact hreads
    · rw [if_neg henough] at hreads
      rw [if_neg (by omega)]
      obtain ⟨turn, message, hrun⟩ := hreads
      exact ⟨message, _, turn, hrun⟩

end ActiveMQCpp.Decaf.DataInputStream
