import ActiveMQCpp.CommandsBytesMessage
import ActiveMQCpp.CommandsStreamRoundTrip

/-! `writeBytes` of a part of an array, to a stream message and to a bytes message. Both pass the length for the
size of the array, so that the bounds of the part are checked against the wrong array. -/

namespace ActiveMQCpp.Commands

open Codec Bytes MachineInt Decaf Wire BytesMessage DataOutputStream StreamMessage

/-- The call does what the writes of `record` do; where these cannot be completed it throws, and leaves a message of
which `unchanged` holds. -/
def Commits {σ : Type} (unchanged : σ → Prop) (record call : EStateM.Result Failure σ Unit) : Prop :=
  match record with
  | .ok _ s => call = .ok () s
  | .error _ _ => ∃ type message s, call = .error (.thrown type message) s ∧ unchanged s

def Spares {σ : Type} (w : EStateM Failure σ Unit) (s : σ) : Prop :=
  ∃ type message, w s = .error (.thrown type message) s

def part (value : ByteString) (offset length : Nat) : ByteString := (value.drop offset).take length

/-- The bounds of the part hold of an array of its length only if the part starts at 0 or is empty. -/
theorem write_part_cases {value : ByteString} {offset length : Nat} (h : offset + length ≤ value.length) :
    ((offset = 0 ∨ length = 0) ∧ Emits (write value length offset length) () (part value offset length)) ∨
    (¬ (offset = 0 ∨ length = 0) ∧ ∃ message, ∀ output, write value length offset length output
      = .error (.thrown .indexOutOfBoundsException message) output) := by
  unfold DataOutputStream.write
  by_cases hzero : length = 0
  · left
    subst hzero
    refine ⟨Or.inr rfl, ?_⟩
    rw [if_pos (by rfl), part, List.take_zero]
    exact Emits.pure ()
  rw [if_neg (by omega), if_neg (by omega)]
  by_cases hoffset : offset = 0
  · left
    subst hoffset
    refine ⟨Or.inl rfl, ?_⟩
    rw [if_neg (by omega), if_neg (by omega), if_neg (by omega), Int.toNat_natCast, Int.toNat_natCast]
    exact emits_put _
  · right
    refine ⟨by omega, ?_⟩
    by_cases hbeyond : offset > length
    · rw [if_pos (by omega)]
      exact ⟨_, fun output => rfl⟩
    · rw [if_neg (by omega), if_pos (by omega)]
      exact ⟨_, fun output => rfl⟩

theorem catchAllThrowCMSException_thrown {e : Failure} :
    (∃ type message, catchAllThrowCMSException e = .thrown type message) ↔ ∃ type message, e = .thrown type message := by
  cases e with
  | undefined =>
    constructor
    · rintro ⟨type, message, h⟩
      cases h
    · rintro ⟨type, message, h⟩
      cases h
  | thrown type message =>
    refine iff_of_true ?_ ⟨type, message, rfl⟩
    cases type <;> exact ⟨_, _, rfl⟩

/-! ### A stream message -/

namespace StreamMessage

variable {Z : Zip} {value : ByteString} {offset length : Nat} {m : StreamMessage Z} {out : BodyOut Z}

/-- The type of the record, the number of its bytes, and the bytes. -/
def partArrays (value : ByteString) (offset length : Nat) : List (List UInt8) :=
  [[PrimitiveType.byteArray.toByte], bytesBE (BitVec.ofInt 32 length) 4, part value offset length]

def withPart (value : ByteString) (offset length : Nat) : M Z Unit :=
  writing ((partArrays value offset length).forM BodyOut.write)

/-- The writes of `writeBytesAt` on the stream. -/
def partProgram (value : ByteString) (offset length : Nat) : EStateM Failure (BodyOut Z) Unit := do
  BodyOut.call (DataOutputStream.writeByte PrimitiveType.byteArray.toByte)
  BodyOut.call (DataOutputStream.writeInt (BitVec.ofInt 32 length))
  BodyOut.call (DataOutputStream.write value length offset length)

theorem openedOut_openedOut (out : BodyOut Z) :
    ({ m.openedOut with dataOut := some out } : StreamMessage Z).openedOut = { m.openedOut with dataOut := some out } :=
  openedOut_of_some rfl

theorem writing_run (w : EStateM Failure (BodyOut Z) Unit) (hm : m.readOnlyBody = false)
    (hout : m.openedOut.dataOut = some out) : writing w m = match w out with
      | .ok _ out' => .ok () { m.openedOut with dataOut := some out' }
      | .error e out' => .error (catchAllThrowCMSException e) { m.openedOut with dataOut := some out' } := by
  cases hw : w out with
  | ok u out' =>
    rw [writing, bind_ok (initializeWriting_run hm), onDataOut, hout]
    simp only [hw]
  | error e out' =>
    rw [writing, bind_ok (initializeWriting_run hm), onDataOut, hout]
    simp only [hw]

theorem commits_writing_iff (w w' : EStateM Failure (BodyOut Z) Unit) (hm : m.readOnlyBody = false)
    (hout : m.openedOut.dataOut = some out) :
    Commits (fun m' => m'.openedOut = m.openedOut) (writing w m) (writing w' m) ↔
      (∃ out', w out = .ok () out' ∧ w' out = .ok () out') ∨ ((∀ out', w out ≠ .ok () out') ∧ Spares w' out) := by
  have hsame : ∀ out', ({ m.openedOut with dataOut := some out' } : StreamMessage Z) = m.openedOut ↔ out' = out := by
    intro out'
    constructor
    · intro h
      have hdata := congrArg dataOut h
      exact Option.some.inj (hdata.trans hout)
    · rintro rfl
      rw [← hout]
  rw [writing_run w hm hout, writing_run w' hm hout]
  cases hw : w out with
  | ok u out₁ =>
    cases hw' : w' out with
    | ok u' out₂ =>
      constructor
      · intro h
        injection h with _ hstate
        have hdata := congrArg dataOut hstate
        exact Or.inl ⟨out₁, rfl, congrArg (EStateM.Result.ok ()) (Option.some.inj hdata)⟩
      · rintro (⟨out', h₁, h₂⟩ | ⟨hnone, -⟩)
        · cases h₁
          cases h₂
          rfl
        · exact absurd rfl (hnone out₁)
    | error e out₂ =>
      constructor
      · intro h
        cases h
      · rintro (⟨out', -, h₂⟩ | ⟨hnone, -⟩)
        · cases h₂
        · exact absurd rfl (hnone out₁)
  | error e out₁ =>
    cases hw' : w' out with
    | ok u' out₂ =>
      constructor
      · rintro ⟨type, message, s, h, -⟩
        cases h
      · rintro (⟨out', h₁, -⟩ | ⟨-, type, message, h⟩)
        · cases h₁
        · rw [hw'] at h
          cases h
    | error e' out₂ =>
      constructor
      · rintro ⟨type, message, s, h, hs⟩
        injection h with he hstate
        obtain ⟨type', message', rfl⟩ := catchAllThrowCMSException_thrown.mp ⟨type, message, he⟩
        subst hstate
        rw [openedOut_openedOut, hsame] at hs
        subst hs
        exact Or.inr ⟨fun out' h => (by cases h), type', message', hw'⟩
      · rintro (⟨out', h₁, -⟩ | ⟨-, type, message, h⟩)
        · cases h₁
        · rw [hw'] at h
          injection h with he hstate
          obtain ⟨type', message', hcatch⟩ := catchAllThrowCMSException_thrown.mpr ⟨type, message, he⟩
          refine ⟨type', message', { m.openedOut with dataOut := some out₂ },
            congrArg (fun e => EStateM.Result.error e _) hcatch, ?_⟩
          exact (openedOut_openedOut out₂).trans ((hsame out₂).mpr hstate)

theorem partProgram_eq (hargs : Emits (write value length offset length) () (part value offset length)) :
    (partProgram value offset length : EStateM Failure (BodyOut Z) Unit)
      = (partArrays value offset length).forM BodyOut.write := by
  rw [partProgram, BodyOut.call_of_emits (emits_writeByte _),
    BodyOut.call_of_emits (emits_writeInt _), BodyOut.call_of_emits hargs, BodyOut.write_write_write]
  rfl

theorem partProgram_ne_ok {message : String} (hargs : ∀ output, write value length offset length output
      = .error (.thrown .indexOutOfBoundsException message) output) (out out' : BodyOut Z) :
    partProgram value offset length out ≠ .ok () out' := by
  intro h
  unfold partProgram at h
  obtain ⟨-, out₁, -, h⟩ := bind_eq_ok.mp h
  obtain ⟨-, out₂, -, h⟩ := bind_eq_ok.mp h
  rw [BodyOut.call, hargs []] at h
  cases h

theorem writeBytesAt_commits_iff (hpart : offset + length ≤ value.length) :
    Commits (fun m' => m'.openedOut = m.openedOut) (withPart value offset length m) (writeBytesAt value offset length m) ↔
      m.readOnlyBody = true ∨ ∃ out, m.openedOut.dataOut = some out ∧
        ((offset = 0 ∨ length = 0) ∧ (∃ out', (partArrays value offset length).forM BodyOut.write out = .ok () out') ∨
          (∀ out', (partArrays value offset length).forM BodyOut.write out ≠ .ok () out') ∧
            Spares (partProgram value offset length) out) := by
  cases hm : m.readOnlyBody with
  | true =>
    have hrefused : ∀ w, writing w m = .error Message.notWriteable m := by
      intro w
      have hinit : initializeWriting m = .error Message.notWriteable m := by
        rw [initializeWriting, bind_ok (get_run _), if_pos hm]
        rfl
      rw [writing, bind_error hinit]
    rw [withPart, writeBytesAt, hrefused, hrefused]
    exact iff_of_true ⟨_, _, m, rfl, rfl⟩ (Or.inl rfl)
  | false =>
    obtain ⟨out, hout⟩ := exists_dataOut_openedOut m
    have hcall : writeBytesAt value offset length m = writing (partProgram value offset length) m := rfl
    rw [withPart, hcall, commits_writing_iff _ _ hm hout]
    simp only [Bool.false_eq_true, false_or, hout, Option.some.injEq, exists_eq_left']
    rcases write_part_cases hpart with ⟨hok, hargs⟩ | ⟨hbad, message, hargs⟩
    · rw [partProgram_eq hargs]
      simp only [hok, true_and, and_self]
    · simp only [hbad, false_and, false_or]
      constructor
      · rintro (⟨out', -, h⟩ | h)
        · exact absurd h (partProgram_ne_ok hargs out out')
        · exact h
      · exact Or.inr

end StreamMessage

/-! ### A bytes message -/

namespace BytesMessage

variable {Z : Zip} {value : ByteString} {offset length : Nat} {m : BytesMessage Z}

def openedOut (m : BytesMessage Z) : BytesMessage Z :=
  match m.dataOut with
  | some _ => m
  | none =>
    { m with
      length := 0
      compressed := m.compressed || m.usesCompression
      dataOut := some (BodyOut.fresh m.usesCompression) }

theorem initializeWriting_run (h : m.readOnlyBody = false) : initializeWriting m = .ok () m.openedOut := by
  rw [initializeWriting, bind_ok (get_run _), if_neg (by rw [h]; exact Bool.false_ne_true), openedOut]
  cases hout : m.dataOut with
  | none => rfl
  | some out => rfl

theorem openedOut_openedOut : m.openedOut.openedOut = m.openedOut := by
  cases hout : m.dataOut with
  | none => simp only [openedOut, hout]
  | some out => simp only [openedOut, hout]

def withPart (value : ByteString) (offset length : Nat) : M Z Unit := do
  initializeWriting
  mapError catchAllThrowCMSException (hand (part value offset length))

theorem write_bytesAt_run (hm : m.readOnlyBody = false) : write (.bytesAt value offset length) m
      = mapError catchAllThrowCMSException (call (DataOutputStream.write value length offset length)) m.openedOut := by
  rw [write, bind_ok (initializeWriting_run hm), BytesWrite.program]
  have hone : ([DataOutputStream.write value length offset length].forM call : M Z Unit)
      = call (DataOutputStream.write value length offset length) >>= fun _ => pure () := rfl
  unfold mapError
  rw [hone, bind_run]
  cases call (DataOutputStream.write value length offset length) m.openedOut with
  | ok u m' => rfl
  | error e m' => rfl

theorem writeBytesAt_commits_iff (hpart : offset + length ≤ value.length) :
    Commits (fun m' => m'.openedOut = m.openedOut) (withPart value offset length m)
        (write (.bytesAt value offset length) m) ↔
      m.readOnlyBody = true ∨
        (offset = 0 ∨ length = 0) ∧ (∃ m', hand (part value offset length) m.openedOut = .ok () m') ∨
          (∀ m', hand (part value offset length) m.openedOut ≠ .ok () m') ∧
            ((offset = 0 ∨ length = 0) → ∃ type message m', hand (part value offset length) m.openedOut
              = .error (.thrown type message) m' ∧ m'.openedOut = m.openedOut) := by
  cases hm : m.readOnlyBody with
  | true =>
    have hinit : initializeWriting m = .error Message.notWriteable m := by
      rw [initializeWriting, bind_ok (get_run _), if_pos hm]
      rfl
    rw [withPart, write, bind_error hinit, bind_error hinit]
    exact iff_of_true ⟨_, _, m, rfl, rfl⟩ (Or.inl rfl)
  | false =>
    have hrecord : withPart value offset length m
        = mapError catchAllThrowCMSException (hand (part value offset length)) m.openedOut := by
      rw [withPart, bind_ok (initializeWriting_run hm)]
    rw [hrecord, write_bytesAt_run hm]
    simp only [Bool.false_eq_true, false_or]
    rcases write_part_cases hpart with ⟨hok, hargs⟩ | ⟨hbad, message, hargs⟩
    · have hcall : call (DataOutputStream.write value length offset length) m.openedOut
          = hand (part value offset length) m.openedOut := by
        rw [call, hargs []]
        rfl
      simp only [hok, true_and, true_imp_iff]
      unfold mapError
      rw [hcall]
      cases hhand : hand (part value offset length) m.openedOut with
      | ok u m' =>
        refine iff_of_true rfl (Or.inl ⟨m', rfl⟩)
      | error e m' =>
        constructor
        · rintro ⟨type, message, s, h, hs⟩
          injection h with he hstate
          obtain ⟨type', message', rfl⟩ := catchAllThrowCMSException_thrown.mp ⟨type, message, he⟩
          exact Or.inr ⟨fun m'' h => (by cases h), type', message', m', rfl, hstate ▸ hs⟩
        · rintro (⟨m'', h⟩ | ⟨-, type, message, s, h, hs⟩)
          · cases h
          · injection h with he hstate
            obtain ⟨type', message', hcatch⟩ := catchAllThrowCMSException_thrown.mpr ⟨type, message, he⟩
            exact ⟨type', message', m', congrArg (fun e => EStateM.Result.error e _) hcatch, hstate ▸ hs⟩
    · have hcall : call (DataOutputStream.write value length offset length) m.openedOut
          = .error (.thrown .indexOutOfBoundsException message) m.openedOut := by
        rw [call, hargs []]
      simp only [hbad, false_and, false_or, false_imp_iff, and_true]
      unfold mapError
      rw [hcall]
      cases hhand : hand (part value offset length) m.openedOut with
      | ok u m' =>
        constructor
        · intro h
          cases h
        · intro h
          exact absurd rfl (h m')
      | error e m' =>
        refine iff_of_true ⟨_, _, m.openedOut, rfl, openedOut_openedOut⟩ ?_
        intro m'' h
        cases h

end BytesMessage

/-! ### Both messages -/

end ActiveMQCpp.Commands
