import ActiveMQCpp.DecafDataCodec

/-! The streams that a message body is written to and read from. A body is written through a
`DataOutputStream` into a `ByteArrayOutputStream`, with a `DeflaterOutputStream` between the two when
the connection uses compression. The deflater and the inflater are a parameter. -/

namespace ActiveMQCpp.Commands

open Codec MachineInt Decaf List

/-! ### The byte array stream -/

/-- `ByteArrayOutputStream`: the bytes below `count` and the size of the array that holds them. -/
structure ByteArrayOutputStream where
  bytes : List UInt8 := []
  bufferSize : Nat := 32
  deriving DecidableEq

namespace ByteArrayOutputStream

variable {count size needed : Nat} {s : ByteArrayOutputStream}
variable {s' : ByteArrayOutputStream}

/-- `checkExpandSize`. The sizes are `int`s; `new` throws for a negative size. -/
def checkExpandSize (needed : Nat) : EStateM Failure ByteArrayOutputStream Unit := do
  let s ← get
  let wanted := toInt32 (s.bytes.length + needed)
  if wanted ≤ s.bufferSize then pure ()
  else
    let newSize := toInt32 (wanted * 2)
    if newSize < 0 then throw (.thrown .ioException "caught unknown exception")
    else set { s with bufferSize := newSize.toNat }

/-- `doWriteArrayBounded` and, for a single byte, `doWriteByte`. The bytes are copied behind `count`
without a second look at the size of the array. -/
def write (array : List UInt8) : EStateM Failure ByteArrayOutputStream Unit := do
  if array = [] then pure ()
  else
    checkExpandSize array.length
    let s ← get
    if s.bufferSize < s.bytes.length + array.length then throw .undefined
    else set { s with bytes := s.bytes ++ array }

/-- The count and the size of the array after a write of `needed` bytes, if there is room for them: an
array that is too small is replaced by one of twice the size needed, which has to be an `int`. -/
def expand (s : Nat × Nat) (needed : Nat) : Option (Nat × Nat) :=
  if s.1 + needed ≤ s.2 then some (s.1 + needed, s.2)
  else if s.1 + needed < 1073741824 then some (s.1 + needed, (s.1 + needed) * 2)
  else none

/-- The array can be made large enough for writes of these sizes, one after the other. -/
def Fits (sizes : List Nat) : Prop := (sizes.foldlM expand (0, 32)).isSome = true

instance (sizes : List Nat) : Decidable (Fits sizes) := inferInstanceAs (Decidable (_ = true))

def Ok (s : ByteArrayOutputStream) : Prop := s.bytes.length ≤ s.bufferSize

theorem expand_of_room (h : count + needed ≤ size) : expand (count, size) needed = some (count + needed, size) := by
  rw [expand, if_pos h]

theorem expand_of_small (h : ¬ count + needed ≤ size) (hsmall : count + needed < 1073741824) :
    expand (count, size) needed = some (count + needed, (count + needed) * 2) := by
  rw [expand, if_neg h, if_pos hsmall]

theorem expand_of_large (h : ¬ count + needed ≤ size)
    (hlarge : ¬ count + needed < 1073741824) : expand (count, size) needed = none := by
  rw [expand, if_neg h, if_neg hlarge]

/-- Where the array is too small, `checkExpandSize` makes it large enough or the copy overruns it. -/
theorem checkExpandSize_cases (hroom : ¬ s.bytes.length + needed ≤ s.bufferSize) :
    (s.bytes.length + needed < 1073741824 ∧
      checkExpandSize needed s = .ok () { s with bufferSize := (s.bytes.length + needed) * 2 }) ∨
    (¬ s.bytes.length + needed < 1073741824 ∧
      ((∃ e, checkExpandSize needed s = .error e s) ∨
        ∃ size, size < s.bytes.length + needed ∧ checkExpandSize needed s = .ok () { s with bufferSize := size })) := by
  obtain ⟨bytes, bufferSize⟩ := s
  simp only at hroom ⊢
  rw [checkExpandSize, bind_run, get_run]
  simp only
  rw [show (bytes.length : Int) + (needed : Int) = ((bytes.length + needed : Nat) : Int) by push_cast; rfl]
  generalize bytes.length + needed = n at hroom ⊢
  by_cases hlow : toInt32 n ≤ bufferSize
  · refine Or.inr ⟨by unfold toInt32 at hlow; omega, Or.inr ⟨bufferSize, by omega, ?_⟩⟩
    rw [if_pos hlow, pure_run]
  · rw [if_neg hlow]
    by_cases hnew : toInt32 (toInt32 n * 2) < 0
    · refine Or.inr ⟨by unfold toInt32 at hnew; omega, Or.inl ⟨.thrown .ioException "caught unknown exception", ?_⟩⟩
      rw [if_pos hnew, throw_run]
    · rw [if_neg hnew, set_run]
      by_cases hsmall : n < 1073741824
      · refine Or.inl ⟨hsmall, ?_⟩
        rw [show (toInt32 (toInt32 n * 2)).toNat = n * 2 by unfold toInt32; omega]
      · exact Or.inr ⟨hsmall, Or.inr ⟨_, by unfold toInt32 at hnew ⊢; omega, rfl⟩⟩

theorem checkExpandSize_of_room
    (hroom : s.bytes.length + needed ≤ s.bufferSize) : checkExpandSize needed s = .ok () s := by
  have hwanted : toInt32 (s.bytes.length + needed) ≤ s.bufferSize := by
    unfold toInt32
    omega
  rw [checkExpandSize, bind_run, get_run]
  simp only
  rw [if_pos hwanted, pure_run]

theorem write_eq_ok {array : List UInt8} (hs : s.Ok) : write array s = .ok () s' ↔
      ∃ size, expand (s.bytes.length, s.bufferSize) array.length = some (s.bytes.length + array.length, size) ∧
        s' = ⟨s.bytes ++ array, size⟩ := by
  by_cases hnil : array = []
  · subst hnil
    rw [write, if_pos rfl, pure_run, length_nil, expand_of_room (by rw [Nat.add_zero]; exact hs),
      append_nil]
    constructor
    · intro h
      cases h
      exact ⟨s.bufferSize, rfl, rfl⟩
    · rintro ⟨size, hsize, rfl⟩
      cases hsize
      rfl
  · rw [write, if_neg hnil]
    by_cases hroom : s.bytes.length + array.length ≤ s.bufferSize
    · have hcheck : checkExpandSize array.length s = .ok () s := checkExpandSize_of_room hroom
      rw [bind_ok hcheck, bind_ok (get_run _), expand_of_room hroom, if_neg (by omega), set_run]
      constructor
      · intro h
        cases h
        exact ⟨s.bufferSize, rfl, rfl⟩
      · rintro ⟨size, hsize, rfl⟩
        cases hsize
        rfl
    · rcases checkExpandSize_cases hroom with ⟨hsmall, hcheck⟩ | ⟨hlarge, ⟨e, hcheck⟩ | ⟨size, hsize, hcheck⟩⟩
      · rw [bind_ok hcheck, bind_ok (get_run _), expand_of_small hroom hsmall]
        simp only
        rw [if_neg (by omega), set_run]
        constructor
        · intro h
          cases h
          exact ⟨_, rfl, rfl⟩
        · rintro ⟨size, hsize, rfl⟩
          cases hsize
          rfl
      · rw [bind_error hcheck, expand_of_large hroom hlarge]
        constructor
        · intro h
          cases h
        · rintro ⟨size, hsize, -⟩
          cases hsize
      · rw [bind_ok hcheck, bind_ok (get_run _), expand_of_large hroom hlarge]
        simp only
        rw [if_pos hsize, throw_run]
        constructor
        · intro h
          cases h
        · rintro ⟨size, hsize, -⟩
          cases hsize

theorem expand_le {p q : Nat × Nat} (h : expand p needed = some q) : q.1 ≤ q.2 := by
  unfold expand at h
  split_ifs at h with hroom hsmall
  · cases h
    exact hroom
  · cases h
    omega

theorem forM_write_eq_ok {arrays : List (List UInt8)} (hs : s.Ok) : arrays.forM write s = .ok () s' ↔
      ∃ p, (arrays.map List.length).foldlM expand (s.bytes.length, s.bufferSize) = some p ∧
        s' = ⟨s.bytes ++ arrays.flatten, p.2⟩ := by
  induction arrays generalizing s with
  | nil =>
    constructor
    · intro h
      cases h
      exact ⟨_, rfl, by simp⟩
    · rintro ⟨p, hp, rfl⟩
      cases hp
      simp only [flatten_nil, append_nil]
      rfl
  | cons array arrays ih =>
    rw [forM_cons_eq_ok]
    simp only [map_cons, foldlM_cons]
    constructor
    · rintro ⟨t, hwrite, hrest⟩
      obtain ⟨size, hexpand, rfl⟩ := (write_eq_ok hs).mp hwrite
      obtain ⟨p, hp, rfl⟩ := (ih (by simpa [Ok] using expand_le hexpand)).mp hrest
      refine ⟨p, ?_, by simp⟩
      rw [hexpand]
      simpa using hp
    · rintro ⟨p, hp, rfl⟩
      cases hexpand : expand (s.bytes.length, s.bufferSize) array.length with
      | none =>
        rw [hexpand] at hp
        cases hp
      | some q =>
        rw [hexpand] at hp
        have hcount : q.1 = s.bytes.length + array.length := by
          unfold expand at hexpand
          split_ifs at hexpand <;> cases hexpand <;> rfl
        obtain ⟨count, size⟩ := q
        subst hcount
        refine ⟨⟨s.bytes ++ array, size⟩, (write_eq_ok hs).mpr ⟨size, hexpand, rfl⟩, ?_⟩
        refine (ih (by simpa [Ok] using expand_le hexpand)).mpr ⟨p, ?_, by simp⟩
        simpa using hp

theorem fits_iff {sizes : List Nat} : Fits sizes ↔ ∃ p, sizes.foldlM expand (0, 32) = some p := by
  rw [Fits, Option.isSome_iff_exists]

end ByteArrayOutputStream

/-! ### Compression -/

/-- The deflater behind a `DeflaterOutputStream` and the inflater that undoes it. A deflater hands on
what it has compressed in pieces, some of them while it is written to and the rest when it is closed. -/
structure Zip where
  Deflater : Type
  start : Deflater
  deflate : Deflater → List UInt8 → Deflater × List (List UInt8)
  finish : Deflater → List (List UInt8)
  inflate : List UInt8 → Option (List UInt8)

namespace Zip

variable (Z : Zip)

/-- Arrays written one after the other, each but the empty ones handed to the deflater. -/
def deflateAll (d : Z.Deflater) : List (List UInt8) → Z.Deflater × List (List UInt8)
  | [] => (d, [])
  | array :: arrays =>
    if array = [] then deflateAll d arrays
    else
      let step := Z.deflate d array
      let rest := deflateAll step.1 arrays
      (rest.1, step.2 ++ rest.2)

/-- Everything that reaches the stream below a deflater that is written to and closed. -/
def pieces (arrays : List (List UInt8)) : List (List UInt8) :=
  (Z.deflateAll Z.start arrays).2 ++ Z.finish (Z.deflateAll Z.start arrays).1

/-- What the deflater makes of the written arrays is inflated to their concatenation. -/
def Lossless : Prop := ∀ arrays, Z.inflate (Z.pieces arrays).flatten = some arrays.flatten

/-- The first byte written makes the deflater hand on something: `zlib` starts with its header. -/
def Prompt : Prop := ∀ array, array ≠ [] → (Z.deflate Z.start array).2.flatten ≠ []

theorem deflateAll_append (d : Z.Deflater) (xs ys : List (List UInt8)) : Z.deflateAll d (xs ++ ys)
      = ((Z.deflateAll (Z.deflateAll d xs).1 ys).1,
          (Z.deflateAll d xs).2 ++ (Z.deflateAll (Z.deflateAll d xs).1 ys).2) := by
  induction xs generalizing d with
  | nil => rfl
  | cons array xs ih =>
    by_cases hnil : array = []
    · simp only [cons_append, deflateAll, if_pos hnil, ih]
    · simp only [cons_append, deflateAll, if_neg hnil, ih, append_assoc]

def storing : Zip where
  Deflater := Unit
  start := ()
  deflate _ array := ((), [array])
  finish _ := []
  inflate := some

theorem storing_lossless : storing.Lossless := by
  have hall : ∀ (arrays : List (List UInt8)) (d : storing.Deflater),
      (storing.deflateAll d arrays).2.flatten = arrays.flatten := by
    intro arrays
    induction arrays with
    | nil => exact fun d => rfl
    | cons array arrays ih =>
      intro d
      by_cases hnil : array = []
      · simp only [deflateAll, hnil, if_true, ih, flatten_cons, nil_append]
      · simp only [deflateAll, if_neg hnil, flatten_append, ih, flatten_cons]
        simp [storing]
  intro arrays
  show some ((storing.deflateAll storing.start arrays).2 ++ []).flatten = _
  rw [append_nil, hall]

theorem storing_prompt : storing.Prompt := by
  intro array harray
  simpa [storing] using harray

end Zip

/-! ### The stream a body is written to -/

/-- The `ByteArrayOutputStream` of a message and the deflater in front of it, if there is one. -/
structure BodyOut (Z : Zip) where
  deflater : Option Z.Deflater
  bytesOut : ByteArrayOutputStream := {}

namespace BodyOut

variable {Z : Zip}
variable {out out' : BodyOut Z} {arrays : List (List UInt8)} {compression : Bool}

def onBytesOut (m : EStateM Failure ByteArrayOutputStream Unit) : EStateM Failure (BodyOut Z) Unit := fun out =>
  match m out.bytesOut with
  | .ok _ s => .ok () { out with bytesOut := s }
  | .error e s => .error e { out with bytesOut := s }

def write (array : List UInt8) : EStateM Failure (BodyOut Z) Unit := do
  let out ← get
  if array = [] then pure ()
  else
    match out.deflater with
    | none => onBytesOut (ByteArrayOutputStream.write array)
    | some d =>
      set { out with deflater := some (Z.deflate d array).1 }
      onBytesOut ((Z.deflate d array).2.forM ByteArrayOutputStream.write)

/-- `close` of the streams in front of the `ByteArrayOutputStream`. -/
def close : EStateM Failure (BodyOut Z) Unit := do
  let out ← get
  match out.deflater with
  | none => pure ()
  | some d => onBytesOut ((Z.finish d).forM ByteArrayOutputStream.write)

def call (m : DataOut Unit) : EStateM Failure (BodyOut Z) Unit := fun out =>
  match m [] with
  | .ok _ bytes => write bytes out
  | .error e _ => .error e out

def fresh (compression : Bool) : BodyOut Z := { deflater := if compression then some Z.start else none }

/-- What written arrays become on their way to the `ByteArrayOutputStream`. -/
def handOn : Option Z.Deflater → List (List UInt8) → Option Z.Deflater × List (List UInt8)
  | none, arrays => (none, arrays)
  | some d, arrays => (some (Z.deflateAll d arrays).1, (Z.deflateAll d arrays).2)

/-- The arrays that the `ByteArrayOutputStream` has received once the stream is closed. -/
def received (Z : Zip) (compression : Bool) (arrays : List (List UInt8)) : List (List UInt8) :=
  if compression then Z.pieces arrays else arrays

theorem onBytesOut_eq_ok {m : EStateM Failure ByteArrayOutputStream Unit} : onBytesOut m out = .ok () out' ↔
      ∃ s, m out.bytesOut = .ok () s ∧ out' = { out with bytesOut := s } := by
  unfold onBytesOut
  cases m out.bytesOut with
  | ok u s =>
    constructor
    · intro h
      cases h
      exact ⟨s, rfl, rfl⟩
    · rintro ⟨t, ht, rfl⟩
      cases ht
      rfl
  | error e s =>
    constructor
    · intro h
      cases h
    · rintro ⟨t, ht, -⟩
      cases ht

theorem write_eq_ok {array : List UInt8} : write array out = .ok () out' ↔
      ∃ s, (handOn out.deflater [array]).2.forM ByteArrayOutputStream.write out.bytesOut = .ok () s ∧
        out' = ⟨(handOn out.deflater [array]).1, s⟩ := by
  obtain ⟨deflater, bytesOut⟩ := out
  rw [write, bind_ok (get_run _)]
  cases deflater with
  | none =>
    have hone : ∀ s, [array].forM ByteArrayOutputStream.write bytesOut = .ok () s ↔
        ByteArrayOutputStream.write array bytesOut = .ok () s := by
      intro s
      rw [forM_cons_eq_ok]
      constructor
      · rintro ⟨t, ht, hs⟩
        cases hs
        exact ht
      · intro h
        exact ⟨s, h, rfl⟩
    simp only [handOn, hone]
    by_cases hnil : array = []
    · rw [if_pos hnil, hnil, ByteArrayOutputStream.write, if_pos rfl, pure_run, pure_run]
      constructor
      · intro h
        cases h
        exact ⟨bytesOut, rfl, rfl⟩
      · rintro ⟨s, hs, rfl⟩
        cases hs
        rfl
    · rw [if_neg hnil, onBytesOut_eq_ok]
  | some d =>
    by_cases hnil : array = []
    · rw [if_pos hnil, hnil, pure_run]
      simp only [handOn, Zip.deflateAll, if_true]
      constructor
      · intro h
        cases h
        exact ⟨bytesOut, rfl, rfl⟩
      · rintro ⟨s, hs, rfl⟩
        cases hs
        rfl
    · rw [if_neg hnil]
      simp only [handOn, Zip.deflateAll, if_neg hnil, append_nil]
      rw [bind_ok (set_run _ _), onBytesOut_eq_ok]

theorem handOn_cons (deflater : Option Z.Deflater) (array : List UInt8) (arrays : List (List UInt8)) :
    handOn deflater (array :: arrays)
      = ((handOn (handOn deflater [array]).1 arrays).1,
          (handOn deflater [array]).2 ++ (handOn (handOn deflater [array]).1 arrays).2) := by
  cases deflater with
  | none => rfl
  | some d =>
    simp only [handOn]
    rw [show array :: arrays = [array] ++ arrays from rfl, Zip.deflateAll_append]

theorem forM_write_eq_ok : arrays.forM write out = .ok () out' ↔
      ∃ s, (handOn out.deflater arrays).2.forM ByteArrayOutputStream.write out.bytesOut = .ok () s ∧
        out' = ⟨(handOn out.deflater arrays).1, s⟩ := by
  induction arrays generalizing out with
  | nil =>
    have hnil : handOn out.deflater [] = (out.deflater, []) := by
      cases out.deflater <;> rfl
    rw [hnil]
    constructor
    · intro h
      cases h
      exact ⟨_, rfl, rfl⟩
    · rintro ⟨s, hs, rfl⟩
      cases hs
      rfl
  | cons array arrays ih =>
    rw [forM_cons_eq_ok, handOn_cons]
    simp only [forM_append_eq_ok]
    constructor
    · rintro ⟨t, hwrite, hrest⟩
      obtain ⟨s, hs, rfl⟩ := write_eq_ok.mp hwrite
      obtain ⟨s', hs', rfl⟩ := ih.mp hrest
      exact ⟨s', ⟨s, hs, hs'⟩, rfl⟩
    · rintro ⟨s', ⟨s, hs, hs'⟩, rfl⟩
      exact ⟨_, write_eq_ok.mpr ⟨s, hs, rfl⟩, ih.mpr ⟨s', hs', rfl⟩⟩

/-- Arrays written to a fresh stream that is then closed: the calls return exactly when the byte array
can be made large enough, and then it holds everything that was handed on. -/
theorem write_close_iff {compression : Bool} {arrays : List (List UInt8)} {bytes : List UInt8} :
    (∃ out out' : BodyOut Z, arrays.forM write (fresh compression) = .ok () out ∧ close out = .ok () out' ∧
        out'.bytesOut.bytes = bytes) ↔
      ByteArrayOutputStream.Fits ((received Z compression arrays).map List.length) ∧
        bytes = (received Z compression arrays).flatten := by
  have hok : ByteArrayOutputStream.Ok {} := Nat.zero_le _
  have hreceive : (∃ s, (received Z compression arrays).forM ByteArrayOutputStream.write {} = .ok () s ∧
      s.bytes = bytes) ↔ ByteArrayOutputStream.Fits ((received Z compression arrays).map List.length) ∧
        bytes = (received Z compression arrays).flatten := by
    simp only [ByteArrayOutputStream.forM_write_eq_ok hok, ByteArrayOutputStream.fits_iff]
    constructor
    · rintro ⟨s, ⟨p, hp, rfl⟩, rfl⟩
      exact ⟨⟨p, hp⟩, rfl⟩
    · rintro ⟨⟨p, hp⟩, rfl⟩
      exact ⟨_, ⟨p, hp, rfl⟩, rfl⟩
  rw [← hreceive]
  cases compression with
  | false =>
    constructor
    · rintro ⟨out, out', hwrite, hclose, rfl⟩
      obtain ⟨s, hs, rfl⟩ := forM_write_eq_ok.mp hwrite
      cases hclose
      exact ⟨s, hs, rfl⟩
    · rintro ⟨s, hs, rfl⟩
      exact ⟨_, _, forM_write_eq_ok.mpr ⟨s, hs, rfl⟩, rfl, rfl⟩
  | true =>
    simp only [received, if_true, Zip.pieces, forM_append_eq_ok]
    constructor
    · rintro ⟨out, out', hwrite, hclose, rfl⟩
      obtain ⟨s, hs, rfl⟩ := forM_write_eq_ok.mp hwrite
      obtain ⟨s', hs', rfl⟩ := onBytesOut_eq_ok.mp hclose
      exact ⟨s', ⟨s, hs, hs'⟩, rfl⟩
    · rintro ⟨s', ⟨s, hs, hs'⟩, rfl⟩
      exact ⟨_, _, forM_write_eq_ok.mpr ⟨s, hs, rfl⟩, onBytesOut_eq_ok.mpr ⟨s', hs', rfl⟩, rfl⟩

theorem bytes_of_forM_write (h : arrays.forM write (fresh compression) = .ok () out) :
    out.deflater = (handOn (fresh compression : BodyOut Z).deflater arrays).1 ∧
      out.bytesOut.bytes = (handOn (fresh compression : BodyOut Z).deflater arrays).2.flatten := by
  have hok : ByteArrayOutputStream.Ok {} := Nat.zero_le _
  obtain ⟨s, hs, rfl⟩ := forM_write_eq_ok.mp h
  obtain ⟨p, -, rfl⟩ := (ByteArrayOutputStream.forM_write_eq_ok hok).mp hs
  exact ⟨rfl, rfl⟩

theorem handOn_ne_nil (hZ : Z.Prompt) (compression : Bool) (hne : arrays ≠ [])
    (harrays : ∀ array ∈ arrays, array ≠ []) :
    (handOn (fresh compression : BodyOut Z).deflater arrays).2.flatten ≠ [] := by
  obtain ⟨array, rest, rfl⟩ := exists_cons_of_ne_nil hne
  have harray := harrays array mem_cons_self
  cases compression with
  | false =>
    show (array :: rest).flatten ≠ []
    rw [flatten_cons]
    exact fun h => harray (append_eq_nil_iff.mp h).1
  | true =>
    show (Z.deflateAll Z.start (array :: rest)).2.flatten ≠ []
    rw [Zip.deflateAll, if_neg harray, flatten_append]
    exact fun h => hZ array harray (append_eq_nil_iff.mp h).1

theorem received_ne_nil (hZ : Z.Prompt) (compression : Bool) (hne : arrays ≠ [])
    (harrays : ∀ array ∈ arrays, array ≠ []) : (received Z compression arrays).flatten ≠ [] := by
  have hhanded := handOn_ne_nil hZ compression hne harrays
  cases compression with
  | false => exact hhanded
  | true =>
    show ((Z.deflateAll Z.start arrays).2 ++ Z.finish (Z.deflateAll Z.start arrays).1).flatten ≠ []
    rw [flatten_append]
    exact fun h => hhanded (append_eq_nil_iff.mp h).1

/-- What is received can be turned back into what was written. -/
def restore (Z : Zip) (compression : Bool) (bytes : List UInt8) : Option (List UInt8) :=
  if compression then Z.inflate bytes else some bytes

theorem restore_received (hZ : Z.Lossless) (compression : Bool) (arrays : List (List UInt8)) :
    restore Z compression (received Z compression arrays).flatten = some arrays.flatten := by
  cases compression with
  | false => rfl
  | true => exact hZ arrays

def Pushes (Z : Zip) (compression : Bool) (arrays : List (List UInt8)) : Prop :=
  ∃ out : BodyOut Z, arrays.forM write (fresh compression) = .ok () out

def Stores (Z : Zip) (compression : Bool) (arrays : List (List UInt8)) : Prop :=
  ∃ out out' : BodyOut Z, arrays.forM write (fresh compression) = .ok () out ∧ close out = .ok () out'

theorem Pushes.of_append {xs ys : List (List UInt8)} (h : Pushes Z compression (xs ++ ys)) :
    Pushes Z compression xs := by
  obtain ⟨out, hout⟩ := h
  obtain ⟨mid, hmid, -⟩ := forM_append_eq_ok.mp hout
  exact ⟨mid, hmid⟩

theorem Stores.pushes (h : Stores Z compression arrays) : Pushes Z compression arrays := by
  obtain ⟨out, -, hout, -⟩ := h
  exact ⟨out, hout⟩

theorem bytes_of_close (h : arrays.forM write (fresh compression) = .ok () out) (hclose : close out = .ok () out') :
    out'.bytesOut.bytes = (received Z compression arrays).flatten :=
  (write_close_iff.mp ⟨out, out', h, hclose, rfl⟩).2

theorem call_of_emits {m : DataOut Unit} {bytes : List UInt8} (h : Emits m () bytes) :
    (call m : EStateM Failure (BodyOut Z) Unit) = write bytes := by
  funext out
  rw [call, h []]
  rfl

end BodyOut

/-! ### What all messages have -/

structure Connection where
  useCompression : Bool

/-- The fields of `Message` that its body depends on. -/
structure Message where
  content : ByteString := []
  compressed : Bool := false
  readOnlyBody : Bool := false
  connection : Option Connection := none

namespace Message

/-- `this->connection != NULL && this->connection->isUseCompression()`. -/
def usesCompression (m : Message) : Bool := m.connection.any Connection.useCompression

def notReadable : Failure :=
  .thrown (.cms .messageNotReadableException) "message is in write-only mode and cannot be read from"

def notWriteable : Failure := .thrown (.cms .messageNotWriteableException) "Message Body is Read-Only."

end Message

end ActiveMQCpp.Commands
