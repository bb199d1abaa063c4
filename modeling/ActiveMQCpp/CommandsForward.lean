import ActiveMQCpp.CommandsBytesMessage
import ActiveMQCpp.CommandsStreamRoundTrip
import ActiveMQCpp.WirePrimitiveRewrite

/-! Messages that were received, perhaps read, and are sent on. Map and text messages keep the decoded form of
their body next to the content and marshal it again; bytes and stream messages send the content as it is. -/

namespace ActiveMQCpp.Commands

open Codec Bytes MachineInt Decaf Wire BodyOut Connection List

/-! ### Map messages -/

/-- `AMQ_CATCH_RETHROW(NullPointerException) AMQ_CATCH_EXCEPTION_CONVERT(Exception, NullPointerException)
AMQ_CATCHALL_THROW(NullPointerException)`. -/
def catchNullPointer : Failure → Failure
  | .thrown type message =>
    if type.isException then .thrown .nullPointerException message
    else .thrown .nullPointerException "caught unknown exception"
  | .undefined => .undefined

structure MapMessage extends Message where
  map : Option (List (ByteString × PrimitiveValueNode)) := none

namespace MapMessage

variable (Z : Zip)

abbrev M := EStateM Failure MapMessage

/-- `checkMapIsUnmarshalled`, which every read of the map begins with. -/
def checkMapIsUnmarshalled (depth : Nat) : M Unit :=
  mapError catchNullPointer fun m =>
    match m.map with
    | some _ => .ok () m
    | none =>
      if m.content = [] then .ok () { m with map := some [] }
      else
        match BodyOut.restore Z m.compressed m.content with
        | none => .error (.thrown .ioException "Error from Inflater") m
        | some input =>
          match unmarshalPrimitiveMap (unmarshalPrimitive depth) [] input with
          | .ok entries _ => .ok () { m with map := some entries }
          | .error e _ => .error e m

def clearBody (m : MapMessage) : MapMessage := { m with content := [], readOnlyBody := false, map := some [] }

def marshalTo (compression : Bool) (entries : List (ByteString × PrimitiveValueNode)) :
    EStateM.Result Failure (BodyOut Z) Unit :=
  (do BodyOut.call (marshalPrimitiveMap entries); BodyOut.close) (BodyOut.fresh compression)

/-- What is left of the message when the map has been marshalled, or when that failed. -/
def store (m : MapMessage) : EStateM.Result Failure (BodyOut Z) Unit → EStateM.Result Failure MapMessage Unit
  | .ok _ out => .ok () { m with content := out.bytesOut.bytes }
  | .error e _ => .error e m

def beforeMarshal : M Unit :=
  mapError catchExceptionConvert fun m =>
    match m.map with
    | some (entry :: entries) =>
      store Z { m with compressed := m.compressed || m.usesCompression }
        (marshalTo Z m.usesCompression (entry :: entries))
    | _ => .ok () m.clearBody

def received (connection : Option Connection) (content : ByteString) (compressed : Bool) : MapMessage :=
  { content := content, compressed := compressed, readOnlyBody := true, connection := connection }

def HasBody (content : ByteString) (compressed : Bool) (entries : List (ByteString × PrimitiveValueNode)) : Prop :=
  ∃ depth, ∀ d, depth ≤ d → ∃ m,
    checkMapIsUnmarshalled Z d (received none content compressed) = .ok () m ∧ m.map = some entries

def read (depth : Nat) : Nat → MapMessage → MapMessage
  | 0, m => m
  | reads + 1, m => read depth reads (stateOf (checkMapIsUnmarshalled Z depth m))

def bytesOf (entries : List (ByteString × PrimitiveValueNode)) : List UInt8 :=
  match marshalPrimitiveMap entries [] with
  | .ok _ bytes => bytes
  | .error _ _ => []

end MapMessage

/-! ### Text messages -/

structure TextMessage extends Message where
  text : Option ByteString := none

namespace TextMessage

variable (Z : Zip)

abbrev M := EStateM Failure TextMessage

def getText : M ByteString :=
  mapError catchAllThrowCMSException fun m =>
    match m.text with
    | some text => .ok text m
    | none =>
      if m.content.length ≤ 4 then .ok [] m
      else
        match BodyOut.restore Z m.compressed m.content with
        | none => .error (.thrown .ioException "Error from Inflater") m
        | some input =>
          match readString32 input with
          | .ok text _ => .ok text { m with text := some text }
          | .error e _ => .error e m

def marshalTo (compression : Bool) (text : ByteString) : EStateM.Result Failure (BodyOut Z) Unit :=
  (do StreamMessage.writeString32 text; BodyOut.close) (BodyOut.fresh compression)

/-- What is left of the text when it has been marshalled, or when that failed. -/
def store (m : TextMessage) : EStateM.Result Failure (BodyOut Z) Unit → EStateM.Result Failure TextMessage Unit
  | .ok _ out =>
    let content := if out.bytesOut.bytes.length > 0 then out.bytesOut.bytes else m.content
    .ok () { m with content := content, text := none }
  | .error e _ => .error e m

def beforeMarshal : M Unit := fun m =>
  match m.text with
  | none => .ok () m
  | some text =>
    store Z { m with compressed := m.compressed || m.usesCompression } (marshalTo Z m.usesCompression text)

def received (connection : Option Connection) (content : ByteString) (compressed : Bool) : TextMessage :=
  { content := content, compressed := compressed, readOnlyBody := true, connection := connection }

def HasBody (content : ByteString) (compressed : Bool) (text : ByteString) : Prop :=
  ∃ m, getText Z (received none content compressed) = .ok text m

def read : Nat → TextMessage → TextMessage
  | 0, m => m
  | reads + 1, m => read reads (stateOf (getText Z m))

end TextMessage

/-! ### What `zlib` promises beyond the round trip -/

namespace Zip

variable (Z : Zip)

/-- A stream begins with a byte whose lower half is the compression method 8. -/
def Headed : Prop := ∀ bytes out, Z.inflate bytes = some out → ∃ b rest, bytes = b :: rest ∧ b.toNat % 16 = 8

/-- A stream has a header of two bytes and a checksum of four. -/
def Framed : Prop := ∀ arrays, 6 ≤ (Z.pieces arrays).flatten.length

variable {Z}

theorem Headed.inflate_count (hZ : Z.Headed) {count : BitVec 32} (hcount : count.toNat < 134217728)
    (rest : List UInt8) : Z.inflate (bytesBE count 4 ++ rest) = none := by
  cases hinflate : Z.inflate (bytesBE count 4 ++ rest) with
  | none => rfl
  | some out =>
    obtain ⟨b, tail, hbytes, hmethod⟩ := hZ _ _ hinflate
    obtain ⟨hhead, -⟩ := List.cons.inj (show byteAt count 3 :: (bytesBE count 3 ++ rest) = b :: tail from hbytes)
    rw [← hhead, toNat_byteAt] at hmethod
    omega

/-- A deflater that only frames what it is given. -/
def framing : Zip where
  Deflater := List UInt8
  start := []
  deflate d array := (d ++ array, [])
  finish d := [[0x78, 0x9c], d, [0, 0, 0, 0]]
  inflate
    | 0x78 :: 0x9c :: rest => some (rest.take (rest.length - 4))
    | _ => none

theorem framing_pieces (arrays : List (List UInt8)) :
    (framing.pieces arrays).flatten = 0x78 :: 0x9c :: (arrays.flatten ++ [0, 0, 0, 0]) := by
  have hall : ∀ d : List UInt8, framing.deflateAll d arrays = (d ++ arrays.flatten, []) := by
    induction arrays with
    | nil => exact fun d => Prod.ext (append_nil d).symm rfl
    | cons array arrays ih =>
      intro d
      rw [flatten_cons]
      by_cases hnil : array = []
      · subst hnil
        exact ih d
      · have hstep : framing.deflateAll d (array :: arrays) =
            ((framing.deflateAll (d ++ array : List UInt8) arrays).1,
              [] ++ (framing.deflateAll (d ++ array : List UInt8) arrays).2) := if_neg hnil
        rw [hstep, ih, append_assoc, nil_append]
        rfl
  have hstart : framing.deflateAll framing.start arrays = ([] ++ arrays.flatten, []) := hall []
  rw [pieces, hstart]
  show (0x78 :: 0x9c :: (([] ++ arrays.flatten) ++ ([0, 0, 0, 0] ++ []))) = _
  rw [nil_append, append_nil]

theorem framing_lossless : framing.Lossless := by
  intro arrays
  rw [framing_pieces]
  simp [framing]

theorem framing_framed : framing.Framed := by
  intro arrays
  rw [framing_pieces]
  simp

theorem framing_headed : framing.Headed := by
  intro bytes out h
  unfold framing at h
  dsimp only at h
  split at h
  · exact ⟨_, _, rfl, by decide⟩
  · cases h

end Zip

/-! ### Texts that are sent on -/

namespace TextMessage

variable {Z : Zip} {connection : Option Connection} {content : ByteString} {compressed : Bool} {text : ByteString}
variable {m : TextMessage}
variable {reads : Nat}

def arraysOf (text : ByteString) : List (List UInt8) := [bytesBE (BitVec.ofInt 32 text.length) 4, text]

theorem getText_short (h : content.length ≤ 4) :
    getText Z (received connection content compressed) = .ok [] (received connection content compressed) := by
  refine mapError_eq_ok.mpr ?_
  exact if_pos h

theorem getText_long (h : ¬content.length ≤ 4) : getText Z (received connection content compressed) = .ok text m ↔
      (∃ input rest, restore Z compressed content = some input ∧ readString32 input = .ok text rest) ∧
        m = { received connection content compressed with text := some text } := by
  refine Iff.trans mapError_eq_ok ?_
  simp only [received, h, if_false]
  cases hrestore : restore Z compressed content with
  | none => simp
  | some input =>
    cases hread : readString32 input with
    | error e rest => simp [hread]
    | ok text' rest =>
      simp only [hread, EStateM.Result.ok.injEq, Option.some.injEq, exists_eq_left', exists_and_left]
      constructor
      · rintro ⟨rfl, rfl⟩
        exact ⟨⟨rfl, rest, rfl⟩, rfl⟩
      · rintro ⟨⟨rfl, -⟩, rfl⟩
        exact ⟨rfl, rfl⟩

theorem hasBody_iff : HasBody Z content compressed text ↔ if content.length ≤ 4 then text = []
    else ∃ input rest, restore Z compressed content = some input ∧ readString32 input = .ok text rest := by
  unfold HasBody
  split_ifs with h
  · rw [getText_short h]
    simp [eq_comm]
  · simp only [getText_long h]
    simp

theorem read_cached (h : m.text = some text) (reads : Nat) : read Z reads m = m := by
  induction reads with
  | zero => rfl
  | succ reads ih =>
    have hget : getText Z m = .ok text m := by
      refine mapError_eq_ok.mpr ?_
      rw [h]
    rw [read, hget]
    exact ih

theorem read_received (hbody : HasBody Z content compressed text) (reads : Nat) :
    read Z reads (received connection content compressed) =
      if 0 < reads ∧ 4 < content.length then { received connection content compressed with text := some text }
      else received connection content compressed := by
  by_cases hshort : content.length ≤ 4
  · rw [if_neg (by omega)]
    induction reads with
    | zero => rfl
    | succ reads ih =>
      rw [read, getText_short hshort]
      exact ih
  · rw [hasBody_iff, if_neg hshort] at hbody
    cases reads with
    | zero => rfl
    | succ reads =>
      rw [read, (getText_long hshort).mpr ⟨hbody, rfl⟩, if_pos (by omega)]
      exact read_cached rfl reads

theorem marshalTo_eq_ok {compression : Bool} (hlen : text.length < 2147483648) {bytes : List UInt8} :
    (∃ out, marshalTo Z compression text = .ok () out ∧ out.bytesOut.bytes = bytes) ↔
      ByteArrayOutputStream.Fits ((BodyOut.received Z compression (arraysOf text)).map List.length) ∧
        bytes = (BodyOut.received Z compression (arraysOf text)).flatten := by
  rw [← BodyOut.write_close_iff]
  have hsize : toInt32 text.length = text.length := toInt32_of_range (by omega) (by omega)
  have hwrite : ∀ out out' : BodyOut Z, StreamMessage.writeString32 text out = .ok () out' ↔
      (arraysOf text).forM write out = .ok () out' := by
    intro out out'
    rw [StreamMessage.writeString32_eq_ok, hsize, Int.toNat_natCast, take_length, write_write]
    rfl
  constructor
  · rintro ⟨out', hrun, hbytes⟩
    obtain ⟨⟨⟩, out, hone, hclose⟩ := bind_eq_ok.mp hrun
    exact ⟨out, out', (hwrite _ _).mp hone, hclose, hbytes⟩
  · rintro ⟨out, out', hone, hclose, hbytes⟩
    exact ⟨out', bind_eq_ok.mpr ⟨(), out, (hwrite _ _).mpr hone, hclose⟩, hbytes⟩

theorem parses_arraysOf (hlen : text.length < 2147483648) : Parses readString32 (arraysOf text).flatten text := by
  have hflatten : (arraysOf text).flatten = bytesBE (BitVec.ofInt 32 text.length) 4 ++ text := by simp [arraysOf]
  rw [hflatten]
  refine Parses.mapError ((DataInputStream.parses_readInt _).bind (parses_readStringBytes ?_))
  exact toInt_ofInt_length (by norm_num; omega) (by decide)

theorem length_received (hF : Z.Framed) (compression : Bool) :
    4 ≤ (BodyOut.received Z compression (arraysOf text)).flatten.length := by
  cases compression with
  | false => simp [BodyOut.received, arraysOf]
  | true =>
    have := hF (arraysOf text)
    simp only [BodyOut.received, if_true]
    omega

/-- The text can be put into a byte array again. -/
def Fits (Z : Zip) (connection : Option Connection) (text : ByteString) : Prop :=
  ByteArrayOutputStream.Fits
    ((BodyOut.received Z (connection.any Connection.useCompression) (arraysOf text)).map List.length)

theorem store_eq_ok {m' : TextMessage} {run : EStateM.Result Failure (BodyOut Z) Unit} {fits : Prop}
    {bytes : List UInt8} (hrun : ∀ b, (∃ out, run = .ok () out ∧ out.bytesOut.bytes = b) ↔ fits ∧ b = bytes)
    (hpos : bytes.length > 0) :
    store Z m run = .ok () m' ↔ fits ∧ m' = { m with content := bytes, text := none } := by
  cases run with
  | error e out =>
    refine iff_of_false (fun h => by cases h) ?_
    rintro ⟨hfits, -⟩
    obtain ⟨out', hout', -⟩ := (hrun _).mpr ⟨hfits, rfl⟩
    cases hout'
  | ok u out =>
    obtain ⟨hfits, hbytes⟩ := (hrun _).mp ⟨out, rfl, rfl⟩
    rw [store, hbytes, if_pos hpos]
    constructor
    · intro h
      exact ⟨hfits, (EStateM.Result.ok.inj h).2.symm⟩
    · rintro ⟨-, rfl⟩
      rfl

theorem beforeMarshal_cached (hF : Z.Framed) (hlen : text.length < 2147483648) :
    beforeMarshal Z { received connection content compressed with text := some text } = .ok () m ↔
      Fits Z connection text ∧ m = received connection
        (BodyOut.received Z (connection.any Connection.useCompression) (arraysOf text)).flatten
        (compressed || connection.any Connection.useCompression) := by
  have hpos := @length_received Z text hF (connection.any Connection.useCompression)
  have hrun := fun b => @marshalTo_eq_ok Z text (connection.any useCompression) hlen b
  have hstep : beforeMarshal Z { received connection content compressed with text := some text } =
      store Z { received connection content (compressed || connection.any useCompression) with
        text := some text } (marshalTo Z (connection.any useCompression) text) := rfl
  rw [hstep, store_eq_ok hrun (Nat.lt_of_lt_of_le (by decide) hpos)]
  rfl

/-- The message arrives with the text it came with. -/
def Survives (Z : Zip) (connection : Option Connection) (content : ByteString) (compressed : Bool) (reads : Nat)
    (text : ByteString) : Prop :=
  ∃ m, beforeMarshal Z (read Z reads (received connection content compressed)) = .ok () m ∧
    HasBody Z m.content m.compressed text

/-- Either the content is sent as it came, or the text is cached and can be marshalled again; then its content is
compressed if the flag says so, unless there is nothing in it. -/
def Forwardable (Z : Zip) (connection : Option Connection) (content : ByteString) (compressed : Bool) (reads : Nat)
    (text : ByteString) : Prop :=
  reads = 0 ∨ content.length ≤ 4 ∨
    Fits Z connection text ∧ (compressed = true → connection.any Connection.useCompression = true ∨ text = [])

theorem length_lt_of_hasBody (h : HasBody Z content compressed text) : text.length < 2147483648 := by
  rw [hasBody_iff] at h
  split_ifs at h
  · rw [h]
    decide
  · obtain ⟨input, rest, -, hread⟩ := h
    exact length_of_readString32 hread

theorem hasBody_rewritten (hZ : Z.Lossless) (hF : Z.Framed) (hlen : text.length < 2147483648)
    (hflag : compressed = true → connection.any Connection.useCompression = true ∨ text = []) :
    HasBody Z (BodyOut.received Z (connection.any Connection.useCompression) (arraysOf text)).flatten
      (compressed || connection.any Connection.useCompression) text := by
  have hparse : readString32 (arraysOf text).flatten = .ok text [] := by
    have := parses_arraysOf hlen []
    rwa [List.append_nil] at this
  rw [hasBody_iff]
  cases huse : connection.any Connection.useCompression with
  | true =>
    have hlong := hF (arraysOf text)
    simp only [BodyOut.received, if_true, Bool.or_true]
    rw [if_neg (by omega)]
    exact ⟨_, _, hZ (arraysOf text), hparse⟩
  | false =>
    rw [huse] at hflag
    simp only [BodyOut.received, Bool.false_eq_true, if_false, Bool.or_false]
    split_ifs with hshort
    · have hlength : (arraysOf text).flatten.length = 4 + text.length := by simp [arraysOf]
      exact List.length_eq_zero_iff.mp (by omega)
    · have hplain : compressed = false := by
        cases hc : compressed with
        | false => rfl
        | true =>
          rcases hflag hc with hfalse | hnil
          · cases hfalse
          · subst hnil
            exact absurd (by simp [arraysOf]) hshort
      rw [hplain]
      exact ⟨_, _, rfl, hparse⟩

theorem survives_of_forwardable (hZ : Z.Lossless) (hF : Z.Framed) (hbody : HasBody Z content compressed text)
    (h : Forwardable Z connection content compressed reads text) :
    Survives Z connection content compressed reads text := by
  unfold Survives
  rw [read_received hbody]
  split_ifs with hcached
  · rcases h with hzero | hshort | ⟨hfits, hflag⟩
    · omega
    · omega
    · have hlen := length_lt_of_hasBody hbody
      exact ⟨_, (beforeMarshal_cached hF hlen).mpr ⟨hfits, rfl⟩, hasBody_rewritten hZ hF hlen hflag⟩
  · exact ⟨_, rfl, hbody⟩

theorem forwardable_of_survives (hH : Z.Headed) (hF : Z.Framed) (hbody : HasBody Z content compressed text)
    (hsmall : text.length < 134217728) (h : Survives Z connection content compressed reads text) :
    Forwardable Z connection content compressed reads text := by
  unfold Survives at h
  rw [read_received hbody] at h
  by_cases hcached : 0 < reads ∧ 4 < content.length
  · rw [if_pos hcached] at h
    obtain ⟨m, hmarshal, hagain⟩ := h
    obtain ⟨hfits, rfl⟩ := (beforeMarshal_cached hF (by omega)).mp hmarshal
    refine .inr (.inr ⟨hfits, fun hcompressed => ?_⟩)
    by_contra hneither
    rw [not_or, Bool.not_eq_true] at hneither
    obtain ⟨huse, hne⟩ := hneither
    have hlength : (arraysOf text).flatten.length = 4 + text.length := by simp [arraysOf]
    have hpos := List.length_pos_of_ne_nil hne
    simp only [received, hasBody_iff, huse, hcompressed, BodyOut.received, Bool.false_eq_true, if_false, Bool.or_false]
      at hagain
    rw [if_neg (by omega)] at hagain
    obtain ⟨input, rest, hinflate, -⟩ := hagain
    have hcount : (BitVec.ofInt 32 text.length).toNat = text.length := by
      simp only [BitVec.toNat_ofInt]
      omega
    have hnone := hH.inflate_count (hcount ▸ hsmall) text
    rw [BodyOut.restore, if_pos rfl] at hinflate
    have hflatten : (arraysOf text).flatten = bytesBE (BitVec.ofInt 32 text.length) 4 ++ text := by simp [arraysOf]
    rw [hflatten, hnone] at hinflate
    cases hinflate
  · rcases Nat.eq_zero_or_pos reads with hzero | hpos
    · exact .inl hzero
    · exact .inr (.inl (by omega))

end TextMessage

/-! ### Maps that are sent on -/

namespace MapMessage

variable {Z : Zip} {connection : Option Connection} {content : ByteString} {compressed : Bool} {depth : Nat}
  {entries : List (ByteString × PrimitiveValueNode)}
variable {m : MapMessage}
variable {reads : Nat}

/-- What a reader of this depth makes of the content. -/
def Decodes (Z : Zip) (depth : Nat) (content : ByteString) (compressed : Bool)
    (entries : List (ByteString × PrimitiveValueNode)) : Prop :=
  if content = [] then entries = []
  else ∃ input rest, BodyOut.restore Z compressed content = some input ∧
    unmarshalPrimitiveMap (unmarshalPrimitive depth) [] input = .ok entries rest

theorem Decodes.read (h : Decodes Z depth content compressed entries) (hne : entries ≠ []) :
    ∃ input rest, unmarshalPrimitiveMap (unmarshalPrimitive depth) [] input = .ok entries rest := by
  unfold Decodes at h
  split_ifs at h
  · exact absurd h hne
  · obtain ⟨input, rest, -, hread⟩ := h
    exact ⟨input, rest, hread⟩

theorem checkMapIsUnmarshalled_received :
    checkMapIsUnmarshalled Z depth (received connection content compressed) = .ok () m ∧ m.map = some entries ↔
      Decodes Z depth content compressed entries ∧
        m = { received connection content compressed with map := some entries } := by
  refine Iff.trans (and_congr_left' mapError_eq_ok) ?_
  unfold Decodes
  by_cases hnil : content = []
  · subst hnil
    simp only [received, if_true, EStateM.Result.ok.injEq, true_and]
    constructor
    · rintro ⟨rfl, hmap⟩
      cases hmap
      exact ⟨rfl, rfl⟩
    · rintro ⟨rfl, rfl⟩
      exact ⟨rfl, rfl⟩
  · simp only [received, hnil, if_false]
    cases restore Z compressed content with
    | none => simp
    | some input =>
      cases hread : unmarshalPrimitiveMap (unmarshalPrimitive depth) [] input with
      | error e rest => simp [hread]
      | ok entries' rest =>
        simp only [hread, EStateM.Result.ok.injEq, true_and, Option.some.injEq, exists_eq_left', exists_and_left]
        constructor
        · rintro ⟨rfl, hmap⟩
          cases hmap
          exact ⟨⟨rfl, rest, rfl⟩, rfl⟩
        · rintro ⟨⟨rfl, -⟩, rfl⟩
          exact ⟨rfl, rfl⟩

theorem hasBody_iff_decodes :
    HasBody Z content compressed entries ↔ ∃ depth, ∀ d, depth ≤ d → Decodes Z d content compressed entries := by
  unfold HasBody
  simp only [checkMapIsUnmarshalled_received]
  simp

theorem read_cached (h : m.map = some entries) (reads : Nat) : read Z depth reads m = m := by
  induction reads with
  | zero => rfl
  | succ reads ih =>
    have hcheck : checkMapIsUnmarshalled Z depth m = .ok () m := by
      refine mapError_eq_ok.mpr ?_
      rw [h]
    rw [read, hcheck]
    exact ih

theorem read_received (h : Decodes Z depth content compressed entries) (reads : Nat) :
    read Z depth reads (received connection content compressed) =
      if 0 < reads then { received connection content compressed with map := some entries }
      else received connection content compressed := by
  cases reads with
  | zero => rfl
  | succ reads =>
    obtain ⟨hcheck, -⟩ := checkMapIsUnmarshalled_received.mpr ⟨h, rfl⟩
    rw [read, hcheck, if_pos (Nat.succ_pos _)]
    exact read_cached rfl reads

theorem store_eq_ok {m' : MapMessage} {run : EStateM.Result Failure (BodyOut Z) Unit} {fits : Prop}
    {bytes : List UInt8} (hrun : ∀ b, (∃ out, run = .ok () out ∧ out.bytesOut.bytes = b) ↔ fits ∧ b = bytes) :
    store Z m run = .ok () m' ↔ fits ∧ m' = { m with content := bytes } := by
  cases run with
  | error e out =>
    refine iff_of_false (fun h => by cases h) ?_
    rintro ⟨hfits, -⟩
    obtain ⟨out', hout', -⟩ := (hrun _).mpr ⟨hfits, rfl⟩
    cases hout'
  | ok u out =>
    obtain ⟨hfits, hbytes⟩ := (hrun _).mp ⟨out, rfl, rfl⟩
    rw [store, hbytes]
    constructor
    · intro h
      exact ⟨hfits, (EStateM.Result.ok.inj h).2.symm⟩
    · rintro ⟨-, rfl⟩
      rfl

def Fits (Z : Zip) (connection : Option Connection) (entries : List (ByteString × PrimitiveValueNode)) : Prop :=
  ByteArrayOutputStream.Fits
    ((BodyOut.received Z (connection.any Connection.useCompression) [bytesOf entries]).map List.length)

theorem marshalTo_eq_ok {compression : Bool} (hdecodes : Decodes Z depth content compressed entries)
    (hne : entries ≠ []) {bytes : List UInt8} :
    (∃ out, marshalTo Z compression entries = .ok () out ∧ out.bytesOut.bytes = bytes) ↔
      (EncodableEntries entries ∧
        ByteArrayOutputStream.Fits ((BodyOut.received Z compression [bytesOf entries]).map List.length)) ∧
        bytes = (BodyOut.received Z compression [bytesOf entries]).flatten := by
  obtain ⟨input, rest, hread⟩ := hdecodes.read hne
  obtain ⟨hsound, hneeded⟩ := rewrite_iff hread
  rw [and_assoc, ← write_close_iff]
  have hcall : ∀ out out' : BodyOut Z, call (marshalPrimitiveMap entries) out = .ok () out' ↔
      EncodableEntries entries ∧ [bytesOf entries].forM write out = .ok () out' := by
    intro out out'
    have hsingle : ([bytesOf entries].forM write : EStateM Failure (BodyOut Z) Unit) =
        write (bytesOf entries) := by simp [forM_cons]
    rw [hsingle]
    unfold call bytesOf
    cases hrun : marshalPrimitiveMap entries [] with
    | error e out =>
      refine iff_of_false (fun h => by cases h) ?_
      rintro ⟨hencodable, -⟩
      obtain ⟨bytes, depth, hbytes, -⟩ := hsound hencodable
      rw [hrun] at hbytes
      cases hbytes
    | ok u bytes => exact (and_iff_right (hneeded bytes hrun)).symm
  constructor
  · rintro ⟨out', hrun, hbytes⟩
    obtain ⟨⟨⟩, out, hone, hclose⟩ := bind_eq_ok.mp hrun
    obtain ⟨hencodable, hwrite⟩ := (hcall _ _).mp hone
    exact ⟨hencodable, out, out', hwrite, hclose, hbytes⟩
  · rintro ⟨hencodable, out, out', hwrite, hclose, hbytes⟩
    exact ⟨out', bind_eq_ok.mpr ⟨(), out, (hcall _ _).mpr ⟨hencodable, hwrite⟩, hclose⟩, hbytes⟩

theorem beforeMarshal_cached (hdecodes : Decodes Z depth content compressed entries) (hne : entries ≠ []) :
    beforeMarshal Z { received connection content compressed with map := some entries } = .ok () m ↔
      (EncodableEntries entries ∧ Fits Z connection entries) ∧
        m = { received connection
          (BodyOut.received Z (connection.any Connection.useCompression) [bytesOf entries]).flatten
          (compressed || connection.any useCompression) with map := some entries } := by
  have hrun := fun b => @marshalTo_eq_ok Z content compressed depth entries
    (connection.any useCompression) hdecodes hne b
  refine Iff.trans mapError_eq_ok ?_
  cases entries with
  | nil => exact absurd rfl hne
  | cons entry entries => exact store_eq_ok hrun

theorem beforeMarshal_empty (h : m.map = none ∨ m.map = some []) : beforeMarshal Z m = .ok () m.clearBody := by
  refine mapError_eq_ok.mpr ?_
  rcases h with hnone | hempty
  · rw [hnone]
  · rw [hempty]

/-- The message arrives with the map it came with, however deep a map all parties can read. -/
def Survives (Z : Zip) (connection : Option Connection) (content : ByteString) (compressed : Bool) (reads : Nat)
    (entries : List (ByteString × PrimitiveValueNode)) : Prop :=
  ∃ depth, ∀ d, depth ≤ d → ∃ m,
    beforeMarshal Z (read Z d reads (received connection content compressed)) = .ok () m ∧
      HasBody Z m.content m.compressed entries

/-- Either there is nothing in the map, or it has been read and can be marshalled again; then its content is
compressed if the flag says so. -/
def Forwardable (Z : Zip) (connection : Option Connection) (compressed : Bool) (reads : Nat)
    (entries : List (ByteString × PrimitiveValueNode)) : Prop :=
  entries = [] ∨ 0 < reads ∧ EncodableEntries entries ∧ Fits Z connection entries ∧
    (compressed = true → connection.any Connection.useCompression = true)

theorem hasBody_nil : HasBody Z [] compressed entries ↔ entries = [] := by
  rw [hasBody_iff_decodes]
  simp only [Decodes, if_true]
  exact ⟨fun ⟨depth, h⟩ => h depth (le_refl _), fun h => ⟨0, fun _ _ => h⟩⟩

theorem bytesOf_of_encodable (hdecodes : Decodes Z depth content compressed entries) (hne : entries ≠ [])
    (hencodable : EncodableEntries entries) :
    (∃ tail, bytesOf entries = bytesBE (BitVec.ofNat 32 entries.length) 4 ++ tail) ∧
      ∃ needed, ∀ d, needed ≤ d →
        unmarshalPrimitiveMap (unmarshalPrimitive d) [] (bytesOf entries) = .ok entries [] := by
  obtain ⟨input, rest, hread⟩ := hdecodes.read hne
  obtain ⟨tail, htail⟩ := marshalPrimitiveMap_count hread hencodable
  obtain ⟨bytes, needed, hbytes, hagain⟩ := (rewrite_iff hread).1 hencodable
  have hbytesOf : bytesOf entries = bytes := by rw [bytesOf, hbytes]
  refine ⟨⟨tail, by rw [bytesOf, htail]⟩, needed, fun d hd => ?_⟩
  have := hagain d hd []
  rwa [append_nil, ← hbytesOf] at this

theorem received_length (hF : Z.Framed) (hdecodes : Decodes Z depth content compressed entries) (hne : entries ≠ [])
    (hencodable : EncodableEntries entries) (compression : Bool) :
    0 < (BodyOut.received Z compression [bytesOf entries]).flatten.length := by
  cases compression with
  | false =>
    obtain ⟨⟨tail, htail⟩, -⟩ := bytesOf_of_encodable hdecodes hne hencodable
    simp [BodyOut.received, htail]
  | true =>
    have := hF [bytesOf entries]
    simp only [BodyOut.received, if_true]
    omega

theorem hasBody_rewritten (hZ : Z.Lossless) (hF : Z.Framed) (hdecodes : Decodes Z depth content compressed entries)
    (hne : entries ≠ []) (hencodable : EncodableEntries entries)
    (hflag : compressed = true → connection.any Connection.useCompression = true) :
    HasBody Z (BodyOut.received Z (connection.any Connection.useCompression) [bytesOf entries]).flatten
      (compressed || connection.any Connection.useCompression) entries := by
  obtain ⟨-, needed, hagain⟩ := bytesOf_of_encodable hdecodes hne hencodable
  have hor : (compressed || connection.any Connection.useCompression) = connection.any Connection.useCompression := by
    cases hc : compressed with
    | false => rfl
    | true => rw [hflag hc, Bool.or_true]
  have hrestore := BodyOut.restore_received hZ (connection.any Connection.useCompression) [bytesOf entries]
  rw [hor, hasBody_iff_decodes]
  refine ⟨needed, fun d hd => ?_⟩
  unfold Decodes
  split_ifs with hnil
  · have hpos := received_length hF hdecodes hne hencodable (connection.any Connection.useCompression)
    rw [hnil] at hpos
    exact absurd hpos (by decide)
  · rw [List.flatten_singleton] at hrestore
    exact ⟨_, _, hrestore, hagain d hd⟩

theorem survives_of_forwardable (hZ : Z.Lossless) (hF : Z.Framed) (hbody : HasBody Z content compressed entries)
    (h : Forwardable Z connection compressed reads entries) :
    Survives Z connection content compressed reads entries := by
  obtain ⟨depth, hdecodes⟩ := hasBody_iff_decodes.mp hbody
  refine ⟨depth, fun d hd => ?_⟩
  rw [read_received (hdecodes d hd)]
  by_cases hnil : entries = []
  · subst hnil
    split_ifs
    · exact ⟨_, beforeMarshal_empty (.inr rfl), hasBody_nil.mpr rfl⟩
    · exact ⟨_, beforeMarshal_empty (.inl rfl), hasBody_nil.mpr rfl⟩
  · obtain ⟨hreads, hencodable, hfits, hflag⟩ := h.resolve_left hnil
    rw [if_pos hreads]
    exact ⟨_, (beforeMarshal_cached (hdecodes d hd) hnil).mpr ⟨⟨hencodable, hfits⟩, rfl⟩,
      hasBody_rewritten hZ hF (hdecodes d hd) hnil hencodable hflag⟩

theorem forwardable_of_survives (hH : Z.Headed) (hbody : HasBody Z content compressed entries)
    (hsmall : entries.length < 134217728) (h : Survives Z connection content compressed reads entries) :
    Forwardable Z connection compressed reads entries := by
  obtain ⟨depth, hdecodes⟩ := hasBody_iff_decodes.mp hbody
  obtain ⟨depth', hsurvives⟩ := h
  obtain ⟨m, hmarshal, hagain⟩ := hsurvives (max depth depth') (le_max_right _ _)
  have hread := hdecodes (max depth depth') (le_max_left _ _)
  rw [read_received hread] at hmarshal
  by_cases hnil : entries = []
  · exact .inl hnil
  refine .inr ?_
  by_cases hreads : 0 < reads
  · rw [if_pos hreads] at hmarshal
    obtain ⟨⟨hencodable, hfits⟩, rfl⟩ := (beforeMarshal_cached hread hnil).mp hmarshal
    refine ⟨hreads, hencodable, hfits, fun hcompressed => ?_⟩
    by_contra huse
    rw [Bool.not_eq_true] at huse
    obtain ⟨⟨tail, htail⟩, -⟩ := bytesOf_of_encodable hread hnil hencodable
    obtain ⟨depth'', hagain⟩ := hasBody_iff_decodes.mp hagain
    have hlast := hagain depth'' (le_refl _)
    simp only [received, huse, hcompressed, BodyOut.received, Bool.false_eq_true, if_false, Bool.or_false,
      List.flatten_singleton, htail] at hlast
    rw [Decodes, if_neg (by simp [bytesBE])] at hlast
    obtain ⟨input, rest, hinflate, -⟩ := hlast
    have hcount : (BitVec.ofNat 32 entries.length).toNat = entries.length := by
      rw [BitVec.toNat_ofNat]
      omega
    rw [BodyOut.restore, if_pos rfl, hH.inflate_count (by rw [hcount]; exact hsmall) tail] at hinflate
    cases hinflate
  · rw [if_neg hreads, beforeMarshal_empty (.inl rfl)] at hmarshal
    cases hmarshal
    exact absurd (hasBody_nil.mp hagain) hnil

end MapMessage

/-! ### Streams and bytes that are sent on -/

namespace StreamMessage

variable {Z : Zip} {C : Conversions}
variable {α : Type} {content : ByteString} {compressed : Bool} {m : StreamMessage Z}

def kept (m : StreamMessage Z) : ByteString × Bool × Option (BodyOut Z) := (m.content, m.compressed, m.dataOut)

theorem frames_initializeReading : Frames kept (initializeReading : M Z Unit) := by
  intro m
  simp only [initializeReading, bind_run, get_run]
  split_ifs <;> rfl

theorem frames_onDataIn (read : DataIn α) : Frames kept (onDataIn read : M Z α) := by
  intro m
  unfold onDataIn
  split
  · split <;> rfl
  · rfl

theorem frames_modify {f : StreamMessage Z → StreamMessage Z} (h : ∀ m, kept (f m) = kept m) :
    Frames kept (modify f : M Z PUnit) := fun m => h m

theorem frames_reading (read : DataIn α) : Frames kept (reading read : M Z α) :=
  frames_initializeReading.bind fun _ => frames_onDataIn read

theorem frames_readPiece (length : Int) : Frames kept (readPiece length : M Z (Int × ByteString)) := by
  intro m
  rw [readPiece, bind_run, get_run]
  by_cases hfits : length ≤ m.remainingBytes
  · simp only [hfits, if_true]
    rw [bind_ok (set_run _ _)]
    exact ((frames_onDataIn _).bind fun _ => frames_pure _) _
  · simp only [hfits, if_false]
    have hlast (result : Int × ByteString) : Frames kept (do
        modify fun m => { m with remainingBytes := 0 }
        return result : M Z (Int × ByteString)) :=
      Frames.bind (frames_modify fun _ => rfl) fun _ => frames_pure _
    exact (frames_onDataIn _).bind hlast m

theorem frames_readBytes (length : Int) : Frames kept (readBytes length : M Z (Int × ByteString)) := by
  refine frames_initializeReading.bind fun _ => Frames.mapError fun m => ?_
  rw [bind_run, get_run]
  by_cases hfirst : m.remainingBytes = -1
  · simp only [hfirst, if_true]
    have hrest (size : Int) : Frames kept (do
        modify fun m => { m with remainingBytes := size }
        readPiece length : M Z (Int × ByteString)) :=
      Frames.bind (frames_modify fun _ => rfl) fun _ => frames_readPiece length
    exact (frames_onDataIn _).bind hrest m
  · simp only [hfirst, if_false]
    split_ifs
    · rfl
    · exact frames_readPiece length m

theorem kept_ofCall (f : α → ReadResult) (result : EStateM.Result Failure (StreamMessage Z) α) :
    (ReadResult.ofCall f result).2 = stateOf result := by
  unfold ReadResult.ofCall
  split <;> rfl

theorem kept_run (op : ReadOp) (m : StreamMessage Z) : kept (op.run C m).2 = kept m := by
  cases op with
  | bytes length =>
    rw [ReadOp.run, kept_ofCall]
    exact frames_readBytes length m
  | _ =>
    rw [ReadOp.run, kept_ofCall]
    exact frames_reading _ m

/-- What an application can do with a message that it does not change. -/
inductive Access where
  | read (op : ReadOp)
  | reset

def Access.run (C : Conversions) : Access → StreamMessage Z → StreamMessage Z
  | .read op, m => (op.run C m).2
  | .reset, m => stateOf (StreamMessage.reset m)

def received (connection : Option Connection) (content : ByteString) (compressed : Bool) : StreamMessage Z :=
  { content := content, compressed := compressed, readOnlyBody := true, connection := connection }

theorem kept_access (access : Access)
    (h : kept m = (content, compressed, none)) : kept (access.run C m) = (content, compressed, none) := by
  cases access with
  | read op => exact (kept_run op m).trans h
  | reset =>
    obtain ⟨hcontent, hcompressed, hout⟩ : m.content = content ∧ m.compressed = compressed ∧ m.dataOut = none := by
      simpa [kept] using h
    have hstore : storeContent m = .ok () m := by rw [storeContent, hout]
    rw [Access.run, StreamMessage.reset, mapError, bind_ok hstore]
    exact congrArg₂ (fun content compressed => (content, compressed, none)) hcontent hcompressed

theorem kept_accesses (accesses : List Access) (h : kept m = (content, compressed, none)) :
    kept (accesses.foldl (fun m access => access.run C m) m) = (content, compressed, none) := by
  induction accesses generalizing m with
  | nil => exact h
  | cons access accesses ih => exact ih (kept_access access h)

theorem onSend_of_kept (h : kept m = (content, compressed, none)) :
    ∃ m', onSend m = .ok () m' ∧ m'.content = content ∧ m'.compressed = compressed := by
  obtain ⟨hcontent, hcompressed, hout⟩ : m.content = content ∧ m.compressed = compressed ∧ m.dataOut = none := by
    simpa [kept] using h
  have hstore : storeContent m = .ok () m := by rw [storeContent, hout]
  exact ⟨{ m with readOnlyBody := true }, by rw [onSend, bind_ok hstore]; rfl, hcontent, hcompressed⟩

end StreamMessage

namespace BytesMessage

variable {Z : Zip}
variable {m : BytesMessage Z} {content : ByteString} {compressed : Bool}

def kept (m : BytesMessage Z) : ByteString × Bool × Option (BodyOut Z) := (m.content, m.compressed, m.dataOut)

theorem frames_initializeReading : Frames kept (initializeReading : M Z Unit) := by
  intro m
  simp only [initializeReading, bind_run, get_run]
  split_ifs
  · cases DataInputStream.readInt m.content <;> rfl
  · rfl
  · rfl
  · rfl

theorem frames_reading {α : Type} (read : DataIn α) : Frames kept (reading read : M Z α) := by
  refine frames_initializeReading.bind fun _ => ?_
  intro m
  dsimp only
  split
  · split <;> rfl
  · rfl

/-- What an application can do with a message that it does not change: call a function of the `DataInputStream`,
ask for the length, start again. -/
inductive Access where
  | read (program : DataIn Unit)
  | bodyLength
  | reset

def Access.run : Access → BytesMessage Z → BytesMessage Z
  | .read program, m => stateOf (reading program m)
  | .bodyLength, m => stateOf (getBodyLength m)
  | .reset, m => stateOf (BytesMessage.reset m)

def received (connection : Option Connection) (content : ByteString) (compressed : Bool) : BytesMessage Z :=
  { content := content, compressed := compressed, readOnlyBody := true, connection := connection }

theorem storeContent_of_none (h : m.dataOut = none) : storeContent m = .ok () m := by
  refine mapError_eq_ok.mpr ?_
  rw [h]

theorem kept_access (access : Access)
    (h : kept m = (content, compressed, none)) : kept (access.run m) = (content, compressed, none) := by
  cases access with
  | read program => exact (frames_reading program m).trans h
  | bodyLength =>
    have hframes : Frames kept (getBodyLength : M Z Int) :=
      frames_initializeReading.bind fun _ => frames_get.bind fun _ => frames_pure _
    exact (hframes m).trans h
  | reset =>
    obtain ⟨hcontent, hcompressed, hout⟩ : m.content = content ∧ m.compressed = compressed ∧ m.dataOut = none := by
      simpa [kept] using h
    rw [Access.run, BytesMessage.reset, mapError, bind_ok (storeContent_of_none hout)]
    exact congrArg₂ (fun content compressed => (content, compressed, none)) hcontent hcompressed

theorem kept_accesses (accesses : List Access) (h : kept m = (content, compressed, none)) :
    kept (accesses.foldl (fun m access => access.run m) m) = (content, compressed, none) := by
  induction accesses generalizing m with
  | nil => exact h
  | cons access accesses ih => exact ih (kept_access access h)

theorem onSend_of_kept (h : kept m = (content, compressed, none)) :
    ∃ m', onSend m = .ok () m' ∧ m'.content = content ∧ m'.compressed = compressed := by
  obtain ⟨hcontent, hcompressed, hout⟩ : m.content = content ∧ m.compressed = compressed ∧ m.dataOut = none := by
    simpa [kept] using h
  exact ⟨{ m with readOnlyBody := true }, by rw [onSend, bind_ok (storeContent_of_none hout)]; rfl, hcontent,
    hcompressed⟩

end BytesMessage

/-! ### All four -/

/-- The content of a map with the entry `a = true`. -/
def oneEntry : ByteString := [0, 0, 0, 1, 0, 1, 0x61, 1, 1]

theorem oneEntry_hasBody : MapMessage.HasBody Zip.framing oneEntry false [([0x61], .boolean true)] := by
  refine MapMessage.hasBody_iff_decodes.mpr ⟨1, fun d hd => ?_⟩
  obtain ⟨d, rfl⟩ := Nat.exists_eq_add_of_le' hd
  exact ⟨oneEntry, [], rfl, rfl⟩

end ActiveMQCpp.Commands
