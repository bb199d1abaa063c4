import ActiveMQCpp.DecafDataCodec
import ActiveMQCpp.StompFrame

/-! Frames written back to back are read back one by one. The reader leaves the line feed that ends a
frame in the stream and skips it as white space before the next command. -/

namespace ActiveMQCpp.Stomp

open Codec Decaf MachineInt DataInputStream List Option
open DataOutputStream (emits_put emits_write_all)

namespace StompFrame

/-- The frames a client builds: a body comes with its length in the content-length header, or is a text
with the NUL that ends it. -/
structure WellFormed (frame : StompFrame) : Prop where
  command_ne : frame.command ≠ []
  command_bytes : ∀ c ∈ frame.command, c ≠ 10 ∧ c ≠ 0
  command_head : ∀ c ∈ frame.command.head?, Character.isWhitespace c = false
  names : ∀ e ∈ frame.properties.entries, ∀ c ∈ e.1, c ≠ 58 ∧ c ≠ 10 ∧ c ≠ 0
  values : ∀ e ∈ frame.properties.entries, ∀ c ∈ e.2, c ≠ 10 ∧ c ≠ 0
  content : frame.properties.find headerContentLength = some (Long.toString frame.body.length) ∨
    frame.properties.find headerContentLength = none ∧ ∃ text, frame.body = text ++ [0] ∧ ∀ c ∈ text, c ≠ 0

/-- The command and the headers of a frame hold no byte that ends them. -/
structure Plain (frame : StompFrame) : Prop where
  command_ne : frame.command ≠ []
  command_bytes : ∀ c ∈ frame.command, c ≠ 10 ∧ c ≠ 0
  command_head : ∀ c ∈ frame.command.head?, Character.isWhitespace c = false
  names : ∀ e ∈ frame.properties.entries, ∀ c ∈ e.1, c ≠ 58 ∧ c ≠ 10 ∧ c ≠ 0
  values : ∀ e ∈ frame.properties.entries, ∀ c ∈ e.2, c ≠ 10 ∧ c ≠ 0

theorem WellFormed.plain {frame : StompFrame} (h : frame.WellFormed) : frame.Plain :=
  ⟨h.command_ne, h.command_bytes, h.command_head, h.names, h.values⟩

/-- Everything that is written has a length an `int` can hold. -/
structure Fits (frame : StompFrame) : Prop where
  command : frame.command.length < 2147483648
  names : ∀ e ∈ frame.properties.entries, e.1.length < 2147483648
  values : ∀ e ∈ frame.properties.entries, e.2.length < 2147483648
  body : frame.body.length < 2147483648

def writeFrames (frames : List StompFrame) : DataOut Unit := frames.forM toStream

/-- Reading a fresh frame for each of `frames` gives these frames, and no call reads into the bytes of the
frames after its own, a leading blank line apart. -/
def ReadsBack : List StompFrame → List UInt8 → Prop
  | [], _ => True
  | frame :: frames, input => ∃ rest bytes, fresh.fromStream input = .ok frame rest ∧
      writeFrames frames [] = .ok () bytes ∧ (rest = bytes ∨ rest = 10 :: bytes) ∧ ReadsBack frames rest

/-- What is written can be read back. -/
def Recovers (frames : List StompFrame) : Prop :=
  ∃ bytes, writeFrames frames [] = .ok () bytes ∧ ReadsBack frames bytes

section Written

def headerBytes (header : ByteString × ByteString) : List UInt8 := header.1 ++ 58 :: (header.2 ++ [10])

def terminator (frame : StompFrame) : List UInt8 :=
  if frame.body.length = 0 ∨ frame.getProperty headerContentLength [] ≠ [] then [0] else []

def bytes (frame : StompFrame) : List UInt8 :=
  frame.command ++ (10 :: (frame.properties.entries.flatMap headerBytes ++ (10 :: (frame.body ++ frame.terminator))))

theorem emits_writeString {bytes : ByteString} (h : bytes.length < 2147483648) : Emits (writeString bytes) () bytes :=
  emits_write_all (toInt32_of_range (by omega) (by omega))

theorem emits_writeHeader {header : ByteString × ByteString} (hname : header.1.length < 2147483648)
    (hvalue : header.2.length < 2147483648) : Emits (writeHeader header) () (headerBytes header) := by
  unfold writeHeader
  exact (emits_writeString hname).bind ((emits_put [58]).bind ((emits_writeString hvalue).bind (emits_put [10])))

theorem emits_toStream {frame : StompFrame} (h : frame.Fits) : Emits frame.toStream () (frame.bytes ++ [10]) := by
  have hbody : Emits frame.writeBody () frame.body := by
    rw [writeBody]
    split_ifs with hpos
    · exact emits_writeString h.body
    · rw [eq_nil_of_length_eq_zero (Nat.eq_zero_of_not_pos hpos)]
      exact Emits.pure ()
  have hterm : Emits frame.writeTerminator () frame.terminator := by
    rw [writeTerminator, terminator]
    split_ifs
    · exact emits_put [0]
    · exact Emits.pure ()
  have hheaders : Emits (frame.properties.entries.forM writeHeader) () (frame.properties.entries.flatMap headerBytes) :=
    Emits.forM fun e he => emits_writeHeader (h.names e he) (h.values e he)
  have hall : Emits frame.toStream () (frame.command ++ ([10] ++ (frame.properties.entries.flatMap headerBytes ++
      ([10] ++ (frame.body ++ (frame.terminator ++ [10])))))) := by
    unfold toStream
    exact (emits_writeString h.command).bind ((emits_put [10]).bind (hheaders.bind
      ((emits_put [10]).bind (hbody.bind (hterm.bind (emits_put [10]))))))
  simpa only [bytes, append_assoc, cons_append, nil_append] using hall

end Written

section Read

variable {frame : StompFrame}
variable {line text : ByteString} {frames : List StompFrame}

theorem readLine_line (h : ∀ c ∈ line, c ≠ 10) (buffer : ByteString) (rest : List UInt8) :
    readLine buffer (line ++ 10 :: rest) = .ok (buffer ++ line ++ [0]) rest := by
  induction line generalizing buffer with
  | nil => rw [nil_append, readLine, if_pos rfl, append_nil]
  | cons c line ih =>
    rw [cons_append, readLine, if_neg (h c mem_cons_self),
      ih fun d hd => h d (mem_cons_of_mem _ hd)]
    simp only [append_assoc, cons_append, nil_append]

theorem readHeaderLine_line (h : ∀ c ∈ line, c ≠ 10) (rest : List UInt8) :
    readHeaderLine (line ++ 10 :: rest) = .ok (line ++ [0]) rest :=
  mapError_eq_ok.mpr (readLine_line h [] rest)

theorem cString_append (h : ∀ c ∈ text, c ≠ 0) (rest : ByteString) : cString (text ++ 0 :: rest) = text := by
  rw [cString, takeWhile_append_of_pos (by simpa using h)]
  simp

theorem readCommandLine_blank (frame : StompFrame) (input : List UInt8) :
    frame.readCommandLine (10 :: input) = frame.readCommandLine input := by
  rw [readCommandLine]
  rfl

theorem readCommandLine_command (frame : StompFrame) {command : ByteString} (hne : command ≠ [])
    (hbytes : ∀ c ∈ command, c ≠ 10 ∧ c ≠ 0) (hhead : ∀ c ∈ command.head?, Character.isWhitespace c = false)
    (rest : List UInt8) :
    frame.readCommandLine (command ++ 10 :: rest) = .ok { frame with command := command } rest := by
  have hline := readHeaderLine_line (fun c hc => (hbytes c hc).1) rest
  have hidx : ((command ++ [0]).dropLast.findIdx? fun c => !Character.isWhitespace c) = some 0 := by
    obtain ⟨c, tail, rfl⟩ := exists_cons_of_ne_nil hne
    rw [dropLast_concat, List.findIdx?_cons, hhead c rfl]
    rfl
  rw [readCommandLine]
  split
  · next e rest' heq =>
      rw [hline] at heq
      cases heq
  · next buffer rest' heq =>
      rw [hline] at heq
      cases heq
      simp only [hidx, drop_zero, cString_append (fun c hc => (hbytes c hc).2)]

theorem putHeader_line (frame : StompFrame) {name value : ByteString} (hname : ∀ c ∈ name, c ≠ 58 ∧ c ≠ 10 ∧ c ≠ 0)
    (hvalue : ∀ c ∈ value, c ≠ 10 ∧ c ≠ 0) (hnew : frame.properties.find name = none) :
    frame.putHeader (name ++ 58 :: (value ++ [0])) = frame.setProperty name value := by
  have hidx : (name ++ 58 :: (value ++ [0])).findIdx? (· = 58) = some name.length := by
    rw [List.findIdx?_append, List.findIdx?_eq_none_iff.mpr (by simpa using fun c hc => (hname c hc).1),
      List.findIdx?_cons]
    simp
  have hset : (name ++ 58 :: (value ++ [0])).set name.length 0 = name ++ 0 :: (value ++ [0]) := by
    rw [set_append_right _ _ (le_refl _), Nat.sub_self]
    rfl
  have hkey : cString (name ++ 0 :: (value ++ [0])) = name := cString_append (fun c hc => (hname c hc).2.2) _
  have hval : cString ((name ++ 0 :: (value ++ [0])).drop (name.length + 1)) = value := by
    rw [← drop_drop, drop_left]
    exact cString_append (fun c hc => (hvalue c hc).2) []
  simp only [putHeader, hidx, hset, hkey, hval, hasProperty, hnew, isSome_none, Bool.false_eq_true, if_false]

theorem readHeaderLines_of_line (frame : StompFrame) {input rest : List UInt8} {buffer : ByteString}
    (h : readHeaderLine input = .ok buffer rest) :
    frame.readHeaderLines input =
      if buffer = [0] then .ok frame rest else (frame.putHeader buffer).readHeaderLines rest := by
  have hlen : buffer.length ≠ 0 := by
    obtain ⟨-, init, rfl⟩ := readHeaderLine_spec h
    rw [length_append, length_singleton]
    omega
  rw [readHeaderLines]
  split
  · next e rest' heq =>
      rw [h] at heq
      cases heq
  · next buffer' rest' heq =>
      rw [h] at heq
      cases heq
      rw [if_neg hlen]

theorem readHeaderLines_entries (frame : StompFrame) (todo : List (ByteString × ByteString))
    (hsorted : OrderedMap.Sorted (frame.properties.entries ++ todo))
    (hnames : ∀ e ∈ todo, ∀ c ∈ e.1, c ≠ 58 ∧ c ≠ 10 ∧ c ≠ 0) (hvalues : ∀ e ∈ todo, ∀ c ∈ e.2, c ≠ 10 ∧ c ≠ 0)
    (rest : List UInt8) :
    frame.readHeaderLines (todo.flatMap headerBytes ++ 10 :: rest)
      = .ok { frame with properties := ⟨frame.properties.entries ++ todo, hsorted⟩ } rest := by
  induction todo generalizing frame with
  | nil =>
    have hnil : ∀ c ∈ ([] : ByteString), c ≠ 10 := fun c hc => (not_mem_nil hc).elim
    have hline : readHeaderLine (10 :: rest) = .ok [0] rest := readHeaderLine_line hnil rest
    rw [flatMap_nil, nil_append, readHeaderLines_of_line frame hline, if_pos rfl]
    simp only [append_nil]
  | cons e todo ih =>
    obtain ⟨name, value⟩ := e
    have hname := hnames (name, value) mem_cons_self
    have hvalue := hvalues (name, value) mem_cons_self
    have hbelow : ∀ e' ∈ frame.properties.entries, e'.1 < name := by
      intro e' he'
      exact (pairwise_append.mp hsorted).2.2 e' he' (name, value) mem_cons_self
    have hnew : frame.properties.find name = none := by
      rw [eq_none_iff_forall_ne_some]
      intro v hv
      exact absurd (hbelow _ (OrderedMap.find_eq_some.mp hv)) (lt_irrefl _)
    have hentries : (frame.setProperty name value).properties.entries = frame.properties.entries ++ [(name, value)] :=
      OrderedMap.put_of_lt value hbelow
    have hline : readHeaderLine ((name ++ 58 :: value) ++ 10 :: (todo.flatMap headerBytes ++ 10 :: rest))
        = .ok ((name ++ 58 :: value) ++ [0]) (todo.flatMap headerBytes ++ 10 :: rest) := by
      refine readHeaderLine_line ?_ _
      intro c hc
      rcases mem_append.mp hc with hc | hc
      · exact (hname c hc).2.1
      · rcases mem_cons.mp hc with rfl | hc
        · decide
        · exact (hvalue c hc).1
    have hne : (name ++ 58 :: value) ++ [0] ≠ [0] := by
      intro heq
      have := congrArg List.length heq
      simp only [length_append, length_cons, length_nil] at this
      omega
    have hput : frame.putHeader ((name ++ 58 :: value) ++ [0]) = frame.setProperty name value := by
      rw [append_assoc, cons_append]
      exact frame.putHeader_line hname hvalue hnew
    have hsorted' : OrderedMap.Sorted ((frame.setProperty name value).properties.entries ++ todo) := by
      rw [hentries, append_assoc]
      exact hsorted
    have hrest := ih (frame.setProperty name value) hsorted'
      (fun e he => hnames e (mem_cons_of_mem _ he)) (fun e he => hvalues e (mem_cons_of_mem _ he))
    have hinput : ((name, value) :: todo).flatMap headerBytes ++ 10 :: rest
        = (name ++ 58 :: value) ++ 10 :: (todo.flatMap headerBytes ++ 10 :: rest) := by
      simp only [flatMap_cons, headerBytes, append_assoc, cons_append, nil_append]
    have hmap : (⟨(frame.setProperty name value).properties.entries ++ todo, hsorted'⟩ : OrderedMap _ _)
        = ⟨frame.properties.entries ++ (name, value) :: todo, hsorted⟩ := by
      rw [OrderedMap.mk.injEq, hentries, append_assoc]
      rfl
    rw [hinput, readHeaderLines_of_line frame hline, if_neg hne, hput, hrest, hmap]
    rfl

theorem readUntilNull_text (h : ∀ c ∈ text, c ≠ 0) (body : ByteString) (rest : List UInt8) :
    readUntilNull body (text ++ 0 :: rest) = .ok (body ++ text ++ [0]) rest := by
  induction text generalizing body with
  | nil =>
    rw [nil_append, readUntilNull, if_neg (by simp), append_nil]
  | cons c text ih =>
    rw [cons_append, readUntilNull, if_pos (h c mem_cons_self),
      ih fun d hd => h d (mem_cons_of_mem _ hd)]
    simp only [append_assoc, cons_append, nil_append]

theorem parses_readCounted {body : ByteString} (hlen : body.length < 2147483648) :
    Parses (readCounted body.length) (body ++ [0]) body := by
  have hfully : Parses (readFully (toInt32 body.length)) body body :=
    parses_readFully (toInt32_of_range (by omega) (by omega))
  unfold readCounted
  exact hfully.bind ((parses_readByte 0).bind_nil (Parses.pure body))

theorem toString_ne_nil (n : Nat) : Long.toString n ≠ [] := by
  rw [Long.toString, if_neg (by omega), Int.natAbs_natCast]
  exact Long.digits_ne_nil n

theorem parses_readBody (hwf : frame.WellFormed) (hfits : frame.Fits) (hne : frame.body ≠ [])
    (old : ByteString) : Parses { frame with body := old }.readBody (frame.body ++ frame.terminator) frame := by
  have hpos : frame.body.length ≠ 0 := by
    rwa [Ne, length_eq_zero_iff]
  rcases hwf.content with hlength | ⟨hnone, text, hbody, htext⟩
  · have hcontent : ({ frame with body := old } : StompFrame).contentLength = .ok frame.body.length := by
      simp only [contentLength, hasProperty, getProperty, hlength, isSome_some, if_true, getD_some,
        Integer.parseInt_toString hfits.body]
      rw [toUInt32_of_lt (by have := hfits.body; omega)]
    have hterm : frame.terminator = [0] := by
      rw [terminator, getProperty, hlength, getD_some, if_pos (.inr (toString_ne_nil _))]
    rw [hterm, readBody, hcontent]
    refine Parses.mapError ?_
    have hread : Parses (readContent frame.body.length) (frame.body ++ [0]) frame.body := by
      rw [readContent, if_pos hpos]
      exact parses_readCounted hfits.body
    exact hread.bind_nil (Parses.pure frame)
  · have hcontent : ({ frame with body := old } : StompFrame).contentLength = .ok 0 := by
      simp only [contentLength, hasProperty, hnone, isSome_none, Bool.false_eq_true, if_false]
    have hterm : frame.terminator = [] := by
      rw [terminator, getProperty, hnone, getD_none, if_neg]
      rintro (hzero | hnil)
      · exact hpos hzero
      · exact hnil rfl
    rw [hterm, append_nil, readBody, hcontent]
    refine Parses.mapError ?_
    have hread : Parses (readContent 0) frame.body frame.body := by
      intro rest
      rw [readContent, if_neg (by simp), hbody, append_assoc]
      exact readUntilNull_text htext [] rest
    exact hread.bind_nil (Parses.pure frame)

theorem parses_readBody_empty (hwf : frame.WellFormed) (hnil : frame.body = []) (old : ByteString) :
    Parses { frame with body := old }.readBody (frame.body ++ frame.terminator) { frame with body := [0] } := by
  have hcontent : ({ frame with body := old } : StompFrame).contentLength = .ok 0 := by
    rcases hwf.content with hlength | ⟨hnone, -⟩
    · have hzero := Integer.parseInt_toString (n := 0) (by decide)
      rw [hnil, length_nil] at hlength
      simp only [contentLength, hasProperty, getProperty, hlength, isSome_some, if_true, getD_some,
        hzero]
      rfl
    · simp only [contentLength, hasProperty, hnone, isSome_none, Bool.false_eq_true, if_false]
  have hterm : frame.terminator = [0] := by
    rw [terminator, hnil, if_pos (.inl length_nil)]
  rw [hnil, hterm, nil_append, readBody, hcontent]
  refine Parses.mapError ?_
  have hread : Parses (readContent 0) [0] [0] := by
    intro rest
    rw [readContent, if_neg (by simp)]
    rfl
  exact hread.bind_nil (Parses.pure _)

theorem fromStream_headers (hplain : frame.Plain) (blank : List UInt8)
    (hblank : blank = [] ∨ blank = [10]) (input : List UInt8) :
    fresh.fromStream (blank ++ (frame.command ++ 10 :: (frame.properties.entries.flatMap headerBytes ++ 10 :: input)))
      = mapError catchExceptionConvert { frame with body := [] }.readBody input := by
  have hcommand : Parses fresh.readCommandHeader (blank ++ (frame.command ++ [10])) { fresh with command := frame.command } := by
    refine Parses.mapError fun rest => ?_
    have hline := fresh.readCommandLine_command hplain.command_ne hplain.command_bytes hplain.command_head rest
    rcases hblank with rfl | rfl
    · rw [nil_append, append_assoc]
      exact hline
    · rw [append_assoc, append_assoc, singleton_append, readCommandLine_blank]
      exact hline
  have hheaders : Parses { fresh with command := frame.command }.readHeaders
      (frame.properties.entries.flatMap headerBytes ++ [10]) { frame with body := [] } := by
    refine Parses.mapError fun rest => ?_
    rw [append_assoc]
    exact readHeaderLines_entries { fresh with command := frame.command } frame.properties.entries
      frame.properties.sorted hplain.names hplain.values rest
  have hbytes : blank ++ (frame.command ++ 10 :: (frame.properties.entries.flatMap headerBytes ++ 10 :: input))
      = blank ++ (frame.command ++ [10]) ++ ((frame.properties.entries.flatMap headerBytes ++ [10]) ++ input) := by
    simp only [append_assoc, cons_append, nil_append]
  unfold fromStream mapError
  rw [hbytes, bind_ok (hcommand _), bind_ok (hheaders _)]

theorem parses_fromStream {result : StompFrame} (hplain : frame.Plain)
    (hbody : Parses { frame with body := [] }.readBody (frame.body ++ frame.terminator) result)
    (blank : List UInt8) (hblank : blank = [] ∨ blank = [10]) :
    Parses fresh.fromStream (blank ++ frame.bytes) result := by
  intro rest
  have hbytes : blank ++ frame.bytes ++ rest = blank ++ (frame.command ++ 10 ::
      (frame.properties.entries.flatMap headerBytes ++ 10 :: (frame.body ++ frame.terminator ++ rest))) := by
    simp only [bytes, append_assoc, cons_append]
  rw [hbytes, fromStream_headers hplain blank hblank]
  exact mapError_eq_ok.mpr (hbody rest)

def streamBytes (frames : List StompFrame) : List UInt8 := frames.flatMap fun frame => frame.bytes ++ [10]

theorem emits_writeFrames (h : ∀ frame ∈ frames, frame.Fits) : Emits (writeFrames frames) () (streamBytes frames) :=
  Emits.forM fun frame hframe => emits_toStream (h frame hframe)

theorem readsBack_bytes (hwf : ∀ frame ∈ frames, frame.WellFormed)
    (hfits : ∀ frame ∈ frames, frame.body ≠ [] ∧ frame.Fits) (blank : List UInt8) (hblank : blank = [] ∨ blank = [10]) :
    ReadsBack frames (blank ++ streamBytes frames) := by
  induction frames generalizing blank with
  | nil => trivial
  | cons frame frames ih =>
    have hframe := hfits frame mem_cons_self
    have hrest : ∀ other ∈ frames, other.Fits := fun other h => (hfits other (mem_cons_of_mem _ h)).2
    have hwfFrame := hwf frame mem_cons_self
    have hread := parses_fromStream hwfFrame.plain (parses_readBody hwfFrame hframe.2 hframe.1 []) blank hblank
      (10 :: streamBytes frames)
    refine ⟨10 :: streamBytes frames, streamBytes frames, ?_, emits_writeFrames hrest [], .inr rfl, ?_⟩
    · rw [← hread]
      simp only [streamBytes, flatMap_cons, append_assoc, cons_append, nil_append]
    · exact ih (fun other h => hwf other (mem_cons_of_mem _ h))
        (fun other h => hfits other (mem_cons_of_mem _ h)) [10] (.inr rfl)

end Read

section Length

variable {frame : StompFrame} {input rest : List UInt8}
variable {n : Int} {frame' : StompFrame} {body : ByteString} {length : Nat}

/-- The number of bytes that a call of `writeString` writes. -/
def kept (bytes : ByteString) : Int := toInt32 bytes.length

def headerSize (header : ByteString × ByteString) : Nat := header.1.length + header.2.length + 2

/-- What a frame takes in the stream at least. -/
def size (frame : StompFrame) : Nat :=
  frame.command.length + 1 + (frame.properties.entries.map headerSize).sum + 1 + frame.body.length

/-- The program writes the same bytes whatever was written before, and this many. -/
def Writes (m : DataOut Unit) (n : Int) : Prop :=
  ∀ out out', m out = .ok () out' → ∃ bytes, Emits m () bytes ∧ (bytes.length : Int) = n

theorem Writes.bind {m m' : DataOut Unit} {n' : Int} (h : Writes m n) (h' : Writes m' n') :
    Writes (m >>= fun _ => m') (n + n') := by
  intro out out' hrun
  obtain ⟨⟨⟩, mid, hm, hm'⟩ := bind_eq_ok.mp hrun
  obtain ⟨bytes, hemits, hlen⟩ := h _ _ hm
  obtain ⟨bytes', hemits', hlen'⟩ := h' _ _ hm'
  refine ⟨bytes ++ bytes', hemits.bind hemits', ?_⟩
  rw [length_append, Nat.cast_add, hlen, hlen']

theorem writes_byte (b : UInt8) : Writes (DataOutputStream.put [b]) 1 :=
  fun _ _ _ => ⟨[b], emits_put [b], rfl⟩

theorem writes_pure : Writes (pure ()) 0 := fun _ _ _ => ⟨[], Emits.pure (), rfl⟩

theorem writes_writeString (bytes : ByteString) : Writes (writeString bytes) (kept bytes) := by
  intro out out' hrun
  have hle : toInt32 bytes.length ≤ bytes.length := by
    unfold toInt32
    omega
  by_cases hzero : toInt32 bytes.length = 0
  · refine ⟨[], ?_, by rw [kept, hzero]; rfl⟩
    rw [writeString, DataOutputStream.write, if_pos hzero]
    exact Emits.pure ()
  · by_cases hneg : toInt32 bytes.length < 0
    · rw [writeString, DataOutputStream.write, if_neg hzero, if_pos hneg] at hrun
      cases hrun
    · refine ⟨bytes.take (toInt32 bytes.length).toNat, ?_, ?_⟩
      · rw [writeString, DataOutputStream.write, if_neg hzero, if_neg hneg, if_neg (by omega), if_neg (by omega),
          if_neg (by omega)]
        exact emits_put _
      · rw [kept, length_take, Nat.min_eq_left (by omega)]
        omega

def keptHeader (header : ByteString × ByteString) : Int := kept header.1 + (1 + (kept header.2 + 1))

theorem writes_writeHeader (header : ByteString × ByteString) : Writes (writeHeader header) (keptHeader header) := by
  unfold writeHeader keptHeader
  exact (writes_writeString _).bind ((writes_byte 58).bind ((writes_writeString _).bind (writes_byte 10)))

theorem Writes.forM {α : Type} {f : α → DataOut Unit} {g : α → Int} (h : ∀ x, Writes (f x) (g x)) (xs : List α) :
    Writes (xs.forM f) (xs.map g).sum := by
  induction xs with
  | nil => exact writes_pure
  | cons x xs ih =>
    rw [map_cons, sum_cons]
    exact (h x).bind ih

/-- What `toStream` writes, with every length cut to an `int`. -/
def written (frame : StompFrame) : Int :=
  kept frame.command + (1 + ((frame.properties.entries.map keptHeader).sum + (1 + (kept frame.body +
    (frame.terminator.length + 1)))))

theorem writes_toStream (frame : StompFrame) : Writes frame.toStream frame.written := by
  have hbody : Writes frame.writeBody (kept frame.body) := by
    rw [writeBody]
    split_ifs with hpos
    · exact writes_writeString _
    · have hnil := eq_nil_of_length_eq_zero (Nat.eq_zero_of_not_pos hpos)
      rw [hnil]
      exact writes_pure
  have hterm : Writes frame.writeTerminator frame.terminator.length := by
    rw [writeTerminator, terminator]
    split_ifs
    · exact writes_byte 0
    · exact writes_pure
  have hheaders := Writes.forM writes_writeHeader frame.properties.entries
  unfold toStream written
  exact (writes_writeString _).bind ((writes_byte 10).bind (hheaders.bind
    ((writes_byte 10).bind (hbody.bind (hterm.bind (writes_byte 10))))))

theorem kept_le (bytes : ByteString) : kept bytes ≤ bytes.length := by
  unfold kept toInt32
  omega

theorem kept_lt {bytes : ByteString} (h : ¬bytes.length < 2147483648) : kept bytes + 4294967296 ≤ bytes.length := by
  unfold kept toInt32
  omega

theorem keptHeader_le (header : ByteString × ByteString) : keptHeader header ≤ headerSize header := by
  have hname := kept_le header.1
  have hvalue := kept_le header.2
  unfold keptHeader headerSize
  omega

theorem sum_keptHeader_le (headers : List (ByteString × ByteString)) :
    (headers.map keptHeader).sum ≤ (headers.map headerSize).sum := by
  induction headers with
  | nil => exact le_refl _
  | cons e headers ih =>
    have hhead := keptHeader_le e
    rw [map_cons, sum_cons, map_cons, sum_cons]
    omega

theorem sum_keptHeader_lt {headers : List (ByteString × ByteString)} {e : ByteString × ByteString} (he : e ∈ headers)
    (h : ¬e.1.length < 2147483648 ∨ ¬e.2.length < 2147483648) :
    (headers.map keptHeader).sum + 4294967296 ≤ (headers.map headerSize).sum := by
  induction headers with
  | nil => cases he
  | cons e' headers ih =>
    rw [map_cons, sum_cons, map_cons, sum_cons]
    rcases mem_cons.mp he with rfl | hmem
    · have htail := sum_keptHeader_le headers
      have hname := kept_le e.1
      have hvalue := kept_le e.2
      have hcut : kept e.1 + kept e.2 + 4294967296 ≤ e.1.length + e.2.length := by
        rcases h with h | h
        · have := kept_lt h
          omega
        · have := kept_lt h
          omega
      unfold keptHeader headerSize at *
      omega
    · have hhead := keptHeader_le e'
      have htail := ih hmem
      omega

theorem written_lt (h : ¬frame.Fits) : frame.written + 4294967296 ≤ frame.size + 2 := by
  have hterm : frame.terminator.length ≤ 1 := by
    rw [terminator]
    split_ifs
    · exact le_refl 1
    · exact Nat.zero_le 1
  have hcommand := kept_le frame.command
  have hheaders := sum_keptHeader_le frame.properties.entries
  have hbody := kept_le frame.body
  unfold written size
  by_cases hc : frame.command.length < 2147483648
  · by_cases hb : frame.body.length < 2147483648
    · have hbad : ∃ e ∈ frame.properties.entries, ¬e.1.length < 2147483648 ∨ ¬e.2.length < 2147483648 := by
        by_contra hall
        push Not at hall
        exact h ⟨hc, fun e he => (hall e he).1, fun e he => (hall e he).2, hb⟩
      obtain ⟨e, he, hlong⟩ := hbad
      have := sum_keptHeader_lt he hlong
      omega
    · have := kept_lt hb
      omega
  · have := kept_lt hc
    omega

theorem length_cString_le {buffer : ByteString} {n : Nat} (h : buffer[n]? = some 0) : (cString buffer).length ≤ n := by
  induction buffer generalizing n with
  | nil => cases h
  | cons c buffer ih =>
    rw [cString, takeWhile_cons]
    cases n with
    | zero =>
      rw [List.getElem?_cons_zero, Option.some.injEq] at h
      simp [h]
    | succ n =>
      rw [List.getElem?_cons_succ] at h
      split_ifs
      · exact Nat.succ_le_succ (ih h)
      · exact Nat.zero_le _

theorem readCommandLine_size (h : frame.readCommandLine input = .ok frame' rest) :
    frame'.command.length + 1 + rest.length ≤ input.length ∧ frame'.properties = frame.properties := by
  induction hn : input.length using Nat.strong_induction_on generalizing input with
  | _ n ih =>
    subst hn
    rw [readCommandLine] at h
    split at h
    · cases h
    · next buffer rest' hline =>
        obtain ⟨hlen, init, rfl⟩ := readHeaderLine_spec hline
        split at h
        · next offset hoffset =>
            cases h
            have hlt : offset < init.length := by
              rw [dropLast_concat] at hoffset
              exact (List.findIdx?_eq_some_iff_getElem.mp hoffset).1
            have hnull : ((init ++ [0]).drop offset)[init.length - offset]? = some 0 := by
              rw [List.getElem?_drop, show offset + (init.length - offset) = init.length by omega]
              exact List.getElem?_concat_length
            have hcommand := length_cString_le hnull
            rw [length_append, length_singleton] at hlen
            exact ⟨by simp only; omega, rfl⟩
        · obtain ⟨hsize, hprops⟩ := ih rest'.length (readHeaderLine_lt hline) h rfl
          exact ⟨by have := readHeaderLine_lt hline; omega, hprops⟩

theorem putHeader_size (frame : StompFrame) (init : ByteString) :
    ((frame.putHeader (init ++ [0])).properties.entries.map headerSize).sum
        ≤ (frame.properties.entries.map headerSize).sum + (init ++ [0]).length ∧
      (frame.putHeader (init ++ [0])).command = frame.command := by
  rw [putHeader]
  split
  · exact ⟨Nat.le_add_right _ _, rfl⟩
  · next ix hix =>
      obtain ⟨hlt, hcolon, -⟩ := List.findIdx?_eq_some_iff_getElem.mp hix
      have hne : ix ≠ init.length := by
        rintro rfl
        simp at hcolon
      rw [length_append, length_singleton] at hlt
      have hkey : (cString ((init ++ [0]).set ix 0)).length ≤ ix := by
        refine length_cString_le ?_
        rw [List.getElem?_set_self (by rw [length_append, length_singleton]; omega)]
      have hvalue : (cString (((init ++ [0]).set ix 0).drop (ix + 1))).length ≤ init.length - (ix + 1) := by
        refine length_cString_le ?_
        rw [List.getElem?_drop, show ix + 1 + (init.length - (ix + 1)) = init.length by omega,
          List.getElem?_set_ne hne]
        exact List.getElem?_concat_length
      simp only
      split_ifs
      · exact ⟨Nat.le_add_right _ _, rfl⟩
      · have hput := OrderedMap.sum_map_put_le headerSize (cString ((init ++ [0]).set ix 0))
          (cString (((init ++ [0]).set ix 0).drop (ix + 1))) frame.properties.entries
        refine ⟨le_trans hput ?_, rfl⟩
        simp only [length_append, length_singleton, headerSize]
        omega

theorem readHeaderLines_size (h : frame.readHeaderLines input = .ok frame' rest) :
    (frame'.properties.entries.map headerSize).sum + 1 + rest.length
        ≤ (frame.properties.entries.map headerSize).sum + input.length ∧ frame'.command = frame.command := by
  induction hn : input.length using Nat.strong_induction_on generalizing frame input with
  | _ n ih =>
    subst hn
    rw [readHeaderLines] at h
    split at h
    · cases h
    · next buffer rest' hline =>
        obtain ⟨hlen, init, rfl⟩ := readHeaderLine_spec hline
        split_ifs at h with hzero hend
        · cases h
          rw [length_append, length_singleton] at hlen
          exact ⟨by omega, rfl⟩
        · obtain ⟨hput, hcommand⟩ := frame.putHeader_size init
          obtain ⟨hsize, hcommand'⟩ := ih rest'.length (readHeaderLine_lt hline) h rfl
          exact ⟨by omega, hcommand'.trans hcommand⟩

theorem readUntilNull_size {body' : ByteString} (h : readUntilNull body input = .ok body' rest) :
    body'.length + rest.length = body.length + input.length ∧ body' ≠ [] := by
  induction input generalizing body with
  | nil => cases h
  | cons c input ih =>
    rw [readUntilNull] at h
    split_ifs at h with hc
    · obtain ⟨hsize, hne⟩ := ih h
      simp only [length_append, length_cons, length_nil] at hsize ⊢
      exact ⟨by omega, hne⟩
    · cases h
      simp only [length_append, length_cons, length_nil]
      exact ⟨by omega, concat_ne_nil _ _⟩

theorem readFully_size {body : List UInt8} (h : readFully n input = .ok body rest) (hn : n ≠ 0) :
    body.length + rest.length = input.length ∧ body ≠ [] := by
  rw [readFully, if_neg hn] at h
  split_ifs at h with hneg hle
  cases h
  rw [length_take, length_drop]
  refine ⟨by omega, ?_⟩
  intro hnil
  have := congrArg List.length hnil
  rw [length_take, length_nil] at this
  omega

theorem readByte_size {b : UInt8} (h : readByte input = .ok b rest) : rest.length ≤ input.length := by
  obtain ⟨buffer, mid, hread, hpure⟩ := bind_eq_ok.mp h
  cases hpure
  rw [readAllData] at hread
  split_ifs at hread
  cases hread
  rw [length_drop]
  omega

theorem readContent_size (hlength : length < 4294967296)
    (h : readContent length input = .ok body rest) : body.length + rest.length ≤ input.length ∧ body ≠ [] := by
  rw [readContent] at h
  split_ifs at h with hzero
  · obtain ⟨body', mid, hfully, hend⟩ := bind_eq_ok.mp h
    obtain ⟨b, rest', hbyte, hreturn⟩ := bind_eq_ok.mp hend
    obtain ⟨hsize, hne⟩ := readFully_size hfully (by unfold toInt32; omega)
    have hle := readByte_size hbyte
    split_ifs at hreturn with hb
    · cases hreturn
    · cases hreturn
      exact ⟨by omega, hne⟩
  · obtain ⟨hsize, hne⟩ := readUntilNull_size h
    rw [length_nil] at hsize
    exact ⟨by omega, hne⟩

theorem contentLength_lt (h : frame.contentLength = .ok length) : length < 4294967296 := by
  rw [contentLength] at h
  split_ifs at h
  · split at h
    · cases h
      unfold toUInt32
      omega
    · cases h
  · cases h
    decide

theorem readBody_eq_ok {result : StompFrame} :
    frame.readBody input = .ok result rest ↔ ∃ length, frame.contentLength = .ok length ∧
      ∃ body, readContent length input = .ok body rest ∧ result = { frame with body := body } := by
  refine mapError_eq_ok.trans ?_
  cases frame.contentLength with
  | error e =>
    constructor
    · rintro ⟨⟩
    · rintro ⟨length, ⟨⟩, -⟩
  | ok length =>
    constructor
    · intro hrun
      obtain ⟨body, rest', hcontent, hreturn⟩ := bind_eq_ok.mp hrun
      cases hreturn
      exact ⟨length, rfl, body, hcontent, rfl⟩
    · rintro ⟨length, ⟨⟩, body, hcontent, rfl⟩
      exact bind_ok hcontent

theorem fromStream_size (h : fresh.fromStream input = .ok frame rest) :
    frame.size + rest.length ≤ input.length ∧ frame.body ≠ [] := by
  obtain ⟨withCommand, afterCommand, hcommand, hmore⟩ := bind_eq_ok.mp (mapError_eq_ok.mp h)
  obtain ⟨withHeaders, afterHeaders, hheaders, hbody⟩ := bind_eq_ok.mp hmore
  obtain ⟨hcommandSize, hprops⟩ := readCommandLine_size (mapError_eq_ok.mp hcommand)
  obtain ⟨hheadersSize, hkept⟩ := readHeaderLines_size (mapError_eq_ok.mp hheaders)
  obtain ⟨length, hlength, body, hcontent, rfl⟩ := readBody_eq_ok.mp hbody
  obtain ⟨hbodySize, hne⟩ := readContent_size (contentLength_lt hlength) hcontent
  rw [hprops, show (fresh.properties.entries.map headerSize).sum = 0 from rfl] at hheadersSize
  rw [← hkept] at hcommandSize
  exact ⟨by simp only [size]; omega, hne⟩

end Length

theorem fits_of_readsBack {frames : List StompFrame} {bytes input : List UInt8}
    (hwrite : writeFrames frames [] = .ok () bytes) (hinput : input = bytes ∨ input = 10 :: bytes)
    (hread : ReadsBack frames input) : ∀ frame ∈ frames, frame.body ≠ [] ∧ frame.Fits := by
  induction frames generalizing bytes input with
  | nil => simp
  | cons frame frames ih =>
    obtain ⟨rest, tail, hfrom, htail, hrest, hreads⟩ := hread
    obtain ⟨hsize, hne⟩ := fromStream_size hfrom
    obtain ⟨mid, hfirst, hothers⟩ := forM_cons_eq_ok.mp hwrite
    obtain ⟨frameBytes, hemits, hlength⟩ := frame.writes_toStream _ _ hfirst
    obtain ⟨otherBytes, hemitsOthers, -⟩ := Writes.forM writes_toStream frames _ _ hothers
    have hbytes : bytes = frameBytes ++ otherBytes := by
      have hmid := (hemits []).symm.trans hfirst
      cases hmid
      have hend := (hemitsOthers ([] ++ frameBytes)).symm.trans hothers
      cases hend
      rfl
    have hothersEq : otherBytes = tail := by
      have htail' := (hemitsOthers []).symm.trans htail
      cases htail'
      rfl
    have hfits : frame.Fits := by
      by_contra hbad
      have hlost := written_lt hbad
      have hlen : input.length ≤ frameBytes.length + tail.length + 1 := by
        rcases hinput with rfl | rfl <;> rw [hbytes, hothersEq] <;>
          simp only [length_append, length_cons] <;> omega
      have hrestLen : tail.length ≤ rest.length := by
        rcases hrest with rfl | rfl
        · exact le_refl _
        · exact Nat.le_succ _
      omega
    intro other hother
    rcases mem_cons.mp hother with rfl | hmem
    · exact ⟨hne, hfits⟩
    · exact ih htail hrest hreads other hmem

/-- Frames are read back as they were written exactly when none of them has an empty body or something
longer than an `int` can count. -/
theorem recovers_iff (frames : List StompFrame) (hwf : ∀ frame ∈ frames, frame.WellFormed) :
    Recovers frames ↔ ∀ frame ∈ frames, frame.body ≠ [] ∧ frame.Fits := by
  constructor
  · rintro ⟨bytes, hwrite, hread⟩
    exact fits_of_readsBack hwrite (.inl rfl) hread
  · intro h
    exact ⟨streamBytes frames, emits_writeFrames (fun frame hframe => (h frame hframe).2) [],
      readsBack_bytes hwf h [] (.inl rfl)⟩

/-- A bytes message with the given body, as `marshalMessage` builds it, less its other headers. -/
def sendBytes (body : ByteString) : StompFrame where
  command := ascii "SEND"
  properties := OrderedMap.empty.insert headerContentLength (Long.toString body.length)
  body := body

/-- A text message, as `marshalMessage` builds it, with a colon in the value of a header. -/
def sendText (text : ByteString) : StompFrame where
  command := ascii "SEND"
  properties := OrderedMap.empty.insert (ascii "destination") (ascii "/queue/a:b")
  body := text ++ [0]

theorem wellFormed_sendBytes (body : ByteString) : (sendBytes body).WellFormed where
  command_ne := show ascii "SEND" ≠ [] by decide
  command_bytes := show ∀ c ∈ ascii "SEND", c ≠ 10 ∧ c ≠ 0 by decide
  command_head := show ∀ c ∈ (ascii "SEND").head?, Character.isWhitespace c = false by decide
  names := by
    intro e he
    rw [mem_singleton.mp he]
    show ∀ c ∈ headerContentLength, c ≠ 58 ∧ c ≠ 10 ∧ c ≠ 0
    decide
  values := by
    intro e he c hc
    rw [mem_singleton.mp he] at hc
    have hdigit := Long.mem_digits (n := body.length) (c := c) (by
      rwa [Long.toString, if_neg (by omega), Int.natAbs_natCast] at hc)
    constructor
    · rintro rfl
      exact absurd hdigit.1 (by decide)
    · rintro rfl
      exact absurd hdigit.1 (by decide)
  content := .inl (by rw [sendBytes, OrderedMap.find_insert, if_pos rfl])

theorem wellFormed_sendText {text : ByteString} (h : ∀ c ∈ text, c ≠ 0) : (sendText text).WellFormed where
  command_ne := show ascii "SEND" ≠ [] by decide
  command_bytes := show ∀ c ∈ ascii "SEND", c ≠ 10 ∧ c ≠ 0 by decide
  command_head := show ∀ c ∈ (ascii "SEND").head?, Character.isWhitespace c = false by decide
  names := by
    intro e he
    rw [mem_singleton.mp he]
    show ∀ c ∈ ascii "destination", c ≠ 58 ∧ c ≠ 10 ∧ c ≠ 0
    decide
  values := by
    intro e he
    rw [mem_singleton.mp he]
    show ∀ c ∈ ascii "/queue/a:b", c ≠ 10 ∧ c ≠ 0
    decide
  content := .inr ⟨by rw [sendText, OrderedMap.find_insert, if_neg (by decide)]; rfl, text, rfl, h⟩

theorem fits_sendBytes {body : ByteString} (h : body.length < 2147483648) : (sendBytes body).Fits where
  command := show (ascii "SEND").length < 2147483648 by decide
  names := by
    intro e he
    rw [mem_singleton.mp he]
    show headerContentLength.length < 2147483648
    decide
  values := by
    intro e he
    have hlen := Long.length_digits_le body.length
    rw [mem_singleton.mp he]
    simp only [Long.toString, if_neg (show ¬(body.length : Int) < 0 by omega), Int.natAbs_natCast]
    omega
  body := h

/-- A text and a body that holds a NUL, one after the other. -/
theorem recovers_text_then_bytes :
    (∀ frame ∈ [sendText (ascii "hi"), sendBytes [0, 1]], frame.WellFormed) ∧
      Recovers [sendText (ascii "hi"), sendBytes [0, 1]] := by
  have hwf : ∀ frame ∈ [sendText (ascii "hi"), sendBytes [0, 1]], frame.WellFormed := by
    intro frame hframe
    rcases mem_cons.mp hframe with rfl | hframe
    · exact wellFormed_sendText (by decide)
    · rw [mem_singleton.mp hframe]
      exact wellFormed_sendBytes _
  refine ⟨hwf, (recovers_iff _ hwf).mpr ?_⟩
  intro frame hframe
  rcases mem_cons.mp hframe with rfl | hframe
  · exact ⟨by decide, by decide, by decide, by decide, by decide⟩
  · rw [mem_singleton.mp hframe]
    exact ⟨by decide, fits_sendBytes (by decide)⟩

/-- A bytes message with an empty body is read back with a NUL in its body. -/
theorem empty_body_not_recovered :
    (sendBytes []).WellFormed ∧ ¬ Recovers [sendBytes []] ∧
      fresh.fromStream ((sendBytes []).bytes ++ [10]) = .ok { sendBytes [] with body := [0] } [10] := by
  refine ⟨wellFormed_sendBytes [], ?_, ?_⟩
  · rintro ⟨bytes, hwrite, hread⟩
    exact (fits_of_readsBack hwrite (.inl rfl) hread _ (mem_singleton.mpr rfl)).1 rfl
  · exact parses_fromStream (wellFormed_sendBytes []).plain (parses_readBody_empty (wellFormed_sendBytes []) rfl [])
      [] (.inl rfl) [10]

end StompFrame

end ActiveMQCpp.Stomp
