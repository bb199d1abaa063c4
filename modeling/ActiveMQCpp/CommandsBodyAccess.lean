import ActiveMQCpp.CommandsClone

/-! Reading the body of a bytes message that was written and reset: its length, the whole of it, typed values and
buffers of any size. The abstract reader has the body and a position, which the whole body and its length leave alone. -/

namespace ActiveMQCpp.Commands

open Codec Bytes MachineInt Decaf Recorder BytesWrite Connection DataInputStream DataOutputStream

/-- A value that is written and read by functions that match. -/
inductive BytesValue where
  | boolean (value : Bool)
  | byte (value : UInt8)
  | char (value : UInt8)
  | short (value : BitVec 16)
  | unsignedShort (value : BitVec 16)
  | int (value : BitVec 32)
  | long (value : BitVec 64)
  | float (bits : BitVec 32)
  | double (bits : BitVec 64)
  | utf (value : ByteString)
  deriving DecidableEq

inductive BodyOp where
  | boolean | byte | char | short | unsignedShort | int | long | float | double | utf
  | bytes (length : Nat)
  | bodyBytes
  | bodyLength
  deriving DecidableEq

inductive BodyResult where
  | value (v : BytesValue)
  | piece (result : Int) (bytes : ByteString)
  | body (array : Option (List (Option UInt8)))
  | length (length : Int)
  | failed (e : Failure)
  deriving DecidableEq

namespace BytesValue

def write : BytesValue → BytesWrite
  | boolean value => .boolean value
  | byte value => .byte value
  | char value => .char value
  | short value => .short value
  | unsignedShort value => .unsignedShort value
  | int value => .int value
  | long value => .long value
  | float bits => .float bits
  | double bits => .double bits
  | utf value => .utf value

def op : BytesValue → BodyOp
  | boolean _ => .boolean
  | byte _ => .byte
  | char _ => .char
  | short _ => .short
  | unsignedShort _ => .unsignedShort
  | int _ => .int
  | long _ => .long
  | float _ => .float
  | double _ => .double
  | utf _ => .utf

def encoding (v : BytesValue) : List UInt8 := v.write.output

end BytesValue

/-! ### The abstract reader -/

namespace Body

inductive Step (body : ByteString) : Nat → BodyOp → BodyResult → Nat → Prop
  | value {position : Nat} {v : BytesValue} {rest : List UInt8} (haccepted : v.write.Accepted)
      (hnext : body.drop position = v.encoding ++ rest) :
      Step body position v.op (.value v) (position + v.encoding.length)
  | bytes {position length : Nat} (hlength : length < 2147483648) :
      Step body position (.bytes length)
        (.piece (if ((body.drop position).take length).length = 0 ∧ length > 0 then -1
            else ((body.drop position).take length).length) ((body.drop position).take length))
        (position + ((body.drop position).take length).length)
  | bodyBytes {position : Nat} :
      Step body position .bodyBytes (.body (if body = [] then none else some (body.map some))) position
  | bodyLength {position : Nat} : Step body position .bodyLength (.length body.length) position

/-- What a read takes from the stream below: `getBodyBytes` takes it from where the reads have left it. -/
def Orderly (body : ByteString) (op : BodyOp) (position taken : Nat) : Prop :=
  match op with
  | .bodyBytes => body = [] ∨ taken = 0
  | .bodyLength => True
  | _ => taken = position

def leaves (body : ByteString) (op : BodyOp) (position taken : Nat) : Nat :=
  match op with
  | .bodyBytes => body.length
  | .bodyLength => taken
  | _ => position

/-- Reads of which each is orderly: the whole body is asked for before anything is read from it, and behind that
nothing is read any more, unless the body is empty. -/
inductive Run (body : ByteString) : Nat → Nat → List BodyOp → List BodyResult → Prop
  | nil {position taken : Nat} : Run body position taken [] []
  | cons {position taken position' : Nat} {op : BodyOp} {result : BodyResult} {ops : List BodyOp}
      {results : List BodyResult} (hstep : Step body position op result position')
      (horderly : Orderly body op position taken) (hrun : Run body position' (leaves body op position' taken) ops results) :
      Run body position taken (op :: ops) (result :: results)

end Body

/-! ### The reads of the message -/

def BodyResult.ofCall {Z : Zip} {α : Type} (f : α → BodyResult) :
    EStateM.Result Failure (BytesMessage Z) α → BodyResult × BytesMessage Z
  | .ok a m => (f a, m)
  | .error e m => (.failed e, m)

def BodyOp.run {Z : Zip} : BodyOp → BytesMessage Z → BodyResult × BytesMessage Z
  | .boolean, m => BodyResult.ofCall (fun b => .value (.boolean b)) (BytesMessage.readBoolean m)
  | .byte, m => BodyResult.ofCall (fun b => .value (.byte b)) (BytesMessage.readByte m)
  | .char, m => BodyResult.ofCall (fun c => .value (.char c)) (BytesMessage.readChar m)
  | .short, m => BodyResult.ofCall (fun v => .value (.short v)) (BytesMessage.readShort m)
  | .unsignedShort, m => BodyResult.ofCall (fun v => .value (.unsignedShort v)) (BytesMessage.readUnsignedShort m)
  | .int, m => BodyResult.ofCall (fun v => .value (.int v)) (BytesMessage.readInt m)
  | .long, m => BodyResult.ofCall (fun v => .value (.long v)) (BytesMessage.readLong m)
  | .float, m => BodyResult.ofCall (fun v => .value (.float v)) (BytesMessage.readFloat m)
  | .double, m => BodyResult.ofCall (fun v => .value (.double v)) (BytesMessage.readDouble m)
  | .utf, m => BodyResult.ofCall (fun s => .value (.utf s)) (BytesMessage.readUTF m)
  | .bytes length, m => BodyResult.ofCall (fun r => .piece r.1 r.2) (BytesMessage.readBytes length m)
  | .bodyBytes, m => BodyResult.ofCall .body (BytesMessage.getBodyBytes m)
  | .bodyLength, m => BodyResult.ofCall .length (BytesMessage.getBodyLength m)

def BodyOp.runAll {Z : Zip} : List BodyOp → BytesMessage Z → List BodyResult
  | [], _ => []
  | op :: ops, m => (op.run m).1 :: runAll ops (op.run m).2

namespace BytesMessage

variable {Z : Zip} {body : ByteString} {taken : Nat} {m : BytesMessage Z}

def Reads (body : ByteString) (taken : Nat) (m : BytesMessage Z) : Prop :=
  ∃ m' : BytesMessage Z, initializeReading m = .ok () m' ∧ m'.readOnlyBody = true ∧
    m'.dataIn = some (some (body.drop taken)) ∧ m'.length = body.length

theorem initializeReading_opened {m : BytesMessage Z} {input : List UInt8} (hread : m.readOnlyBody = true)
    (hin : m.dataIn = some (some input)) : initializeReading m = .ok () m := by
  rw [initializeReading, bind_ok (get_run _), if_neg (by simp [hread]), if_neg (by rw [hin]; exact Option.some_ne_none _)]
  rfl

theorem Reads.reading {α : Type} {read : DataIn α} (h : Reads body taken m) {a : α} {taken' : Nat}
    (hread : read (body.drop taken) = .ok a (body.drop taken')) :
    ∃ m', BytesMessage.reading read m = .ok a m' ∧ Reads body taken' m' := by
  obtain ⟨m', hinit, hreadOnly, hin, hlength⟩ := h
  refine ⟨{ m' with dataIn := some (some (body.drop taken')) }, ?_, _, initializeReading_opened hreadOnly rfl,
    hreadOnly, rfl, hlength⟩
  unfold BytesMessage.reading
  refine (bind_ok hinit).trans ?_
  simp only [hin, hread]

theorem Reads.getBodyLength (h : Reads body taken m) :
    ∃ m', BytesMessage.getBodyLength m = .ok (body.length : Int) m' ∧ Reads body taken m' := by
  obtain ⟨m', hinit, hreadOnly, hin, hlength⟩ := h
  refine ⟨m', ?_, m', initializeReading_opened hreadOnly hin, hreadOnly, hin, hlength⟩
  rw [BytesMessage.getBodyLength, bind_ok hinit, bind_ok (get_run _), hlength]
  rfl

theorem Reads.readBytes (h : Reads body taken m) (length : Nat) : ∃ m', BytesMessage.readBytes length m
        = .ok (if ((body.drop taken).take length).length = 0 ∧ length > 0 then -1
            else ((body.drop taken).take length).length, (body.drop taken).take length) m' ∧
      Reads body (taken + ((body.drop taken).take length).length) m' := by
  have hrest : (body.drop taken).drop length = body.drop (taken + ((body.drop taken).take length).length) := by
    rw [List.drop_drop, List.length_take, List.length_drop]
    by_cases hshort : length ≤ body.length - taken
    · rw [Nat.min_eq_left hshort]
    · rw [List.drop_of_length_le (by omega), List.drop_of_length_le (by omega)]
  exact h.reading (by rw [hrest])

theorem Reads.getBodyBytes (h : Reads body taken m) (horderly : body = [] ∨ taken = 0) :
    ∃ m', BytesMessage.getBodyBytes m = .ok (if body = [] then none else some (body.map some)) m' ∧
      Reads body body.length m' := by
  have hfirst : ∃ m', initializeReading m = .ok () m' ∧ Reads body taken m' := by
    obtain ⟨m', hinit, hreadOnly, hin, hlength⟩ := h
    exact ⟨m', hinit, m', initializeReading_opened hreadOnly hin, hreadOnly, hin, hlength⟩
  obtain ⟨m₁, hinit, h₁⟩ := hfirst
  obtain ⟨m₂, hlength, h₂⟩ := h₁.getBodyLength
  unfold BytesMessage.getBodyBytes mapError
  rw [bind_ok hinit, bind_ok hlength]
  by_cases hnil : body = []
  · subst hnil
    rw [if_pos (by rfl), if_pos rfl]
    refine ⟨m₂, rfl, ?_⟩
    obtain ⟨m', hinit', hreadOnly, hin, hlength'⟩ := h₂
    exact ⟨m', hinit', hreadOnly, by rw [hin, List.drop_nil, List.drop_nil], hlength'⟩
  · obtain rfl : taken = 0 := horderly.resolve_left hnil
    have hpos := List.length_pos_iff.mpr hnil
    obtain ⟨m₃, hread, h₃⟩ := h₂.readBytes body.length
    rw [List.drop_zero, List.take_length] at hread h₃
    rw [if_neg (by omega), if_neg (by omega), if_neg hnil, Int.toNat_natCast, bind_ok hread]
    refine ⟨m₃, ?_, by rwa [Nat.zero_add] at h₃⟩
    simp only [Nat.sub_self, List.replicate_zero, List.append_nil]
    rfl

end BytesMessage

/-! ### One step -/

section Steps

variable {Z : Zip} {body : ByteString} {m : BytesMessage Z}
variable {position : Nat}
variable {value : ByteString} {taken : Nat}

theorem output_of_emits {w : BytesWrite} {program : DataOut Unit} {bytes : List UInt8} (hw : w.program = [program])
    (h : Emits program () bytes) : w.output = bytes := by
  rw [output, outputs, hw, List.map_singleton, h []]
  exact List.append_nil _

theorem utf_accepted (h : (utf value).Accepted) : utfLength value < 65536 := by
  by_contra hlong
  have hcount := countUTFLength_eq value
  have hbytes := length_utfBytes value
  unfold BytesWrite.Accepted program writeUTFCalls at h
  by_cases hbig : countUTFLength value > 65535
  · simp only [if_pos hbig] at h
    obtain ⟨emitted, hthrow⟩ := h _ List.mem_cons_self
    cases hthrow
  · have hover : (utfBytes value).length > countUTFLength value := by
      rw [hbytes, hcount] at *
      unfold toUInt32 at *
      omega
    simp only [if_neg hbig, if_pos hover] at h
    obtain ⟨emitted, hthrow⟩ := h _ List.mem_cons_self
    cases hthrow

theorem output_utf (h : utfLength value < 65536) : (utf value).output
      = bytesBE (BitVec.ofNat 16 (utfLength value)) 2 ++ utfBytes value := by
  have hbytes := length_utfBytes value
  have hshort := emits_writeUnsignedShort (BitVec.ofNat 16 (utfLength value))
  unfold output outputs program writeUTFCalls
  simp only [countUTFLength_of_lt h]
  rw [if_neg (by omega), if_neg (by omega), List.map_cons, hshort [], List.flatten_cons]
  congr 1
  by_cases hpos : utfLength value > 0
  · have hwrite : Emits (write (utfBytes value) (utfBytes value).length 0
        (utfBytes value).length) () (utfBytes value) :=
      emits_write_all rfl
    rw [if_pos hpos, List.map_singleton, hwrite []]
    exact List.append_nil _
  · rw [if_neg hpos]
    exact (List.length_eq_zero_iff.mp (by omega)).symm

theorem run_value_op {v : BytesValue} (haccepted : v.write.Accepted) {rest : List UInt8}
    (hnext : body.drop position = v.encoding ++ rest) (h : m.Reads body position) :
    ∃ m', v.op.run m = (.value v, m') ∧ m'.Reads body (position + v.encoding.length) := by
  have hrest : rest = body.drop (position + v.encoding.length) := by
    rw [← List.drop_drop, hnext, List.drop_left]
  have hcall : ∀ {α : Type} {read : DataIn α} {a : α} (f : α → BodyResult), Parses read v.encoding a →
      ∃ m', BodyResult.ofCall f (BytesMessage.reading read m) = (f a, m') ∧
        m'.Reads body (position + v.encoding.length) := by
    intro α read a f hparses
    have hread := hparses rest
    rw [← hnext, hrest] at hread
    obtain ⟨m', hrun, hm'⟩ := h.reading hread
    exact ⟨m', by rw [hrun]; rfl, hm'⟩
  cases v with
  | boolean value =>
    refine hcall (fun b => .value (.boolean b)) ?_
    rw [BytesValue.encoding, output_of_emits rfl (emits_writeBoolean value)]
    exact parses_readBoolean value
  | byte value =>
    refine hcall (fun b => .value (.byte b)) ?_
    rw [BytesValue.encoding, output_of_emits rfl (emits_writeByte value)]
    exact parses_readByte value
  | char value =>
    refine hcall (fun c => .value (.char c)) ?_
    rw [BytesValue.encoding, output_of_emits rfl (emits_writeChar value)]
    exact parses_readChar value
  | short value =>
    refine hcall (fun v => .value (.short v)) ?_
    rw [BytesValue.encoding, output_of_emits rfl (emits_writeShort value)]
    exact parses_readShort value
  | unsignedShort value =>
    refine hcall (fun v => .value (.unsignedShort v)) ?_
    rw [BytesValue.encoding, output_of_emits rfl (emits_writeUnsignedShort value)]
    exact parses_readUnsignedShort value
  | int value =>
    refine hcall (fun v => .value (.int v)) ?_
    rw [BytesValue.encoding, output_of_emits rfl (emits_writeInt value)]
    exact parses_readInt value
  | long value =>
    refine hcall (fun v => .value (.long v)) ?_
    rw [BytesValue.encoding, output_of_emits rfl (emits_writeLong value)]
    exact parses_readLong value
  | float bits =>
    refine hcall (fun v => .value (.float v)) ?_
    rw [BytesValue.encoding, output_of_emits rfl (emits_writeFloat bits)]
    exact parses_readFloat bits
  | double bits =>
    refine hcall (fun v => .value (.double v)) ?_
    rw [BytesValue.encoding, output_of_emits rfl (emits_writeDouble bits)]
    exact parses_readDouble bits
  | utf value =>
    have hlength := utf_accepted haccepted
    refine hcall (fun s => .value (.utf s)) ?_
    rw [BytesValue.encoding, BytesValue.write, output_utf hlength]
    exact parses_readUTF hlength

theorem reads_step {position' : Nat} {op : BodyOp} {result : BodyResult}
    (hstep : Body.Step body position op result position') (horderly : Body.Orderly body op position taken)
    (h : m.Reads body taken) :
    ∃ m', op.run m = (result, m') ∧ m'.Reads body (Body.leaves body op position' taken) := by
  cases hstep with
  | @value v rest haccepted hnext =>
    have htaken : taken = position := by cases v <;> exact horderly
    have hleaves : Body.leaves body v.op (position + v.encoding.length) taken = position + v.encoding.length := by
      cases v <;> rfl
    rw [hleaves]
    exact run_value_op haccepted hnext (htaken ▸ h)
  | bytes hlength =>
    obtain rfl : taken = position := horderly
    obtain ⟨m', hrun, hm'⟩ := h.readBytes _
    refine ⟨m', ?_, hm'⟩
    rw [BodyOp.run, hrun]
    rfl
  | bodyBytes =>
    obtain ⟨m', hrun, hm'⟩ := h.getBodyBytes horderly
    refine ⟨m', ?_, hm'⟩
    rw [BodyOp.run, hrun]
    rfl
  | bodyLength =>
    obtain ⟨m', hrun, hm'⟩ := h.getBodyLength
    refine ⟨m', ?_, hm'⟩
    rw [BodyOp.run, hrun]
    rfl

theorem reads_run {ops : List BodyOp} {results : List BodyResult}
    (hrun : Body.Run body position taken ops results) {m : BytesMessage Z} (h : m.Reads body taken) :
    BodyOp.runAll ops m = results := by
  induction hrun generalizing m with
  | nil => rfl
  | cons hstep horderly hrun ih =>
    obtain ⟨m', hone, hm'⟩ := reads_step hstep horderly h
    rw [BodyOp.runAll, hone, ih hm']

end Steps

/-! ### What was written -/

section Writes

variable {Z : Zip} {connection : Option Connection} {ws : List BytesWrite} {t m : BytesMessage Z}

def BytesWrite.outputAll (ws : List BytesWrite) : ByteString := ws.flatMap BytesWrite.output

theorem flatten_chunks (compression : Bool) (bytes : List UInt8) : (BytesMessage.chunks compression bytes).flatten = bytes := by
  cases compression with
  | true =>
    show (bytes.map fun b => [b]).flatten = bytes
    rw [← List.flatMap_def, List.flatMap_singleton']
  | false =>
    by_cases hnil : bytes = []
    · rw [hnil]
      rfl
    · show (if bytes = [] then [] else [bytes]).flatten = bytes
      rw [if_neg hnil, List.flatten_singleton]

theorem flatten_arraysOf (compression : Bool) (w : BytesWrite) :
    (BytesMessage.arraysOf compression w).flatten = w.output := by
  rw [BytesMessage.arraysOf, output]
  induction w.outputs with
  | nil => rfl
  | cons array arrays ih => rw [List.flatMap_cons, List.flatten_append, flatten_chunks, ih, List.flatten_cons]

theorem flatten_flatMap_arraysOf (compression : Bool) (ws : List BytesWrite) :
    (ws.flatMap (BytesMessage.arraysOf compression)).flatten = outputAll ws := by
  induction ws with
  | nil => rfl
  | cons w ws ih =>
    rw [List.flatMap_cons, List.flatten_append, flatten_arraysOf, ih]
    rfl

theorem length_flatMap_arraysOf (ws : List BytesWrite) :
    (ws.flatMap (BytesMessage.arraysOf true)).length = (outputAll ws).length := by
  have hone : ∀ array ∈ ws.flatMap (BytesMessage.arraysOf true), array.length = 1 := by
    intro array hmem
    obtain ⟨w, -, hmem⟩ := List.mem_flatMap.mp hmem
    obtain ⟨bytes, -, hmem⟩ := List.mem_flatMap.mp hmem
    obtain ⟨b, -, rfl⟩ := List.mem_map.mp (show array ∈ bytes.map ([·]) from hmem)
    rfl
  rw [← flatten_flatMap_arraysOf true ws, List.length_flatten]
  generalize ws.flatMap (BytesMessage.arraysOf true) = arrays at hone
  induction arrays with
  | nil => rfl
  | cons array arrays ih =>
    rw [List.forall_mem_cons] at hone
    rw [List.length_cons, List.map_cons, List.sum_cons, ← ih hone.2, hone.1, Nat.add_comm]

theorem records_writes (hP : Z.Prompt) {opened : Bool} {pending : List (List UInt8)}
    (h : BytesMessage.Records connection m ⟨opened, none, pending⟩) (hwrites : ws.forM BytesMessage.write m = .ok () t) :
    BytesMessage.Records connection t ⟨opened || !ws.isEmpty, none,
      pending ++ ws.flatMap (BytesMessage.arraysOf (connection.any useCompression))⟩ := by
  induction ws generalizing m opened pending with
  | nil =>
    cases hwrites
    simpa using h
  | cons w ws ih =>
    obtain ⟨m', hwrite, hrest⟩ := forM_cons_eq_ok.mp hwrites
    have hm' : BytesMessage.Records connection m' ⟨true, none,
        pending ++ BytesMessage.arraysOf (connection.any useCompression) w⟩ :=
      ((BytesMessage.recorder hP connection).write_ok h hwrite).2.2
    have hall := ih hm' hrest
    rw [List.flatMap_cons, ← List.append_assoc]
    simpa using hall

theorem content_reset (hP : Z.Prompt) (hwrites : ws.forM BytesMessage.write (BytesMessage.new connection) = .ok () t)
    (hreset : BytesMessage.reset t = .ok () m) :
    m.readOnlyBody = true ∧ m.dataIn = none ∧
      (m.content, m.compressed) = BytesMessage.encode Z (connection.any useCompression)
        ⟨!ws.isEmpty, content (ws.flatMap (BytesMessage.arraysOf (connection.any useCompression)))⟩ := by
  have hrecords := records_writes hP (BytesMessage.records_new connection) hwrites
  rw [Bool.false_or, List.nil_append] at hrecords
  generalize ws.flatMap (BytesMessage.arraysOf (connection.any useCompression)) = pending at hrecords ⊢
  obtain ⟨⟨⟩, t', hstore, hmodify⟩ := bind_eq_ok.mp (mapError_eq_ok.mp hreset)
  obtain ⟨s, hs, hrecords'⟩ := (BytesMessage.recorder hP connection).store_ok hrecords hstore
  cases hmodify
  refine ⟨rfl, rfl, ?_⟩
  have hcontent := hrecords'.content
  cases hs with
  | empty => exact hcontent
  | full hne hcan => rw [content, if_neg hne]; exact hcontent

/-- A message with compression to which only empty texts or arrays were written. -/
def BytesMessage.Hollow (connection : Option Connection) (ws : List BytesWrite) : Prop :=
  connection.any Connection.useCompression = true ∧ ws ≠ [] ∧ BytesWrite.outputAll ws = []

theorem flatMap_arraysOf_eq_nil (compression : Bool) :
    ws.flatMap (BytesMessage.arraysOf compression) = [] ↔ outputAll ws = [] := by
  rw [outputAll, List.flatMap_eq_nil_iff, List.flatMap_eq_nil_iff]
  exact forall_congr' fun w => imp_congr_right fun _ => BytesMessage.arraysOf_eq_nil

theorem initializeReading_hollow (hhollow : BytesMessage.Hollow connection ws) (hreadOnly : m.readOnlyBody = true)
    (hin : m.dataIn = none)
    (hcontent : (m.content, m.compressed) = BytesMessage.encode Z (connection.any useCompression)
      ⟨!ws.isEmpty, content (ws.flatMap (BytesMessage.arraysOf (connection.any useCompression)))⟩) :
    ∃ e, BytesMessage.initializeReading m = .error e m := by
  obtain ⟨hcompression, hws, hbody⟩ := hhollow
  have hopened : (!ws.isEmpty) = true := by simpa using hws
  rw [(flatMap_arraysOf_eq_nil _).mpr hbody, hcompression, hopened] at hcontent
  have hnothing := congrArg Prod.fst hcontent
  have hcompressed := congrArg Prod.snd hcontent
  have hnothing : m.content = [] := hnothing
  have hcompressed : m.compressed = true := hcompressed
  rw [BytesMessage.initializeReading, bind_ok (get_run _), if_neg (by simp [hreadOnly]), if_pos hin, if_pos hcompressed,
    hnothing]
  exact ⟨_, rfl⟩

theorem initializeReading_reset (hZ : Z.Lossless) (hhollow : ¬ BytesMessage.Hollow connection ws)
    (hreadOnly : m.readOnlyBody = true) (hin : m.dataIn = none)
    (hcontent : (m.content, m.compressed) = BytesMessage.encode Z (connection.any useCompression)
      ⟨!ws.isEmpty, content (ws.flatMap (BytesMessage.arraysOf (connection.any useCompression)))⟩) :
    ∃ m' : BytesMessage Z, BytesMessage.initializeReading m = .ok () m' ∧ m'.readOnlyBody = true ∧
      m'.dataIn = some (some (outputAll ws)) ∧ m'.length < 2147483648 ∧
      ((outputAll ws).length < 2147483648 → m'.length = (outputAll ws).length) := by
  have hopened : m.opened = some (outputAll ws) := by
    have hbody : m.opened = BytesMessage.bodyOf Z (m.content, m.compressed) := rfl
    rw [hbody, hcontent, ← flatten_flatMap_arraysOf (connection.any useCompression) ws]
    apply (BytesMessage.bodyOf_encode_iff hZ _ ?_).mpr
    · intro hcompression hnil
      by_contra hws
      refine hhollow ⟨hcompression, ?_, (flatMap_arraysOf_eq_nil _).mp hnil⟩
      rintro rfl
      exact hws rfl
    · intro hws
      have hnone : ws = [] := by simpa using hws
      rw [hnone]
      rfl
  rw [BytesMessage.initializeReading, bind_ok (get_run _), if_neg (by simp [hreadOnly]), if_pos hin, hopened]
  cases hcompressed : m.compressed with
  | false =>
    have hplain : m.content = outputAll ws := by
      have hbody : m.opened = some m.content := by
        rw [BytesMessage.opened, hcompressed]
        rfl
      exact Option.some.inj (hbody.symm.trans hopened)
    rw [if_neg (by simp), hplain]
    refine ⟨_, rfl, hreadOnly, rfl, toInt32_lt _, ?_⟩
    intro hshort
    exact toInt32_of_range (by omega) (by omega)
  | true =>
    rw [if_pos rfl]
    have hflag := congrArg Prod.snd hcontent
    rw [hcompressed] at hflag
    obtain ⟨hws, hcompression⟩ := Bool.and_eq_true_iff.mp hflag.symm
    have hwritten : ws.flatMap (BytesMessage.arraysOf true) ≠ [] := by
      intro hnil
      refine hhollow ⟨hcompression, by simpa using hws, (flatMap_arraysOf_eq_nil true).mp hnil⟩
    obtain ⟨word, hword, compressed, hleading⟩ : ∃ word : BitVec 32,
        ((outputAll ws).length < 2147483648 → word.toInt = (outputAll ws).length) ∧
        ∃ compressed, m.content = bytesBE word 4 ++ compressed := by
      have hfirst := congrArg Prod.fst hcontent
      rw [hcompression, content, if_neg hwritten] at hfirst
      refine ⟨BitVec.ofInt 32 (toInt32 (outputAll ws).length), ?_,
        (BodyOut.received Z true (ws.flatMap (BytesMessage.arraysOf true))).flatten, ?_⟩
      · intro hshort
        rw [toInt32_of_range (by omega) (by omega)]
        exact toInt_ofInt_length (by norm_num; omega) (by decide)
      · rw [← length_flatMap_arraysOf]
        exact hfirst
    have hlt := @BitVec.toInt_lt 32 word
    norm_num at hlt
    rw [hleading, parses_readInt word compressed]
    exact ⟨_, rfl, hreadOnly, rfl, hlt, hword⟩

end Writes

/-! ### Out of order -/

section Disorder

variable {Z : Zip} {body : ByteString} {taken : Nat} {m : BytesMessage Z}

end Disorder

end ActiveMQCpp.Commands
