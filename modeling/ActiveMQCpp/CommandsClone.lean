import ActiveMQCpp.LibRecorder
import ActiveMQCpp.CommandsBytesMessage
import ActiveMQCpp.CommandsStreamRoundTrip

/-! Clones of a message that is being written. A clone stores what has been written so far, and the next write
starts a new buffer. -/

namespace ActiveMQCpp.Commands

open Codec Bytes MachineInt Decaf Recorder BodyOut Connection List

/-! ### Arrays that are not empty -/

namespace BodyOut

variable {Z : Zip}

theorem forM_write_filter (arrays : List (List UInt8)) :
    ((arrays.filter (· ≠ [])).forM write : EStateM Failure (BodyOut Z) Unit) = arrays.forM write := by
  induction arrays with
  | nil => rfl
  | cons array arrays ih =>
    by_cases hempty : array = []
    · subst hempty
      rw [filter_cons_of_neg (by simp), ih]
      show _ = (write [] >>= fun _ => arrays.forM write)
      rw [write_nil]
      rfl
    · rw [filter_cons_of_pos (by simpa using hempty)]
      show (write array >>= fun _ => (arrays.filter (· ≠ [])).forM write) = _
      rw [ih]
      rfl

theorem forM_write_append {compression : Bool} {xs ys : List (List UInt8)} {out : BodyOut Z}
    (h : xs.forM write (fresh compression) = .ok () out) {out' : BodyOut Z} :
    (xs ++ ys).forM write (fresh compression) = .ok () out' ↔ ys.forM write out = .ok () out' := by
  rw [forM_append_eq_ok]
  constructor
  · rintro ⟨mid, hmid, hrest⟩
    rw [h] at hmid
    cases hmid
    exact hrest
  · intro hrest
    exact ⟨out, h, hrest⟩

/-- What is received tells what was written. -/
theorem received_lost (hZ : Z.Lossless) (compression : Bool) {lost rest : List (List UInt8)} (hne : lost ≠ [])
    (hlost : ∀ array ∈ lost, array ≠ []) :
    (received Z compression rest).flatten ≠ (received Z compression (lost ++ rest)).flatten := by
  intro heq
  have hrest := restore_received hZ compression rest
  rw [heq, restore_received hZ, flatten_append, Option.some.injEq] at hrest
  obtain ⟨array, hmem⟩ := exists_mem_of_ne_nil lost hne
  have hnil : lost.flatten = [] := by
    have := congrArg List.length hrest
    rw [length_append] at this
    exact length_eq_zero_iff.mp (by omega)
  exact hlost array hmem (flatten_eq_nil_iff.mp hnil array hmem)

end BodyOut

/-! ### Stream messages -/

namespace StreamMessage

variable {Z : Zip}

/-- The arrays of a write that reach the buffer. -/
def arraysOf (v : StreamValue) : List (List UInt8) := v.arrays.filter (· ≠ [])

def encode (Z : Zip) (compression : Bool) (snapshot : Snapshot (List UInt8)) : ByteString × Bool :=
  ((snapshot.stored.map fun arrays => (BodyOut.received Z compression arrays).flatten).getD [],
    snapshot.opened && compression)

/-- The message is in the state of the recorder. A stream that is open has something in it. -/
structure Records (connection : Option Connection) (m : StreamMessage Z) (s : State (List UInt8)) : Prop where
  readOnlyBody : m.readOnlyBody = false
  connection_eq : m.connection = connection
  content : (m.content, m.compressed) = encode Z (connection.any Connection.useCompression) ⟨s.opened, s.stored⟩
  opened_of_pending : s.pending ≠ [] → s.opened = true
  nonempty : ∀ array ∈ s.pending, array ≠ []
  dataOut_none : m.dataOut = none ↔ s.pending = []
  dataOut_some : ∀ out, m.dataOut = some out →
    s.pending.forM BodyOut.write (BodyOut.fresh (connection.any Connection.useCompression)) = .ok () out

theorem arraysOf_ne_nil (v : StreamValue) : arraysOf v ≠ [] := by
  cases v <;> simp [arraysOf, StreamValue.arrays]
  split <;> simp

section Records

variable {connection : Option Connection} {m m' : StreamMessage Z} {s : State (List UInt8)}
variable {opened : Bool} {pending : List (List UInt8)}
variable {v : StreamValue}

theorem Records.openedOut (h : Records connection m s) :
    ∃ out, m.openedOut = { m with compressed := connection.any useCompression, dataOut := some out } ∧
      s.pending.forM write (fresh (connection.any useCompression)) = .ok () out := by
  have huses : m.usesCompression = connection.any useCompression := by
    rw [Message.usesCompression, h.connection_eq]
  have hcompressed := congrArg Prod.snd h.content
  simp only [encode] at hcompressed
  cases hout : m.dataOut with
  | none =>
    refine ⟨fresh (connection.any useCompression), by rw [StreamMessage.openedOut, hout, huses, hcompressed]; simp, ?_⟩
    rw [h.dataOut_none.mp hout]
    rfl
  | some out =>
    have hopened := h.opened_of_pending fun hnil => by
      rw [h.dataOut_none.mpr hnil] at hout
      cases hout
    refine ⟨out, ?_, h.dataOut_some out hout⟩
    rw [openedOut_of_some hout]
    rw [hopened, Bool.true_and] at hcompressed
    rw [← hcompressed, ← hout]

theorem Records.write_eq_ok {stored : Option (List (List UInt8))}
    (h : Records connection m ⟨opened, stored, pending⟩) :
    v.write m = .ok () m' ↔ v.Writable ∧ ∃ out,
      (pending ++ arraysOf v).forM write (fresh (connection.any useCompression)) = .ok () out ∧
        m' = { m with compressed := connection.any useCompression, dataOut := some out } := by
  obtain ⟨out, hopened, hout⟩ := h.openedOut
  rw [StreamValue.write_eq_ok h.readOnlyBody, writing_eq_ok h.readOnlyBody, hopened]
  simp only [forM_write_append hout, arraysOf, forM_write_filter, Option.some.injEq, exists_and_left,
    exists_eq_left']

theorem Records.written {stored : Option (List (List UInt8))}
    (h : Records connection m ⟨opened, stored, pending⟩) {out : BodyOut Z}
    (hout : (pending ++ arraysOf v).forM write
      (fresh (connection.any useCompression)) = .ok () out) :
    Records connection { m with compressed := connection.any useCompression, dataOut := some out }
      ⟨true, stored, pending ++ arraysOf v⟩ where
  readOnlyBody := h.readOnlyBody
  connection_eq := h.connection_eq
  content := by
    have hcontent := congrArg Prod.fst h.content
    simp only [encode, Bool.true_and] at hcontent ⊢
    rw [hcontent]
  opened_of_pending := fun _ => rfl
  nonempty := by
    intro array hmem
    rcases mem_append.mp hmem with hmem | hmem
    · exact h.nonempty array hmem
    · simpa using (mem_filter.mp hmem).2
  dataOut_none := by simp [arraysOf_ne_nil]
  dataOut_some := by
    intro out' hout'
    cases hout'
    exact hout

theorem Records.store_empty (h : Records connection m s) (hpending : s.pending = []) : storeContent m = .ok () m := by
  rw [storeContent, h.dataOut_none.mpr hpending]

/-- A store of a stream that is open, where something is always kept. -/
theorem Records.store_eq_ok (hP : Z.Prompt) {stored : Option (List (List UInt8))}
    (h : Records connection m ⟨opened, stored, pending⟩) (hpending : pending ≠ []) :
    storeContent m = .ok () m' ↔ BodyOut.Stores Z (connection.any useCompression) pending ∧
      m' = { m with
        content := (received Z (connection.any useCompression) pending).flatten
        dataOut := none } := by
  obtain ⟨out, hout⟩ := Option.ne_none_iff_exists'.mp (mt h.dataOut_none.mp hpending)
  have hwrites := h.dataOut_some out hout
  rw [storeContent, hout]
  simp only
  constructor
  · intro hstore
    cases hclose : close out with
    | error e out' =>
      rw [hclose] at hstore
      cases hstore
    | ok u out' =>
      have hbytes := bytes_of_close hwrites hclose
      have hne := received_ne_nil hP (connection.any useCompression) hpending h.nonempty
      rw [hclose] at hstore
      simp only at hstore
      rw [if_pos (by rw [hbytes]; exact length_pos_of_ne_nil hne), hbytes] at hstore
      exact ⟨⟨out, out', hwrites, hclose⟩, (EStateM.Result.ok.inj hstore).2.symm⟩
  · rintro ⟨⟨out₁, out', hout₁, hclose⟩, rfl⟩
    rw [hwrites] at hout₁
    cases hout₁
    have hbytes := bytes_of_close hwrites hclose
    have hne := received_ne_nil hP (connection.any useCompression) hpending h.nonempty
    rw [hclose]
    simp only
    rw [if_pos (by rw [hbytes]; exact length_pos_of_ne_nil hne), hbytes]

theorem Records.stored {stored : Option (List (List UInt8))} (h : Records connection m ⟨opened, stored, pending⟩) :
    Records connection ({ m with
        content := (received Z (connection.any useCompression) pending).flatten
        dataOut := none } : StreamMessage Z) ⟨opened, some pending, []⟩ where
  readOnlyBody := h.readOnlyBody
  connection_eq := h.connection_eq
  content := by
    have hcompressed := congrArg Prod.snd h.content
    simp only [encode] at hcompressed ⊢
    rw [hcompressed]
    rfl
  opened_of_pending := fun hne => absurd rfl hne
  nonempty := by simp
  dataOut_none := by simp
  dataOut_some := by simp

end Records

def copy (dataStructure : Bool) (m : StreamMessage Z) : StreamMessage Z :=
  { content := m.content, compressed := m.compressed, readOnlyBody := dataStructure && m.readOnlyBody,
    connection := m.connection }

def cloneAs (dataStructure : Bool) : M Z (StreamMessage Z) := if dataStructure then cloneDataStructure else clone

theorem cloneAs_eq_ok {dataStructure : Bool} {m m' c : StreamMessage Z} :
    cloneAs dataStructure m = .ok c m' ↔ storeContent m = .ok () m' ∧ c = copy dataStructure m' := by
  have hcopy {c : StreamMessage Z} : cloneDataStructure m = .ok c m' ↔ storeContent m = .ok () m' ∧ c = copy true m' := by
    rw [cloneDataStructure, bind_eq_ok]
    constructor
    · rintro ⟨⟨⟩, t, hstore, hrest⟩
      cases hrest
      exact ⟨hstore, rfl⟩
    · rintro ⟨hstore, rfl⟩
      exact ⟨(), m', hstore, rfl⟩
  cases dataStructure with
  | true => exact hcopy
  | false =>
    show clone m = .ok c m' ↔ _
    rw [clone, bind_eq_ok]
    constructor
    · rintro ⟨d, t, hclone, hrest⟩
      cases hrest
      obtain ⟨hstore, rfl⟩ := hcopy.mp hclone
      exact ⟨hstore, rfl⟩
    · rintro ⟨hstore, rfl⟩
      exact ⟨_, m', hcopy.mpr ⟨hstore, rfl⟩, rfl⟩

/-- A stream message records what is written to it. -/
def recorder (hP : Z.Prompt) (connection : Option Connection) :
    Refinement Failure (StreamMessage Z) StreamValue (List UInt8) (ByteString × Bool)
      (BodyOut.Pushes Z (connection.any Connection.useCompression))
      (BodyOut.Stores Z (connection.any Connection.useCompression)) where
  write := StreamValue.write
  store := storeContent
  copy := copy
  clone := cloneAs
  arrays := arraysOf
  Accepts := StreamValue.Writable
  Holds := Records connection
  content := fun m => (m.content, m.compressed)
  encode := encode Z (connection.any Connection.useCompression)
  write_ok := by
    intro v m m' opened stored pending h hwrite
    obtain ⟨hwritable, out, hout, rfl⟩ := h.write_eq_ok.mp hwrite
    exact ⟨hwritable, ⟨out, hout⟩, h.written hout⟩
  write_returns := by
    rintro v m opened stored pending h hwritable ⟨out, hout⟩
    exact ⟨_, h.write_eq_ok.mpr ⟨hwritable, out, hout, rfl⟩⟩
  store_ok := by
    rintro m m' ⟨opened, stored, pending⟩ h hstore
    by_cases hpending : pending = []
    · subst hpending
      rw [h.store_empty rfl] at hstore
      cases hstore
      exact ⟨_, .empty, h⟩
    · obtain ⟨hstores, rfl⟩ := (h.store_eq_ok hP hpending).mp hstore
      exact ⟨_, .full hpending hstores, h.stored⟩
  store_returns := by
    rintro m s t h (_ | ⟨hpending, hstores⟩)
    · exact ⟨m, h.store_empty rfl⟩
    · exact ⟨_, (h.store_eq_ok hP hpending).mpr ⟨hstores, rfl⟩⟩
  clone_eq_ok := cloneAs_eq_ok
  holds_content := Records.content
  copy_content := Records.content

theorem records_new (connection : Option Connection) :
    Records connection (new connection : StreamMessage Z) ⟨false, none, []⟩ where
  readOnlyBody := rfl
  connection_eq := rfl
  content := rfl
  opened_of_pending := fun hne => absurd rfl hne
  nonempty := by simp
  dataOut_none := iff_of_true rfl rfl
  dataOut_some := by simp [new]

def bodyOf (Z : Zip) (p : ByteString × Bool) : Option (List UInt8) := BodyOut.restore Z p.2 p.1

theorem bodyOf_encode (hZ : Z.Lossless) (compression : Bool) {opened : Bool} {arrays : List (List UInt8)}
    (h : opened = false ↔ arrays = []) :
    bodyOf Z (encode Z compression ⟨opened, content arrays⟩) = some arrays.flatten := by
  by_cases hnil : arrays = []
  · rw [h.mpr hnil, hnil]
    rfl
  · rw [(Bool.eq_false_or_eq_true opened).resolve_right (mt h.mp hnil), content, if_neg hnil]
    exact restore_received hZ compression arrays

/-- The clones of a new stream message on which these calls are made leave no trace. -/
def ClonesUnnoticed (hP : Z.Prompt) (connection : Option Connection) (cs : List (Call StreamValue))
    (free : StreamMessage Z) : Prop :=
  (recorder hP connection).Unnoticed (bodyOf Z) List.flatten (new connection) cs (free.content, free.compressed)

theorem clonesUnnoticed_iff (hZ : Z.Lossless) (hP : Z.Prompt) {connection : Option Connection}
    {cs : List (Call StreamValue)} {t free : StreamMessage Z}
    (hwrites : (Refinement.writes cs).forM StreamValue.write (new connection) = .ok () t)
    (hstore : storeContent t = .ok () free) :
    ClonesUnnoticed hP connection cs free ↔
      ∀ pre kind post, cs = pre ++ .clone kind :: post → Refinement.writes pre = [] ∨ Refinement.writes post = [] := by
  have hnonempty : ∀ (ws : List StreamValue) array,
      array ∈ written (ws.map fun w => Op.write (arraysOf w)) → array ≠ [] := by
    intro ws array hmem
    induction ws with
    | nil => cases hmem
    | cons w ws ih =>
      rcases List.mem_append.mp hmem with hmem | hmem
      · simpa using (List.mem_filter.mp hmem).2
      · exact ih hmem
  have hempty {cs : List (Call StreamValue)} : (∀ w ∈ Refinement.writes cs, arraysOf w = []) ↔ Refinement.writes cs = [] :=
    ⟨fun h => List.eq_nil_iff_forall_not_mem.mpr fun w hw => arraysOf_ne_nil w (h w hw), fun h => by simp [h]⟩
  have hiff := (recorder hP connection).unnoticed_iff (bodyOf Z) List.flatten
    (fun xs ys => BodyOut.Pushes.of_append) (fun xs => BodyOut.Stores.pushes) ⟨_, rfl⟩ (records_new connection)
    hwrites hstore (by
      intro lost rest hne hall heq
      rw [Refinement.written_map_op] at hall
      refine BodyOut.received_lost hZ _ hne (fun array hmem => ?_) (congrArg Prod.fst heq)
      exact hnonempty _ array (hall ▸ List.mem_append_left _ hmem))
  rw [Refinement.clones_iff] at hiff
  refine hiff.trans (forall_congr' fun pre => forall_congr' fun kind => forall_congr' fun post => ?_)
  refine imp_congr_right fun _ => ?_
  refine (and_iff_left (bodyOf_encode hZ _ ?_)).trans (or_congr hempty hempty)
  rw [Refinement.written_map_op_eq_nil, Bool.not_eq_false', List.isEmpty_iff]
  exact hempty.symm

end StreamMessage

/-! ### Bytes messages -/

namespace BytesWrite

/-- What the calls on the `DataOutputStream` hand on. -/
def outputs (w : BytesWrite) : List (List UInt8) :=
  w.program.map fun program =>
    match program [] with
    | .ok _ emitted => emitted
    | .error _ _ => []

def output (w : BytesWrite) : List UInt8 := w.outputs.flatten

def Accepted (w : BytesWrite) : Prop := ∀ program ∈ w.program, ∃ emitted, program [] = .ok () emitted

end BytesWrite

namespace BytesMessage

variable {Z : Zip}
variable {compression : Bool} {w : BytesWrite}

/-- How an array reaches the buffer: byte by byte when it is compressed. -/
def chunks (compression : Bool) (bytes : List UInt8) : List (List UInt8) :=
  if compression then bytes.map ([·]) else if bytes = [] then [] else [bytes]

def arraysOf (compression : Bool) (w : BytesWrite) : List (List UInt8) := w.outputs.flatMap (chunks compression)

/-- The content and flag of a message that was new, by what the recorder has stored. -/
def encode (Z : Zip) (compression : Bool) (snapshot : Snapshot (List UInt8)) : ByteString × Bool :=
  ((snapshot.stored.map fun arrays =>
      (if compression then bytesBE (BitVec.ofInt 32 (toInt32 arrays.length)) 4 else []) ++
        (BodyOut.received Z compression arrays).flatten).getD [],
    snapshot.opened && compression)

structure Records (connection : Option Connection) (m : BytesMessage Z) (s : State (List UInt8)) : Prop where
  readOnlyBody : m.readOnlyBody = false
  connection_eq : m.connection = connection
  content : (m.content, m.compressed) = encode Z (connection.any Connection.useCompression) ⟨s.opened, s.stored⟩
  nonempty : ∀ array ∈ s.pending, array ≠ []
  dataOut_none : m.dataOut = none → s.pending = []
  dataOut_some : ∀ out, m.dataOut = some out → s.opened = true ∧
    s.pending.forM BodyOut.write (BodyOut.fresh (connection.any Connection.useCompression)) = .ok () out ∧
    (connection.any Connection.useCompression = true → m.length = toInt32 s.pending.length)

def Open (connection : Option Connection) (stored : Option (List (List UInt8))) (pending : List (List UInt8))
    (m : BytesMessage Z) : Prop :=
  Records connection m ⟨true, stored, pending⟩ ∧ m.dataOut ≠ none

def Feeds (connection : Option Connection) (p : M Z Unit) (arrays : List (List UInt8)) : Prop :=
  ∀ stored pending m, Open connection stored pending m →
    (∀ m', p m = .ok () m' → BodyOut.Pushes Z (connection.any Connection.useCompression) (pending ++ arrays) ∧
      Open connection stored (pending ++ arrays) m') ∧
    (BodyOut.Pushes Z (connection.any Connection.useCompression) (pending ++ arrays) → ∃ m', p m = .ok () m')

section Feeds

variable {connection : Option Connection}
variable {pending : List (List UInt8)} {m : BytesMessage Z} {array : List UInt8}
variable {length : Int}

theorem feeds_pure : Feeds connection (pure () : M Z Unit) [] := by
  intro stored pending m hm
  rw [append_nil]
  refine ⟨fun m' h => ?_, fun _ => ⟨m, rfl⟩⟩
  cases h
  obtain ⟨out, hout⟩ := Option.ne_none_iff_exists'.mp hm.2
  exact ⟨⟨out, (hm.1.dataOut_some out hout).2.1⟩, hm⟩

theorem Feeds.bind {p q : M Z Unit} {xs ys : List (List UInt8)} (hp : Feeds connection p xs)
    (hq : Feeds connection q ys) : Feeds connection (p >>= fun _ => q) (xs ++ ys) := by
  intro stored pending m hm
  obtain ⟨hok, hreturns⟩ := hp stored pending m hm
  rw [← append_assoc]
  constructor
  · intro m' h
    obtain ⟨⟨⟩, t, ht, hrest⟩ := bind_eq_ok.mp h
    exact (hq stored (pending ++ xs) t (hok t ht).2).1 m' hrest
  · intro hpush
    obtain ⟨t, ht⟩ := hreturns hpush.of_append
    obtain ⟨m', hm'⟩ := (hq stored (pending ++ xs) t (hok t ht).2).2 hpush
    exact ⟨m', bind_eq_ok.mpr ⟨(), t, ht, hm'⟩⟩

theorem feeds_forM {α : Type} {f : α → M Z Unit} {g : α → List (List UInt8)} {as : List α}
    (h : ∀ a ∈ as, Feeds connection (f a) (g a)) : Feeds connection (as.forM f) (as.flatMap g) := by
  induction as with
  | nil => exact feeds_pure
  | cons a as ih =>
    rw [flatMap_cons]
    exact (h a mem_cons_self).bind (ih fun b hb => h b (mem_cons_of_mem _ hb))

theorem Open.push {stored : Option (List (List UInt8))}
    (hm : Open connection stored pending m) (harray : array ≠ []) {out : BodyOut Z}
    (hout : (pending ++ [array]).forM BodyOut.write (BodyOut.fresh (connection.any Connection.useCompression)) = .ok () out)
    (hlength : connection.any useCompression = true → length = toInt32 (m.length + 1)) :
    Open connection stored (pending ++ [array]) { m with length := length, dataOut := some out } := by
  obtain ⟨before, hbefore⟩ := Option.ne_none_iff_exists'.mp hm.2
  obtain ⟨-, -, hcount⟩ := hm.1.dataOut_some before hbefore
  refine ⟨⟨hm.1.readOnlyBody, hm.1.connection_eq, hm.1.content, ?_, (fun h => by cases h), ?_⟩, (fun h => by cases h)⟩
  · intro other hmem
    rcases mem_append.mp hmem with hmem | hmem
    · exact hm.1.nonempty other hmem
    · exact mem_singleton.mp hmem ▸ harray
  · intro out' hout'
    cases hout'
    refine ⟨rfl, hout, fun hc => ?_⟩
    rw [length_append, length_singleton, Nat.cast_add, Nat.cast_one, ← toInt32_add]
    exact (hlength hc).trans (by rw [hcount hc])

theorem Open.onDataOut {stored : Option (List (List UInt8))}
    (hm : Open connection stored pending m) (harray : array ≠ [])
    (hlength : connection.any Connection.useCompression = true → length = toInt32 (m.length + 1)) :
    (∀ m', onDataOut (BodyOut.write array) { m with length := length } = .ok () m' →
      BodyOut.Pushes Z (connection.any Connection.useCompression) (pending ++ [array]) ∧
        Open connection stored (pending ++ [array]) m') ∧
    (BodyOut.Pushes Z (connection.any Connection.useCompression) (pending ++ [array]) →
      ∃ m', onDataOut (BodyOut.write array) { m with length := length } = .ok () m') := by
  obtain ⟨out, hout⟩ := Option.ne_none_iff_exists'.mp hm.2
  obtain ⟨-, htaken, -⟩ := hm.1.dataOut_some out hout
  have hone : ∀ out', (pending ++ [array]).forM BodyOut.write
      (BodyOut.fresh (connection.any Connection.useCompression)) = .ok () out' ↔ BodyOut.write array out = .ok () out' := by
    intro out'
    rw [BodyOut.forM_write_append htaken, forM_cons_eq_ok]
    constructor
    · rintro ⟨t, hwrite, hrest⟩
      cases hrest
      exact hwrite
    · intro hwrite
      exact ⟨out', hwrite, rfl⟩
  simp only [BytesMessage.onDataOut, hout]
  cases hwrite : BodyOut.write array out with
  | error e out' =>
    refine ⟨(fun m' h => by cases h), ?_⟩
    rintro ⟨out'', hpush⟩
    rw [hone, hwrite] at hpush
    cases hpush
  | ok u out' =>
    have hpush := (hone out').mpr hwrite
    refine ⟨fun m' h => ?_, fun _ => ⟨_, rfl⟩⟩
    cases h
    exact ⟨⟨out', hpush⟩, hm.push harray hpush hlength⟩

theorem feeds_write (hc : connection.any useCompression = false) (harray : array ≠ []) :
    Feeds connection (onDataOut (BodyOut.write array) : M Z Unit) [array] := by
  intro stored pending m hm
  exact hm.onDataOut harray fun h => by rw [hc] at h; cases h

theorem feeds_countByte (b : UInt8) : Feeds connection (countByte b : M Z Unit) [[b]] := by
  intro stored pending m hm
  simp only [countByte, bind_run, modify_run]
  exact hm.onDataOut (cons_ne_nil b []) fun _ => rfl

theorem Open.any_deflater {stored : Option (List (List UInt8))} (hm : Open connection stored pending m) :
    (m.dataOut.any fun out => out.deflater.isSome) = connection.any useCompression := by
  obtain ⟨out, hout⟩ := Option.ne_none_iff_exists'.mp hm.2
  obtain ⟨-, htaken, -⟩ := hm.1.dataOut_some out hout
  rw [hout, Option.any_some, (bytes_of_forM_write htaken).1, fresh]
  cases connection.any useCompression <;> rfl

theorem feeds_hand (array : List UInt8) :
    Feeds connection (hand array : M Z Unit) (chunks (connection.any useCompression) array) := by
  intro stored pending m hm
  simp only [hand, hm.any_deflater]
  by_cases hc : connection.any useCompression = true
  · rw [if_pos hc]
    have hchunks : chunks (connection.any useCompression) array = array.flatMap fun b => [[b]] := by
      rw [chunks, if_pos hc, map_eq_flatMap]
    rw [hchunks]
    exact feeds_forM (fun b _ => feeds_countByte b) stored pending m hm
  · rw [if_neg hc]
    by_cases harray : array = []
    · subst harray
      have hnone : onDataOut (BodyOut.write []) m = (pure () : M Z Unit) m := by
        obtain ⟨out, hout⟩ := Option.ne_none_iff_exists'.mp hm.2
        simp only [BytesMessage.onDataOut, hout, write_nil, pure_run]
        rw [← hout]
      rw [hnone, chunks, if_neg hc, if_pos rfl]
      exact feeds_pure stored pending m hm
    · rw [chunks, if_neg hc, if_neg harray]
      exact feeds_write (Bool.not_eq_true _ ▸ hc) harray stored pending m hm

theorem feeds_call {program : DataOut Unit} {bytes : List UInt8} (h : program [] = .ok () bytes) :
    Feeds connection (call program : M Z Unit) (chunks (connection.any useCompression) bytes) := by
  have hcall : (call program : M Z Unit) = hand bytes := by
    funext m
    rw [call, h]
  rw [hcall]
  exact feeds_hand bytes

theorem accepted_of_forM {programs : List (DataOut Unit)} {m' : BytesMessage Z}
    (h : programs.forM call m = .ok () m') : ∀ program ∈ programs, ∃ bytes, program [] = .ok () bytes := by
  induction programs generalizing m with
  | nil => simp
  | cons program programs ih =>
    obtain ⟨t, hcall, hrest⟩ := forM_cons_eq_ok.mp h
    refine forall_mem_cons.mpr ⟨?_, ih hrest⟩
    unfold call at hcall
    cases hprogram : program [] with
    | ok u bytes => exact ⟨bytes, rfl⟩
    | error e bytes =>
      rw [hprogram] at hcall
      cases hcall

theorem feeds_program {w : BytesWrite} (h : w.Accepted) :
    Feeds connection (w.program.forM call : M Z Unit) (arraysOf (connection.any useCompression) w) := by
  have hfeeds : Feeds connection (w.program.forM call : M Z Unit) (w.program.flatMap fun program =>
      chunks (connection.any useCompression)
        (match program [] with
          | .ok _ emitted => emitted
          | .error _ _ => [])) := by
    refine feeds_forM fun program hmem => ?_
    obtain ⟨bytes, hbytes⟩ := h program hmem
    rw [hbytes]
    exact feeds_call hbytes
  rw [arraysOf, BytesWrite.outputs, flatMap_map]
  exact hfeeds

end Feeds

section Records

variable {connection : Option Connection} {m m' : BytesMessage Z} {s : State (List UInt8)}
variable {opened : Bool} {pending : List (List UInt8)}

theorem Records.initializeWriting (h : Records connection m s) :
    ∃ t, initializeWriting m = .ok () t ∧ Open connection s.stored s.pending t := by
  have huses : m.usesCompression = connection.any useCompression := by
    rw [Message.usesCompression, h.connection_eq]
  have hcontent := congrArg Prod.fst h.content
  have hcompressed := congrArg Prod.snd h.content
  simp only [encode] at hcontent hcompressed
  have hwritable : ¬m.readOnlyBody = true := by rw [h.readOnlyBody]; exact Bool.false_ne_true
  simp only [BytesMessage.initializeWriting, bind_run, get_run, if_neg hwritable]
  cases hout : m.dataOut with
  | none =>
    refine ⟨_, rfl, ⟨h.readOnlyBody, h.connection_eq, ?_, h.nonempty, (fun hnone => by cases hnone), ?_⟩, by simp⟩
    · rw [hcontent, hcompressed, huses]
      simp [encode]
    · intro out hout'
      cases hout'
      rw [h.dataOut_none hout, huses]
      exact ⟨rfl, rfl, fun _ => rfl⟩
  | some out =>
    obtain ⟨hopened, htaken, hlength⟩ := h.dataOut_some out hout
    refine ⟨m, rfl, ⟨h.readOnlyBody, h.connection_eq, ?_, h.nonempty, h.dataOut_none, ?_⟩, by simp [hout]⟩
    · rw [h.content, hopened]
    · intro out' hout'
      exact ⟨rfl, (h.dataOut_some out' hout').2⟩

theorem Records.store_empty (h : Records connection m s) (hpending : s.pending = []) : storeContent m = .ok () m := by
  refine mapError_eq_ok.mpr ?_
  cases hout : m.dataOut with
  | none => rfl
  | some out =>
    obtain ⟨-, htaken, -⟩ := h.dataOut_some out hout
    have hbytes : out.bytesOut.bytes = [] := by
      rw [(bytes_of_forM_write htaken).2, hpending]
      cases connection.any useCompression <;> rfl
    simp only [hbytes, length_nil, gt_iff_lt, Nat.lt_irrefl, if_false]

/-- The buffers can be made large enough for the content. -/
def Keeps (Z : Zip) (compression : Bool) (arrays : List (List UInt8)) : Prop :=
  BodyOut.Stores Z compression arrays ∧ (compression = true → ∃ content,
    annotated (toInt32 arrays.length) (BodyOut.received Z compression arrays).flatten = .ok content)

theorem annotated_eq {length : Int} {compressed content : List UInt8} (h : annotated length compressed = .ok content) :
    content = bytesBE (BitVec.ofInt 32 length) 4 ++ compressed := by
  have hok : ByteArrayOutputStream.Ok {} := Nat.zero_le _
  unfold annotated at h
  split at h
  · rename_i buffer hwrite
    cases h
    obtain ⟨p, -, rfl⟩ := (ByteArrayOutputStream.forM_write_eq_ok hok).mp hwrite
    simp
  · cases h

theorem Records.store_eq_ok (hP : Z.Prompt) {stored : Option (List (List UInt8))}
    (h : Records connection m ⟨opened, stored, pending⟩) (hpending : pending ≠ []) :
    storeContent m = .ok () m' ↔ Keeps Z (connection.any useCompression) pending ∧
      m' = { m with
        content := (encode Z (connection.any useCompression) ⟨opened, some pending⟩).1
        dataOut := none } := by
  obtain ⟨out, hout⟩ := Option.ne_none_iff_exists'.mp (mt h.dataOut_none hpending)
  obtain ⟨hopened, htaken, hlength⟩ := h.dataOut_some out hout
  simp only at hopened htaken hlength
  have hcompressed := congrArg Prod.snd h.content
  simp only [encode, hopened, Bool.true_and] at hcompressed
  have hpos : out.bytesOut.bytes.length > 0 := by
    rw [(bytes_of_forM_write htaken).2]
    exact length_pos_of_ne_nil (handOn_ne_nil hP _ hpending h.nonempty)
  refine Iff.trans mapError_eq_ok ?_
  simp only [hout, if_pos hpos]
  cases hclose : close out with
  | error e out' =>
    simp only [Keeps]
    refine iff_of_false (fun hstore => by cases hstore) ?_
    rintro ⟨⟨⟨out₁, out₂, hout₁, hclose₁⟩, -⟩, -⟩
    rw [htaken] at hout₁
    cases hout₁
    rw [hclose] at hclose₁
    cases hclose₁
  | ok u out' =>
    have hbytes := bytes_of_close htaken hclose
    have hstores : BodyOut.Stores Z (connection.any useCompression) pending := ⟨out, out', htaken, hclose⟩
    simp only [hcompressed, hbytes, Keeps, hstores, true_and, encode, Option.map_some, Option.getD_some]
    by_cases hc : connection.any useCompression = true
    · rw [hlength hc]
      cases hannotated : annotated (toInt32 pending.length)
          (received Z (connection.any useCompression) pending).flatten with
      | error e => simp [hc]
      | ok content =>
        simp only [hc, annotated_eq hannotated]
        simp [eq_comm]
    · simp [hc, eq_comm]

theorem Records.stored {stored : Option (List (List UInt8))} (h : Records connection m ⟨opened, stored, pending⟩) :
    Records connection ({ m with
        content := (encode Z (connection.any useCompression) ⟨opened, some pending⟩).1
        dataOut := none } : BytesMessage Z) ⟨opened, some pending, []⟩ where
  readOnlyBody := h.readOnlyBody
  connection_eq := h.connection_eq
  content := by
    have hcompressed := congrArg Prod.snd h.content
    simp only [encode] at hcompressed ⊢
    rw [hcompressed]
  nonempty := by simp
  dataOut_none := fun _ => rfl
  dataOut_some := by simp

end Records

def cloneAs (dataStructure : Bool) : M Z (BytesMessage Z) := if dataStructure then cloneDataStructure else clone

theorem cloneAs_eq_ok {dataStructure : Bool} {m m' c : BytesMessage Z} :
    cloneAs dataStructure m = .ok c m' ↔ storeContent m = .ok () m' ∧ c = copy dataStructure m' := by
  have hcopy {c : BytesMessage Z} : cloneDataStructure m = .ok c m' ↔ storeContent m = .ok () m' ∧ c = copy true m' := by
    rw [cloneDataStructure, bind_eq_ok]
    constructor
    · rintro ⟨⟨⟩, t, hstore, hrest⟩
      cases hrest
      exact ⟨hstore, rfl⟩
    · rintro ⟨hstore, rfl⟩
      exact ⟨(), m', hstore, rfl⟩
  cases dataStructure with
  | true => exact hcopy
  | false =>
    show clone m = .ok c m' ↔ _
    rw [clone, bind_eq_ok]
    constructor
    · rintro ⟨d, t, hclone, hrest⟩
      cases hrest
      obtain ⟨hstore, rfl⟩ := hcopy.mp hclone
      exact ⟨hstore, rfl⟩
    · rintro ⟨hstore, rfl⟩
      exact ⟨_, m', hcopy.mpr ⟨hstore, rfl⟩, rfl⟩

def recorder (hP : Z.Prompt) (connection : Option Connection) :
    Refinement Failure (BytesMessage Z) BytesWrite (List UInt8) (ByteString × Bool)
      (BodyOut.Pushes Z (connection.any Connection.useCompression))
      (Keeps Z (connection.any Connection.useCompression)) where
  write := write
  store := storeContent
  copy := copy
  clone := cloneAs
  arrays := arraysOf (connection.any Connection.useCompression)
  Accepts := BytesWrite.Accepted
  Holds := Records connection
  content := fun m => (m.content, m.compressed)
  encode := encode Z (connection.any Connection.useCompression)
  write_ok := by
    intro w m m' opened stored pending h hwrite
    obtain ⟨t, hinit, hopen⟩ := h.initializeWriting
    rw [write, bind_ok hinit, mapError_eq_ok] at hwrite
    have haccepted := accepted_of_forM hwrite
    obtain ⟨hpush, hrecords⟩ := (feeds_program haccepted stored pending t hopen).1 m' hwrite
    exact ⟨haccepted, hpush, hrecords.1⟩
  write_returns := by
    intro w m opened stored pending h haccepted hpush
    obtain ⟨t, hinit, hopen⟩ := h.initializeWriting
    obtain ⟨m', hm'⟩ := (feeds_program haccepted stored pending t hopen).2 hpush
    exact ⟨m', by rw [write, bind_ok hinit, mapError_eq_ok]; exact hm'⟩
  store_ok := by
    rintro m m' ⟨opened, stored, pending⟩ h hstore
    by_cases hpending : pending = []
    · subst hpending
      rw [h.store_empty rfl] at hstore
      cases hstore
      exact ⟨_, .empty, h⟩
    · obtain ⟨hkeeps, rfl⟩ := (h.store_eq_ok hP hpending).mp hstore
      exact ⟨_, .full hpending hkeeps, h.stored⟩
  store_returns := by
    rintro m s t h (_ | ⟨hpending, hkeeps⟩)
    · exact ⟨m, h.store_empty rfl⟩
    · exact ⟨_, (h.store_eq_ok hP hpending).mpr ⟨hkeeps, rfl⟩⟩
  clone_eq_ok := cloneAs_eq_ok
  holds_content := Records.content
  copy_content := Records.content

theorem records_new (connection : Option Connection) :
    Records connection (new connection : BytesMessage Z) ⟨false, none, []⟩ where
  readOnlyBody := rfl
  connection_eq := rfl
  content := rfl
  nonempty := by simp
  dataOut_none := fun _ => rfl
  dataOut_some := by simp [new]

def bodyOf (Z : Zip) (p : ByteString × Bool) : Option (List UInt8) :=
  if p.2 then if 4 ≤ p.1.length then Z.inflate (p.1.drop 4) else none else some p.1

theorem drop_encode (compression opened : Bool) (arrays : List (List UInt8)) :
    (encode Z compression ⟨opened, some arrays⟩).1.drop (if compression then 4 else 0)
      = (received Z compression arrays).flatten := by
  cases compression with
  | false => rfl
  | true => exact drop_left' (length_bytesBE _ _)

theorem bodyOf_encode_iff (hZ : Z.Lossless) (compression : Bool) {opened : Bool} {arrays : List (List UInt8)}
    (h : opened = false → arrays = []) :
    bodyOf Z (encode Z compression ⟨opened, content arrays⟩) = some arrays.flatten ↔
      (compression = true → arrays = [] → opened = false) := by
  by_cases hnil : arrays = []
  · subst hnil
    cases compression <;> cases opened <;> simp [bodyOf, encode, content]
  · have hopened : opened = true := (Bool.eq_false_or_eq_true opened).resolve_right (mt h hnil)
    subst hopened
    refine iff_of_true ?_ fun _ hempty => absurd hempty hnil
    cases compression with
    | false => simp [bodyOf, encode, content, hnil, received]
    | true =>
      have hdrop := drop_encode (Z := Z) true true arrays
      simp only [if_true] at hdrop
      rw [content, if_neg hnil, bodyOf, hdrop]
      simp only [encode, Bool.and_self, if_true, Option.map_some, Option.getD_some]
      rw [if_pos (by simp)]
      exact hZ arrays

def ClonesUnnoticed (hP : Z.Prompt) (connection : Option Connection) (cs : List (Call BytesWrite))
    (free : BytesMessage Z) : Prop :=
  (recorder hP connection).Unnoticed (bodyOf Z) List.flatten (new connection) cs (free.content, free.compressed)

def Blank (cs : List (Call BytesWrite)) : Prop := ∀ w ∈ Refinement.writes cs, w.output = []

theorem arraysOf_eq_nil : arraysOf compression w = [] ↔ w.output = [] := by
  have hchunks : ∀ bytes, chunks compression bytes = [] ↔ bytes = [] := by
    intro bytes
    cases compression <;> simp [chunks]
  rw [arraysOf, BytesWrite.output, flatMap_eq_nil_iff, flatten_eq_nil_iff]
  exact forall_congr' fun bytes => imp_congr_right fun _ => hchunks bytes

theorem arraysOf_ne_nil {array : List UInt8} (h : array ∈ arraysOf compression w) : array ≠ [] := by
  obtain ⟨bytes, -, hmem⟩ := mem_flatMap.mp h
  cases compression with
  | true =>
    obtain ⟨b, -, rfl⟩ := mem_map.mp (show array ∈ bytes.map ([·]) from hmem)
    exact cons_ne_nil b []
  | false =>
    simp only [chunks, Bool.false_eq_true, if_false] at hmem
    split_ifs at hmem with hbytes
    · cases hmem
    · exact mem_singleton.mp hmem ▸ hbytes

theorem clonesUnnoticed_iff (hZ : Z.Lossless) (hP : Z.Prompt) {connection : Option Connection}
    {cs : List (Call BytesWrite)} {t free : BytesMessage Z}
    (hwrites : (Refinement.writes cs).forM write (new connection) = .ok () t) (hstore : storeContent t = .ok () free) :
    ClonesUnnoticed hP connection cs free ↔ ∀ pre kind post, cs = pre ++ .clone kind :: post →
      (Blank pre ∨ Blank post) ∧
        (connection.any Connection.useCompression = true → Blank pre → Refinement.writes pre = []) := by
  have hnonempty : ∀ (ws : List BytesWrite) array,
      array ∈ written (ws.map fun w => Op.write (arraysOf (connection.any Connection.useCompression) w)) → array ≠ [] := by
    intro ws array hmem
    induction ws with
    | nil => cases hmem
    | cons w ws ih =>
      rcases List.mem_append.mp hmem with hmem | hmem
      · exact arraysOf_ne_nil hmem
      · exact ih hmem
  have hblank {cs : List (Call BytesWrite)} :
      (∀ w ∈ Refinement.writes cs, arraysOf (connection.any Connection.useCompression) w = []) ↔ Blank cs :=
    forall_congr' fun w => imp_congr_right fun _ => arraysOf_eq_nil
  have hiff := (recorder hP connection).unnoticed_iff (bodyOf Z) List.flatten
    (fun xs ys => BodyOut.Pushes.of_append) (fun xs h => h.1.pushes) ⟨_, rfl⟩ (records_new connection)
    hwrites hstore (by
      intro lost rest hne hall heq
      rw [Refinement.written_map_op] at hall
      have hsame : (BodyOut.received Z (connection.any Connection.useCompression) rest).flatten
          = (BodyOut.received Z (connection.any Connection.useCompression) (lost ++ rest)).flatten := by
        rw [← drop_encode _ true rest, ← drop_encode _ true (lost ++ rest)]
        exact congrArg (fun p => List.drop _ p.1) heq
      exact BodyOut.received_lost hZ _ hne
        (fun array hmem => hnonempty _ array (hall ▸ List.mem_append_left _ hmem)) hsame)
  rw [Refinement.clones_iff] at hiff
  refine hiff.trans (forall_congr' fun pre => forall_congr' fun kind => forall_congr' fun post => ?_)
  refine imp_congr_right fun _ => and_congr (or_congr hblank hblank) ?_
  have hempty : written (pre.map (recorder (Z := Z) hP connection).op) = [] ↔ Blank pre :=
    (recorder (Z := Z) hP connection).written_map_op_eq_nil.trans hblank
  refine (bodyOf_encode_iff hZ _ fun hopened => ?_).trans ?_
  · have hnone : Refinement.writes pre = [] := by simpa using hopened
    rw [hempty, Blank, hnone]
    simp
  · rw [hempty, Bool.not_eq_false', List.isEmpty_iff]

end BytesMessage

/-- Clones leave no trace exactly where nothing is written after a clone that something was written before, and,
for a bytes message with compression, no clone comes after empty writes only. -/
theorem clones_unnoticed_iff {Z : Zip} (hZ : Z.Lossless) (hP : Z.Prompt) (connection : Option Connection) :
    (∀ (cs : List (Call StreamValue)) (t free : StreamMessage Z),
      (Refinement.writes cs).forM StreamValue.write (StreamMessage.new connection) = .ok () t →
      StreamMessage.storeContent t = .ok () free →
      (StreamMessage.ClonesUnnoticed hP connection cs free ↔ ∀ pre kind post, cs = pre ++ .clone kind :: post →
        Refinement.writes pre = [] ∨ Refinement.writes post = [])) ∧
    ∀ (cs : List (Call BytesWrite)) (t free : BytesMessage Z),
      (Refinement.writes cs).forM BytesMessage.write (BytesMessage.new connection) = .ok () t →
      BytesMessage.storeContent t = .ok () free →
      (BytesMessage.ClonesUnnoticed hP connection cs free ↔ ∀ pre kind post, cs = pre ++ .clone kind :: post →
        (BytesMessage.Blank pre ∨ BytesMessage.Blank post) ∧
          (connection.any Connection.useCompression = true → BytesMessage.Blank pre → Refinement.writes pre = [])) :=
  ⟨fun _ _ _ hwrites hstore => StreamMessage.clonesUnnoticed_iff hZ hP hwrites hstore,
    fun _ _ _ hwrites hstore => BytesMessage.clonesUnnoticed_iff hZ hP hwrites hstore⟩

/-- A clone after the last write. -/
theorem clone_last_unnoticed : ∃ t free : StreamMessage Zip.storing,
    StreamValue.write (.int 1) (StreamMessage.new none) = .ok () t ∧ StreamMessage.storeContent t = .ok () free ∧
      StreamMessage.ClonesUnnoticed Zip.storing_prompt none [.write (.int 1), .clone false] free := by
  refine ⟨_, _, rfl, rfl, ((clones_unnoticed_iff Zip.storing_lossless Zip.storing_prompt none).1 _ _ _ rfl rfl).mpr ?_⟩
  intro pre kind post hcs
  rcases pre with _ | ⟨_, _ | ⟨_, pre⟩⟩
  · cases hcs
  · cases hcs
    exact .inr rfl
  · simp at hcs

/-- Of two writes with a clone between them only the second is kept. -/
theorem clone_between_loses : ∃ clones, ∃ t m free : StreamMessage Zip.storing,
    (StreamMessage.recorder Zip.storing_prompt none).calls [.write (.byte 1), .clone false, .write (.byte 2)]
      (StreamMessage.new none) = .ok clones t ∧ StreamMessage.storeContent t = .ok () m ∧ m.content = [2, 2] ∧
    (do StreamValue.write (.byte 1); StreamValue.write (.byte 2); StreamMessage.storeContent) (StreamMessage.new none)
      = .ok () free ∧ free.content = [2, 1, 2, 2] ∧
    ¬StreamMessage.ClonesUnnoticed Zip.storing_prompt none [.write (.byte 1), .clone false, .write (.byte 2)] free := by
  refine ⟨_, _, _, _, rfl, rfl, rfl, rfl, rfl, ?_⟩
  rintro ⟨clones, t, m, hcalls, hstore, hcontent, -⟩
  cases hcalls
  cases hstore
  revert hcontent
  decide

end ActiveMQCpp.Commands
