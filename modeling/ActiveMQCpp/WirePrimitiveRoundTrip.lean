import ActiveMQCpp.WirePrimitive

/-! Which primitive maps and lists survive `PrimitiveTypesMarshaller`. Everything the receiver can build is
`Transmittable`; conversely a transmittable value is read back from its bytes, nested values by induction
on the value. -/

namespace ActiveMQCpp.Wire

open Codec Bytes MachineInt Decaf DataInputStream DataOutputStream Emits List Parses

variable {values : List PrimitiveValueNode} {entries : List (ByteString × PrimitiveValueNode)} {value : ByteString}

mutual

/-- The values the marshaller is meant for: no `NULL` nodes, and maps with sorted keys that `writeUTF`
can encode. -/
def PrimitiveValueNode.Valid : PrimitiveValueNode → Prop
  | .null => False
  | .map entries => OrderedMap.Sorted entries ∧ ValidEntries entries
  | .list values => ValidValues values
  | _ => True

def ValidValues : List PrimitiveValueNode → Prop
  | [] => True
  | value :: values => value.Valid ∧ ValidValues values

def ValidEntries : List (ByteString × PrimitiveValueNode) → Prop
  | [] => True
  | (key, value) :: entries =>
    DataOutputStream.utfLength key < 65536 ∧ value.Valid ∧ ValidEntries entries

end

mutual

/-- No string is empty, and the elements of every string, byte array, list and map are counted by an
`int`. -/
def PrimitiveValueNode.Transmittable : PrimitiveValueNode → Prop
  | .string value => value ≠ [] ∧ value.length < 2147483648
  | .byteArray value => value.length < 2147483648
  | .map entries => entries.length < 2147483648 ∧ TransmittableEntries entries
  | .list values => values.length < 2147483648 ∧ TransmittableValues values
  | _ => True

def TransmittableValues : List PrimitiveValueNode → Prop
  | [] => True
  | value :: values => value.Transmittable ∧ TransmittableValues values

def TransmittableEntries : List (ByteString × PrimitiveValueNode) → Prop
  | [] => True
  | (_, value) :: entries => value.Transmittable ∧ TransmittableEntries entries

end

theorem transmittableValues_iff : TransmittableValues values ↔ ∀ value ∈ values, value.Transmittable := by
  induction values with
  | nil => simp [TransmittableValues]
  | cons value values ih => rw [TransmittableValues, ih, forall_mem_cons]

theorem transmittableEntries_iff : TransmittableEntries entries ↔ ∀ entry ∈ entries, entry.2.Transmittable := by
  induction entries with
  | nil => simp [TransmittableEntries]
  | cons entry entries ih => rw [TransmittableEntries, ih, forall_mem_cons]

/-! ### What the receiver can build -/

/-- A property of every node that a receiver can build, whatever it reads. -/
structure Buildable (P : PrimitiveValueNode → Prop) : Prop where
  null : P .null
  boolean : ∀ value, P (.boolean value)
  byte : ∀ value, P (.byte value)
  char : ∀ value, P (.char value)
  short : ∀ value, P (.short value)
  integer : ∀ value, P (.integer value)
  long : ∀ value, P (.long value)
  float : ∀ bits, P (.float bits)
  double : ∀ bits, P (.double bits)
  string : ∀ value, value ≠ [] → value.length < 2147483648 → P (.string value)
  byteArray : ∀ value, value.length < 2147483648 → P (.byteArray value)
  list : ∀ values, values.length < 2147483648 → (∀ value ∈ values, P value) → P (.list values)
  map : ∀ entries, entries.length < 2147483648 → OrderedMap.Sorted entries → (∀ entry ∈ entries, P entry.2) →
    P (.map entries)

section Received

variable {unmarshal : DataIn PrimitiveValueNode} {P : PrimitiveValueNode → Prop}
variable {input rest : List UInt8} {node : PrimitiveValueNode}

theorem length_readFully {size : Int} {data : List UInt8} (hpos : 0 < size)
    (h : readFully size input = .ok data rest) : (data.length : Int) = size := by
  rw [readFully, if_neg (by omega), if_neg (by omega)] at h
  split_ifs at h
  injection h with hdata _
  rw [← hdata, length_take]
  omega

theorem toInt_lt_32 (v : BitVec 32) : v.toInt < 2147483648 := BitVec.toInt_lt

theorem Buildable.of_unmarshalString (hP : Buildable P) {utfLength : Int} (hlt : utfLength < 2147483648)
    (h : unmarshalString utfLength input = .ok node rest) : P node := by
  rw [unmarshalString] at h
  split_ifs at h with hpos
  · rw [bind_eq_ok] at h
    obtain ⟨buffer, input', hread, h⟩ := h
    cases h
    have hlen := length_readFully hpos hread
    refine hP.string _ ?_ (by omega)
    rintro rfl
    rw [length_nil] at hlen
    omega
  · cases h
    exact hP.null

theorem Buildable.of_unmarshalByteArray (hP : Buildable P) {size : Int} (hlt : size < 2147483648)
    (h : unmarshalByteArray size input = .ok node rest) : P node := by
  rw [unmarshalByteArray] at h
  split_ifs at h with hpos
  · rw [bind_eq_ok] at h
    obtain ⟨data, input', hread, h⟩ := h
    cases h
    have hlen := length_readFully hpos hread
    exact hP.byteArray _ (by omega)
  · cases h
    exact hP.byteArray _ (by decide)

theorem of_readValues (hunmarshal : ∀ {input rest node}, unmarshal input = .ok node rest → P node)
    {count : Nat} {list values : List PrimitiveValueNode}
    (h : readValues unmarshal count list input = .ok values rest) (hlist : ∀ value ∈ list, P value) :
    values.length = list.length + count ∧ ∀ value ∈ values, P value := by
  induction count generalizing list input with
  | zero =>
    cases h
    exact ⟨rfl, hlist⟩
  | succ count ih =>
    rw [readValues, bind_eq_ok] at h
    obtain ⟨value, input', hread, h⟩ := h
    have hmore : ∀ v ∈ list ++ [value], P v := by
      intro v hv
      rcases mem_append.mp hv with hold | hnew
      · exact hlist v hold
      · rw [mem_singleton.mp hnew]
        exact hunmarshal hread
    obtain ⟨hlen, hvalues⟩ := ih h hmore
    refine ⟨?_, hvalues⟩
    rw [hlen, length_append, length_singleton]
    omega

theorem of_readEntries (hunmarshal : ∀ {input rest node}, unmarshal input = .ok node rest → P node)
    {count : Nat} {map entries : List (ByteString × PrimitiveValueNode)}
    (h : readEntries unmarshal count map input = .ok entries rest) (hsorted : OrderedMap.Sorted map)
    (hmap : ∀ entry ∈ map, P entry.2) :
    entries.length ≤ map.length + count ∧ OrderedMap.Sorted entries ∧ ∀ entry ∈ entries, P entry.2 := by
  induction count generalizing map input with
  | zero =>
    cases h
    exact ⟨le_refl _, hsorted, hmap⟩
  | succ count ih =>
    rw [readEntries, bind_eq_ok] at h
    obtain ⟨key, input1, -, h⟩ := h
    rw [bind_eq_ok] at h
    obtain ⟨value, input2, hread, h⟩ := h
    have hmore : ∀ entry ∈ OrderedMap.put key value map, P entry.2 := by
      intro e he
      rcases OrderedMap.mem_put he with heq | hold
      · rw [heq]
        exact hunmarshal hread
      · exact hmap e hold
    obtain ⟨hlen, hrest⟩ := ih h (OrderedMap.sorted_put key value hsorted) hmore
    refine ⟨?_, hrest⟩
    have hput := OrderedMap.length_put_le key value map
    omega

theorem of_unmarshalPrimitiveList (hunmarshal : ∀ {input rest node}, unmarshal input = .ok node rest → P node)
    {values : List PrimitiveValueNode}
    (h : unmarshalPrimitiveList unmarshal [] input = .ok values rest) :
    values.length < 2147483648 ∧ ∀ value ∈ values, P value := by
  rw [unmarshalPrimitiveList, mapError_eq_ok, bind_eq_ok] at h
  obtain ⟨size, input', -, h⟩ := h
  obtain ⟨hlen, hvalues⟩ := of_readValues hunmarshal h (by simp)
  have hsize := toInt_lt_32 size
  rw [length_nil] at hlen
  exact ⟨by omega, hvalues⟩

theorem of_unmarshalPrimitiveMap (hunmarshal : ∀ {input rest node}, unmarshal input = .ok node rest → P node)
    {entries : List (ByteString × PrimitiveValueNode)}
    (h : unmarshalPrimitiveMap unmarshal [] input = .ok entries rest) :
    entries.length < 2147483648 ∧ OrderedMap.Sorted entries ∧ ∀ entry ∈ entries, P entry.2 := by
  rw [unmarshalPrimitiveMap, mapError_eq_ok, bind_eq_ok] at h
  obtain ⟨size, input', -, h⟩ := h
  obtain ⟨hlen, hrest⟩ := of_readEntries hunmarshal h OrderedMap.sorted_nil (by simp)
  have hsize := toInt_lt_32 size
  rw [length_nil] at hlen
  exact ⟨by omega, hrest⟩

/-- One step of the receiver, whatever the tag and the input. -/
theorem Buildable.of_unmarshalValue (hP : Buildable P)
    (hunmarshal : ∀ {input rest node}, unmarshal input = .ok node rest → P node)
    {type : PrimitiveType} (h : unmarshalValue unmarshal type input = .ok node rest) : P node := by
  cases type with
  | null =>
    cases h
    exact hP.null
  | char =>
    rw [unmarshalValue, bind_eq_ok] at h
    obtain ⟨_, _, -, h⟩ := h
    rw [bind_eq_ok] at h
    obtain ⟨_, _, -, h⟩ := h
    cases h
    exact hP.char _
  | byteArray =>
    rw [unmarshalValue, bind_eq_ok] at h
    obtain ⟨size, _, -, h⟩ := h
    exact hP.of_unmarshalByteArray (toInt_lt_32 size) h
  | string =>
    rw [unmarshalValue, bind_eq_ok] at h
    obtain ⟨utfLength, _, -, h⟩ := h
    have hlt : utfLength.toInt < 32768 := BitVec.toInt_lt
    exact hP.of_unmarshalString (by omega) h
  | bigString =>
    rw [unmarshalValue, bind_eq_ok] at h
    obtain ⟨utfLength, _, -, h⟩ := h
    exact hP.of_unmarshalString (toInt_lt_32 utfLength) h
  | list =>
    rw [unmarshalValue, bind_eq_ok] at h
    obtain ⟨values, _, hread, h⟩ := h
    cases h
    obtain ⟨hlen, hvalues⟩ := of_unmarshalPrimitiveList hunmarshal hread
    exact hP.list _ hlen hvalues
  | map =>
    rw [unmarshalValue, bind_eq_ok] at h
    obtain ⟨entries, _, hread, h⟩ := h
    cases h
    obtain ⟨hlen, hsorted, hentries⟩ := of_unmarshalPrimitiveMap hunmarshal hread
    exact hP.map _ hlen hsorted hentries
  | boolean | byte | short | integer | long | double | float =>
    rw [unmarshalValue, bind_eq_ok] at h
    obtain ⟨_, _, -, h⟩ := h
    cases h
    first
      | exact hP.boolean _ | exact hP.byte _ | exact hP.short _ | exact hP.integer _ | exact hP.long _
      | exact hP.double _ | exact hP.float _

theorem Buildable.of_unmarshalPrimitive (hP : Buildable P) (depth : Nat)
    (h : unmarshalPrimitive depth input = .ok node rest) : P node := by
  induction depth generalizing input rest node with
  | zero => cases h
  | succ depth ih =>
    rw [unmarshalPrimitive, mapError_eq_ok, bind_eq_ok] at h
    obtain ⟨type, input', -, h⟩ := h
    cases htype : PrimitiveType.ofByte? type with
    | none => simp [htype] at h
    | some type =>
      simp only [htype] at h
      exact hP.of_unmarshalValue (fun hread => ih hread) h

end Received

theorem buildable_transmittable : Buildable PrimitiveValueNode.Transmittable where
  null := trivial
  boolean _ := trivial
  byte _ := trivial
  char _ := trivial
  short _ := trivial
  integer _ := trivial
  long _ := trivial
  float _ := trivial
  double _ := trivial
  string _ hne hlen := ⟨hne, hlen⟩
  byteArray _ hlen := hlen
  list _ hlen hvalues := ⟨hlen, transmittableValues_iff.mpr hvalues⟩
  map _ hlen _ hentries := ⟨hlen, transmittableEntries_iff.mpr hentries⟩

theorem transmittable_of_unmarshalPrimitiveMap {depth : Nat}
    {input rest : List UInt8} (h : unmarshalPrimitiveMap (unmarshalPrimitive depth) [] input = .ok entries rest) :
    (PrimitiveValueNode.map entries).Transmittable := by
  obtain ⟨hlen, -, hentries⟩ := of_unmarshalPrimitiveMap (buildable_transmittable.of_unmarshalPrimitive depth) h
  exact ⟨hlen, transmittableEntries_iff.mpr hentries⟩

/-! ### What is read back -/

/-- The node is written to some bytes and read back from them by a receiver that can nest deep enough. -/
def Transfers (node : PrimitiveValueNode) : Prop :=
  ∃ bytes depth, Emits (marshalPrimitive node) () bytes ∧
    ∀ d, depth ≤ d → Parses (unmarshalPrimitive d) bytes node

theorem ofByte?_toByte (type : PrimitiveType) : PrimitiveType.ofByte? type.toByte = some type := by
  cases type <;> rfl

theorem emits_writeType (type : PrimitiveType) : Emits (writeType type) () [type.toByte] :=
  emits_put _

theorem parses_unmarshalPrimitive {type : PrimitiveType} {payload : List UInt8}
    {node : PrimitiveValueNode} {depth : Nat}
    (h : Parses (unmarshalValue (unmarshalPrimitive depth) type) payload node) :
    Parses (unmarshalPrimitive (depth + 1)) ([type.toByte] ++ payload) node := by
  apply Parses.mapError
  refine (parses_readByte type.toByte).bind ?_
  simp only [ofByte?_toByte]
  exact h

theorem transfers_of_payload (type : PrimitiveType) (payload : List UInt8) (depth : Nat)
    {node : PrimitiveValueNode} (hemits : Emits (marshalPrimitive node) () ([type.toByte] ++ payload))
    (hparses : ∀ d, depth ≤ d → Parses (unmarshalValue (unmarshalPrimitive d) type) payload node) :
    Transfers node := by
  refine ⟨[type.toByte] ++ payload, depth + 1, hemits, ?_⟩
  intro d hd
  obtain ⟨d, rfl⟩ : ∃ d', d = d' + 1 := ⟨d - 1, by omega⟩
  exact parses_unmarshalPrimitive (hparses d (by omega))

theorem transfers_scalar {α : Type} (type : PrimitiveType) {node : α → PrimitiveValueNode} {value : α}
    {write : DataOut Unit} {read : DataIn α} {payload : List UInt8}
    (hmarshal : marshalPrimitive (node value) = mapError catchExceptionConvert do
      writeType type
      write)
    (hunmarshal : ∀ unmarshal, unmarshalValue unmarshal type = do
      let value ← read
      pure (node value))
    (hwrite : Emits write () payload) (hread : Parses read payload value) : Transfers (node value) := by
  apply transfers_of_payload type payload 0
  · rw [hmarshal]
    exact mapError ((emits_writeType type).bind hwrite)
  · intro d _
    rw [hunmarshal]
    exact hread.bind_nil (pure _)

theorem transfers_boolean (value : Bool) : Transfers (.boolean value) :=
  transfers_scalar .boolean rfl (fun _ => rfl) (emits_writeBoolean value)
    (parses_readBoolean value)

theorem transfers_byte (value : UInt8) : Transfers (.byte value) :=
  transfers_scalar .byte rfl (fun _ => rfl) (emits_writeByte value)
    (parses_readByte value)

theorem transfers_short (value : BitVec 16) : Transfers (.short value) :=
  transfers_scalar .short rfl (fun _ => rfl) (emits_writeShort value)
    (parses_readShort value)

theorem transfers_integer (value : BitVec 32) : Transfers (.integer value) :=
  transfers_scalar .integer rfl (fun _ => rfl) (emits_writeInt value)
    (parses_readInt value)

theorem transfers_long (value : BitVec 64) : Transfers (.long value) :=
  transfers_scalar .long rfl (fun _ => rfl) (emits_writeLong value)
    (parses_readLong value)

theorem transfers_float (bits : BitVec 32) : Transfers (.float bits) :=
  transfers_scalar .float rfl (fun _ => rfl)
    (emits_writeFloat bits) (parses_readFloat bits)

theorem transfers_double (bits : BitVec 64) : Transfers (.double bits) :=
  transfers_scalar .double rfl (fun _ => rfl)
    (emits_writeDouble bits) (parses_readDouble bits)

theorem transfers_char (value : UInt8) : Transfers (.char value) := by
  apply transfers_of_payload .char ([0] ++ [value]) 0
  · rw [marshalPrimitive_char]
    exact mapError ((emits_writeType .char).bind
      ((emits_put [0]).bind (emits_put [value])))
  · intro d _
    exact (parses_readByte 0).bind
      ((parses_readChar value).bind_nil (pure _))

/-- The `int` and the `short` that count fewer than `2^31` and fewer than `2^15` elements. -/
theorem toInt_ofNat_32 {n : Nat} (h : n < 2147483648) : (BitVec.ofNat 32 n).toInt = n := by
  have hnat : (BitVec.ofNat 32 n).toNat = n := by
    rw [BitVec.toNat_ofNat, Nat.mod_eq_of_lt (by omega)]
  rw [BitVec.toInt_eq_toNat_of_lt (by omega), hnat]

theorem toInt_ofNat_16 {n : Nat} (h : n < 32768) : (BitVec.ofNat 16 n).toInt = n := by
  have hnat : (BitVec.ofNat 16 n).toNat = n := by
    rw [BitVec.toNat_ofNat, Nat.mod_eq_of_lt (by omega)]
  rw [BitVec.toInt_eq_toNat_of_lt (by omega), hnat]

theorem transfers_byteArray (h : value.length < 2147483648) : Transfers (.byteArray value) := by
  apply transfers_of_payload .byteArray (bytesBE (BitVec.ofNat 32 value.length) 4 ++ value) 0
  · apply Emits.mapError
    refine (emits_writeType .byteArray).bind ((emits_writeInt _).bind ?_)
    by_cases hnil : value = []
    · rw [if_neg (by simp [hnil]), hnil]
      exact pure ()
    · rw [if_pos hnil, toInt32_of_range (by omega) (by omega)]
      exact emits_write_all rfl
  · intro d _
    refine (parses_readInt _).bind ?_
    rw [toInt_ofNat_32 h, unmarshalByteArray]
    by_cases hpos : (value.length : Int) > 0
    · rw [if_pos hpos]
      exact (parses_readFully rfl).bind_nil (pure _)
    · rw [if_neg hpos, length_eq_zero_iff.mp (show value.length = 0 by omega)]
      exact pure _

theorem parses_unmarshalString (h : value ≠ []) : Parses (unmarshalString value.length) value (.string value) := by
  have hpos := length_pos_iff.mpr h
  rw [unmarshalString, if_pos (by omega)]
  exact (parses_readFully rfl).bind_nil (pure _)

theorem transfers_string (hne : value ≠ []) (h : value.length < 2147483648) : Transfers (.string value) := by
  have hpos := length_pos_iff.mpr hne
  by_cases hbig : value.length > 8191
  · apply transfers_of_payload .bigString (bytesBE (BitVec.ofNat 32 value.length) 4 ++ value) 0
    · rw [marshalPrimitive_string]
      apply Emits.mapError
      unfold marshalString
      simp only [toInt32_of_range (show -2147483648 ≤ (value.length : Int) by omega) (by omega)]
      rw [if_neg (by omega), if_pos (by omega), BitVec.ofInt_natCast]
      exact (emits_writeType .bigString).bind
        ((emits_writeInt _).bind (emits_write_all rfl))
    · intro d _
      refine (parses_readInt _).bind ?_
      rw [toInt_ofNat_32 h]
      exact parses_unmarshalString hne
  · apply transfers_of_payload .string (bytesBE (BitVec.ofNat 16 value.length) 2 ++ value) 0
    · rw [marshalPrimitive_string]
      apply Emits.mapError
      unfold marshalString
      simp only [toInt32_of_range (show -2147483648 ≤ (value.length : Int) by omega) (by omega)]
      rw [if_neg (by omega), if_neg (by omega), BitVec.ofInt_natCast]
      exact (emits_writeType .string).bind
        ((emits_writeShort _).bind (emits_write_all rfl))
    · intro d _
      refine (parses_readShort _).bind ?_
      rw [toInt_ofNat_16 (by omega)]
      exact parses_unmarshalString hne

/-- The elements of a list, whatever the list they are added to. -/
def TransfersValues (values : List PrimitiveValueNode) : Prop :=
  ∃ bytes depth, Emits (marshalValues values values.length) () bytes ∧
    ∀ d, depth ≤ d → ∀ list,
      Parses (readValues (unmarshalPrimitive d) values.length list) bytes (list ++ values)

/-- The entries of a map, whatever the map they are put into. -/
def TransfersEntries (entries : List (ByteString × PrimitiveValueNode)) : Prop :=
  ∃ bytes depth, Emits (marshalEntries entries) () bytes ∧
    ∀ d, depth ≤ d → ∀ map, Parses (readEntries (unmarshalPrimitive d) entries.length map) bytes
      (entries.foldl (fun map e => OrderedMap.put e.1 e.2 map) map)

theorem transfersValues_cons {value : PrimitiveValueNode}
    (hvalue : Transfers value) (hvalues : TransfersValues values) : TransfersValues (value :: values) := by
  obtain ⟨bytes, depth, hemits, hparses⟩ := hvalue
  obtain ⟨bytes', depth', hemits', hparses'⟩ := hvalues
  refine ⟨bytes ++ bytes', max depth depth', ?_, ?_⟩
  · exact hemits.bind hemits'
  · intro d hd list
    have hrest := hparses' d (by omega) (list ++ [value])
    rw [append_assoc] at hrest
    exact (hparses d (by omega)).bind hrest

theorem transfersEntries_cons {key : ByteString} {value : PrimitiveValueNode} (hkey : utfLength key < 65536)
    (hvalue : Transfers value) (hentries : TransfersEntries entries) :
    TransfersEntries ((key, value) :: entries) := by
  obtain ⟨bytes, depth, hemits, hparses⟩ := hvalue
  obtain ⟨bytes', depth', hemits', hparses'⟩ := hentries
  refine ⟨bytesBE (BitVec.ofNat 16 (utfLength key)) 2 ++ utfBytes key ++
    (bytes ++ bytes'), max depth depth', ?_, ?_⟩
  · exact (emits_writeUTF hkey).bind (hemits.bind hemits')
  · intro d hd map
    exact (parses_readUTF hkey).bind
      ((hparses d (by omega)).bind (hparses' d (by omega) _))

theorem transfers_marshalPrimitiveList (hlen : values.length < 2147483648) (h : TransfersValues values) :
    ∃ bytes depth, Emits (marshalPrimitiveList values) () bytes ∧
      ∀ d, depth ≤ d → Parses (unmarshalPrimitiveList (unmarshalPrimitive d) []) bytes values := by
  obtain ⟨bytes, depth, hemits, hparses⟩ := h
  refine ⟨bytesBE (BitVec.ofNat 32 values.length) 4 ++ bytes, depth, ?_, ?_⟩
  · apply Emits.mapError
    refine (emits_writeInt _).bind ?_
    rw [toInt32_of_range (by omega) (by omega), Int.toNat_natCast]
    exact hemits
  · intro d hd
    apply Parses.mapError
    refine (parses_readInt _).bind ?_
    rw [toInt_ofNat_32 hlen, Int.toNat_natCast]
    exact hparses d hd []

theorem transfers_marshalPrimitiveMap (hlen : entries.length < 2147483648) (hsorted : OrderedMap.Sorted entries)
    (h : TransfersEntries entries) :
    ∃ bytes depth, Emits (marshalPrimitiveMap entries) () bytes ∧
      ∀ d, depth ≤ d → Parses (unmarshalPrimitiveMap (unmarshalPrimitive d) []) bytes entries := by
  obtain ⟨bytes, depth, hemits, hparses⟩ := h
  refine ⟨bytesBE (BitVec.ofNat 32 entries.length) 4 ++ bytes, depth, ?_, ?_⟩
  · exact mapError ((emits_writeInt _).bind hemits)
  · intro d hd
    apply Parses.mapError
    refine (parses_readInt _).bind ?_
    have hread := hparses d hd []
    rw [OrderedMap.foldl_put (by exact hsorted), nil_append] at hread
    rw [toInt_ofNat_32 hlen, Int.toNat_natCast]
    exact hread

theorem transfers_list (hlen : values.length < 2147483648)
    (h : TransfersValues values) : Transfers (.list values) := by
  obtain ⟨bytes, depth, hemits, hparses⟩ := transfers_marshalPrimitiveList hlen h
  apply transfers_of_payload .list bytes depth
  · exact mapError ((emits_writeType .list).bind hemits)
  · intro d hd
    exact (hparses d hd).bind_nil (pure _)

theorem transfers_map (hlen : entries.length < 2147483648) (hsorted : OrderedMap.Sorted entries)
    (h : TransfersEntries entries) : Transfers (.map entries) := by
  obtain ⟨bytes, depth, hemits, hparses⟩ := transfers_marshalPrimitiveMap hlen hsorted h
  apply transfers_of_payload .map bytes depth
  · exact mapError ((emits_writeType .map).bind hemits)
  · intro d hd
    exact (hparses d hd).bind_nil (pure _)

mutual

theorem transfers_of_transmittable : ∀ node : PrimitiveValueNode, node.Valid → node.Transmittable → Transfers node
  | .null, hvalid, _ => hvalid.elim
  | .boolean value, _, _ => transfers_boolean value
  | .byte value, _, _ => transfers_byte value
  | .char value, _, _ => transfers_char value
  | .short value, _, _ => transfers_short value
  | .integer value, _, _ => transfers_integer value
  | .long value, _, _ => transfers_long value
  | .double bits, _, _ => transfers_double bits
  | .float bits, _, _ => transfers_float bits
  | .string _, _, htransmit => transfers_string htransmit.1 htransmit.2
  | .byteArray _, _, htransmit => transfers_byteArray htransmit
  | .map entries, hvalid, htransmit =>
    transfers_map htransmit.1 hvalid.1 (transfersEntries_of_transmittable entries hvalid.2 htransmit.2)
  | .list values, hvalid, htransmit =>
    transfers_list htransmit.1 (transfersValues_of_transmittable values hvalid htransmit.2)

theorem transfersValues_of_transmittable : ∀ values : List PrimitiveValueNode, ValidValues values →
    TransmittableValues values → TransfersValues values
  | [], _, _ => ⟨[], 0, pure (), fun _ _ list => by
    rw [append_nil]
    exact pure list⟩
  | value :: values, hvalid, htransmit =>
    transfersValues_cons (transfers_of_transmittable value hvalid.1 htransmit.1)
      (transfersValues_of_transmittable values hvalid.2 htransmit.2)

theorem transfersEntries_of_transmittable : ∀ entries : List (ByteString × PrimitiveValueNode),
    ValidEntries entries → TransmittableEntries entries → TransfersEntries entries
  | [], _, _ => ⟨[], 0, pure (), fun _ _ map => pure map⟩
  | (_, value) :: entries, hvalid, htransmit =>
    transfersEntries_cons hvalid.1 (transfers_of_transmittable value hvalid.2.1 htransmit.1)
      (transfersEntries_of_transmittable entries hvalid.2.2 htransmit.2)

end

/-! ### Maps and lists as a whole -/

/-- The bytes of the map are read back into an equal map, whatever follows them. -/
def MapRoundTrip (entries : List (ByteString × PrimitiveValueNode)) : Prop :=
  ∃ bytes depth, marshalPrimitiveMap entries [] = .ok () bytes ∧
    ∀ d, depth ≤ d → ∀ rest,
      unmarshalPrimitiveMap (unmarshalPrimitive d) [] (bytes ++ rest) = .ok entries rest

def ListRoundTrip (values : List PrimitiveValueNode) : Prop :=
  ∃ bytes depth, marshalPrimitiveList values [] = .ok () bytes ∧
    ∀ d, depth ≤ d → ∀ rest,
      unmarshalPrimitiveList (unmarshalPrimitive d) [] (bytes ++ rest) = .ok values rest

theorem MapRoundTrip.transmittable (h : MapRoundTrip entries) : (PrimitiveValueNode.map entries).Transmittable := by
  obtain ⟨bytes, depth, -, hread⟩ := h
  exact transmittable_of_unmarshalPrimitiveMap (hread depth (le_refl _) [])

theorem ListRoundTrip.transmittable (h : ListRoundTrip values) : (PrimitiveValueNode.list values).Transmittable := by
  obtain ⟨bytes, depth, -, hread⟩ := h
  obtain ⟨hlen, hvalues⟩ := of_unmarshalPrimitiveList (buildable_transmittable.of_unmarshalPrimitive depth)
    (hread depth (le_refl _) [])
  exact ⟨hlen, transmittableValues_iff.mpr hvalues⟩

/-- A map or a list without `NULL` nodes is read back as it was exactly when no string in it is empty and
no string, byte array, list or map in it has more elements than an `int` counts. -/
theorem primitive_roundTrip_iff_transmittable (entries : List (ByteString × PrimitiveValueNode))
    (values : List PrimitiveValueNode) :
    ((PrimitiveValueNode.map entries).Valid →
      (MapRoundTrip entries ↔ (PrimitiveValueNode.map entries).Transmittable)) ∧
    ((PrimitiveValueNode.list values).Valid →
      (ListRoundTrip values ↔ (PrimitiveValueNode.list values).Transmittable)) := by
  constructor
  · intro hvalid
    refine ⟨MapRoundTrip.transmittable, ?_⟩
    rintro ⟨hlen, htransmit⟩
    obtain ⟨bytes, depth, hemits, hparses⟩ := transfers_marshalPrimitiveMap hlen hvalid.1
      (transfersEntries_of_transmittable entries hvalid.2 htransmit)
    refine ⟨bytes, depth, ?_, hparses⟩
    rw [hemits [], nil_append]
  · intro hvalid
    refine ⟨ListRoundTrip.transmittable, ?_⟩
    rintro ⟨hlen, htransmit⟩
    obtain ⟨bytes, depth, hemits, hparses⟩ := transfers_marshalPrimitiveList hlen
      (transfersValues_of_transmittable values hvalid htransmit)
    refine ⟨bytes, depth, ?_, hparses⟩
    rw [hemits [], nil_append]

/-- A map that holds a nested list and a list that holds a nested map. -/
theorem primitive_roundTrip_nested :
    MapRoundTrip [([0x61], .list [.string [0x62], .short 7])] ∧
      ListRoundTrip [.map [([0x61], .byteArray [])], .boolean true] := by
  constructor
  · refine ((primitive_roundTrip_iff_transmittable _ []).1 ?_).mpr ?_
    · exact ⟨pairwise_singleton _ _, by decide, ⟨trivial, trivial, trivial⟩, trivial⟩
    · exact ⟨by decide, ⟨by decide, ⟨by decide, by decide⟩, trivial, trivial⟩, trivial⟩
  · refine ((primitive_roundTrip_iff_transmittable [] _).2 ?_).mpr ?_
    · exact ⟨⟨pairwise_singleton _ _, by decide, trivial, trivial⟩, trivial, trivial⟩
    · exact ⟨by decide, ⟨by decide, Nat.zero_lt_succ _, trivial⟩, trivial, trivial⟩

/-- The empty string comes back as a `NULL` node. -/
theorem primitive_roundTrip_empty_string_fails :
    (PrimitiveValueNode.list [.string []]).Valid ∧ ¬ ListRoundTrip [.string []] ∧
      marshalPrimitiveList [.string []] [] = .ok () [0, 0, 0, 1, 9, 0, 0] ∧
      unmarshalPrimitiveList (unmarshalPrimitive 1) [] [0, 0, 0, 1, 9, 0, 0] = .ok [.null] [] := by
  refine ⟨⟨trivial, trivial⟩, ?_, rfl, rfl⟩
  intro h
  exact h.transmittable.2.1.1 rfl

end ActiveMQCpp.Wire
