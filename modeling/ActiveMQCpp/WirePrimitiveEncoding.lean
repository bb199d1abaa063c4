import ActiveMQCpp.UtilMarshallingSupport
import ActiveMQCpp.WirePrimitiveRewrite

/-! The encodings that `unmarshalPrimitive` takes, the ones that the marshaller never writes included: what
the reader accepts is the text of one of them, and it returns the node that the encoding stands for. -/

namespace ActiveMQCpp.Wire

open Codec Bytes MachineInt Decaf Util DataInputStream List Parses

/-- A value as the bytes have it. A size is a number of its own: what is not positive counts as nothing. A
key is kept as its modified UTF bytes. -/
inductive PrimitiveEncoding where
  | null
  | boolean (value : UInt8)
  | byte (value : UInt8)
  | char (high value : UInt8)
  | short (value : BitVec 16)
  | integer (value : BitVec 32)
  | long (value : BitVec 64)
  | double (bits : BitVec 64)
  | float (bits : BitVec 32)
  | byteArray (size : BitVec 32) (data : ByteString)
  | string (utfLength : BitVec 16) (data : ByteString)
  | bigString (utfLength : BitVec 32) (data : ByteString)
  | list (size : BitVec 32) (values : List PrimitiveEncoding)
  | map (size : BitVec 32) (entries : List (ByteString × PrimitiveEncoding))

namespace PrimitiveEncoding

variable {data : ByteString} {size : BitVec 32} {d : Nat}

def type : PrimitiveEncoding → PrimitiveType
  | .null => .null
  | .boolean _ => .boolean
  | .byte _ => .byte
  | .char _ _ => .char
  | .short _ => .short
  | .integer _ => .integer
  | .long _ => .long
  | .double _ => .double
  | .float _ => .float
  | .byteArray _ _ => .byteArray
  | .string _ _ => .string
  | .bigString _ _ => .bigString
  | .list _ _ => .list
  | .map _ _ => .map

mutual

def payload : PrimitiveEncoding → List UInt8
  | .null => []
  | .boolean value => [value]
  | .byte value => [value]
  | .char high value => [high, value]
  | .short value => bytesBE value 2
  | .integer value => bytesBE value 4
  | .long value => bytesBE value 8
  | .double bits => bytesBE bits 8
  | .float bits => bytesBE bits 4
  | .byteArray size data => bytesBE size 4 ++ data
  | .string utfLength data => bytesBE utfLength 2 ++ data
  | .bigString utfLength data => bytesBE utfLength 4 ++ data
  | .list size values => bytesBE size 4 ++ payloadValues values
  | .map size entries => bytesBE size 4 ++ payloadEntries entries

def payloadValues : List PrimitiveEncoding → List UInt8
  | [] => []
  | value :: values => [value.type.toByte] ++ value.payload ++ payloadValues values

def payloadEntries : List (ByteString × PrimitiveEncoding) → List UInt8
  | [] => []
  | (key, value) :: entries =>
    bytesBE (BitVec.ofNat 16 key.length) 2 ++ key ++
      ([value.type.toByte] ++ value.payload ++ payloadEntries entries)

end

def bytes (e : PrimitiveEncoding) : List UInt8 := [e.type.toByte] ++ e.payload

mutual

/-- The data are as long as their size says, and the keys decode. -/
def WellFormed : PrimitiveEncoding → Prop
  | .byteArray size data => data.length = size.toInt.toNat
  | .string utfLength data => data.length = utfLength.toInt.toNat
  | .bigString utfLength data => data.length = utfLength.toInt.toNat
  | .list size values => values.length = size.toInt.toNat ∧ WellFormedValues values
  | .map size entries => entries.length = size.toInt.toNat ∧ WellFormedEntries entries
  | _ => True

def WellFormedValues : List PrimitiveEncoding → Prop
  | [] => True
  | value :: values => value.WellFormed ∧ WellFormedValues values

def WellFormedEntries : List (ByteString × PrimitiveEncoding) → Prop
  | [] => True
  | (key, value) :: entries =>
    key.length < 65536 ∧ (∃ decoded, DataInputStream.utfDecode key = .ok decoded) ∧ value.WellFormed ∧
      WellFormedEntries entries

end

def keyOf (key : ByteString) : ByteString :=
  match DataInputStream.utfDecode key with
  | .ok decoded => decoded
  | .error _ => []

mutual

def node : PrimitiveEncoding → PrimitiveValueNode
  | .null => .null
  | .boolean value => .boolean (value != 0)
  | .byte value => .byte value
  | .char _ value => .char value
  | .short value => .short value
  | .integer value => .integer value
  | .long value => .long value
  | .double bits => .double bits
  | .float bits => .float bits
  | .byteArray _ data => .byteArray data
  | .string _ data => if data = [] then .null else .string data
  | .bigString _ data => if data = [] then .null else .string data
  | .list _ values => .list (nodeValues values)
  | .map _ entries => .map (putEntries entries [])

def nodeValues : List PrimitiveEncoding → List PrimitiveValueNode
  | [] => []
  | value :: values => value.node :: nodeValues values

def putEntries : List (ByteString × PrimitiveEncoding) → List (ByteString × PrimitiveValueNode) →
    List (ByteString × PrimitiveValueNode)
  | [], done => done
  | (key, value) :: entries, done => putEntries entries (OrderedMap.put (keyOf key) value.node done)

end

/-! ### Every encoding is read -/

theorem parses_string {utfLength : Int} (h : data.length = utfLength.toNat) :
    Parses (unmarshalString utfLength) data (if data = [] then .null else .string data) := by
  unfold unmarshalString
  by_cases hpos : utfLength > 0
  · have hne : data ≠ [] := by
      intro hnil
      rw [hnil, length_nil] at h
      omega
    rw [if_pos hpos, if_neg hne]
    exact (parses_readFully (by omega)).bind_nil (pure _)
  · have hnil : data = [] := length_eq_zero_iff.mp (by omega)
    rw [if_neg hpos, hnil, if_pos rfl]
    exact pure _

theorem parses_byteArray {size : Int} (h : data.length = size.toNat) :
    Parses (unmarshalByteArray size) data (.byteArray data) := by
  unfold unmarshalByteArray
  by_cases hpos : size > 0
  · rw [if_pos hpos]
    exact (parses_readFully (by omega)).bind_nil (pure _)
  · have hnil : data = [] := length_eq_zero_iff.mp (by omega)
    rw [if_neg hpos, hnil]
    exact pure _

theorem parses_key {key decoded : ByteString} (hlen : key.length < 65536) (h : utfDecode key = .ok decoded) :
    Parses readUTF (bytesBE (BitVec.ofNat 16 key.length) 2 ++ key) (keyOf key) := by
  intro rest
  rw [MarshallingSupport.readUTF_modifiedUtf8ToAscii (by omega), MarshallingSupport.modifiedUtf8ToAscii_eq,
    keyOf, h]

/-- The body of the `switch` takes the payload; it nests no deeper than the payload is long. -/
def Read (e : PrimitiveEncoding) : Prop :=
  ∀ d, e.payload.length ≤ d → Parses (unmarshalValue (unmarshalPrimitive d) e.type) e.payload e.node

def ReadValues (values : List PrimitiveEncoding) : Prop :=
  ∀ d, (payloadValues values).length ≤ d → ∀ list,
    Parses (readValues (unmarshalPrimitive d) values.length list) (payloadValues values)
      (list ++ nodeValues values)

def ReadEntries (entries : List (ByteString × PrimitiveEncoding)) : Prop :=
  ∀ d, (payloadEntries entries).length ≤ d → ∀ map,
    Parses (readEntries (unmarshalPrimitive d) entries.length map) (payloadEntries entries)
      (putEntries entries map)

theorem Read.flat {e : PrimitiveEncoding}
    (h : ∀ d, Parses (unmarshalValue (unmarshalPrimitive d) e.type) e.payload e.node) : e.Read :=
  fun d _ => h d

theorem ReadValues.cons {value : PrimitiveEncoding} {values : List PrimitiveEncoding} (hvalue : value.Read)
    (hvalues : ReadValues values) : ReadValues (value :: values) := by
  intro d hd list
  rw [payloadValues] at hd
  simp only [length_append, length_singleton] at hd
  obtain ⟨d, rfl⟩ : ∃ d', d = d' + 1 := ⟨d - 1, by omega⟩
  have hrest := hvalues (d + 1) (by omega) (list ++ [value.node])
  rw [append_assoc, singleton_append] at hrest
  exact (parses_unmarshalPrimitive (hvalue d (by omega))).bind hrest

theorem ReadEntries.cons {key decoded : ByteString} {value : PrimitiveEncoding}
    {entries : List (ByteString × PrimitiveEncoding)} (hlen : key.length < 65536)
    (hkey : utfDecode key = .ok decoded) (hvalue : value.Read) (hentries : ReadEntries entries) :
    ReadEntries ((key, value) :: entries) := by
  intro d hd map
  rw [payloadEntries] at hd
  simp only [length_append, length_singleton] at hd
  obtain ⟨d, rfl⟩ : ∃ d', d = d' + 1 := ⟨d - 1, by omega⟩
  exact (parses_key hlen hkey).bind
    ((parses_unmarshalPrimitive (hvalue d (by omega))).bind (hentries (d + 1) (by omega) _))

theorem ReadValues.list {values : List PrimitiveEncoding}
    (hlen : values.length = size.toInt.toNat) (h : ReadValues values)
    (hd : (PrimitiveEncoding.list size values).payload.length ≤ d) :
    Parses (unmarshalPrimitiveList (unmarshalPrimitive d) []) (PrimitiveEncoding.list size values).payload
      (nodeValues values) := by
  apply Parses.mapError
  rw [payload, length_append] at hd
  rw [payload]
  refine (parses_readInt size).bind ?_
  rw [← hlen]
  exact h d (by omega) []

theorem ReadEntries.map {entries : List (ByteString × PrimitiveEncoding)}
    (hlen : entries.length = size.toInt.toNat) (h : ReadEntries entries)
    (hd : (PrimitiveEncoding.map size entries).payload.length ≤ d) :
    Parses (unmarshalPrimitiveMap (unmarshalPrimitive d) []) (PrimitiveEncoding.map size entries).payload
      (putEntries entries []) := by
  apply Parses.mapError
  rw [payload, length_append] at hd
  rw [payload]
  refine (parses_readInt size).bind ?_
  rw [← hlen]
  exact h d (by omega) []

mutual

theorem read_of_wellFormed : ∀ e : PrimitiveEncoding, e.WellFormed → e.Read
  | .null, _ => .flat fun _ => pure _
  | .boolean value, _ => .flat fun _ =>
    (parses_readBoolean_byte value).bind_nil (pure _)
  | .byte value, _ => .flat fun _ => (parses_readByte value).bind_nil (pure _)
  | .char high value, _ => .flat fun _ =>
    (parses_readByte high).bind
      ((parses_readChar value).bind_nil (pure _))
  | .short value, _ => .flat fun _ => (parses_readShort value).bind_nil (pure _)
  | .integer value, _ => .flat fun _ => (parses_readInt value).bind_nil (pure _)
  | .long value, _ => .flat fun _ => (parses_readLong value).bind_nil (pure _)
  | .double bits, _ => .flat fun _ => (parses_readDouble bits).bind_nil (pure _)
  | .float bits, _ => .flat fun _ => (parses_readFloat bits).bind_nil (pure _)
  | .byteArray size _, h => .flat fun _ =>
    (parses_readInt size).bind (parses_byteArray h)
  | .string utfLength _, h => .flat fun _ =>
    (parses_readShort utfLength).bind (parses_string h)
  | .bigString utfLength _, h => .flat fun _ =>
    (parses_readInt utfLength).bind (parses_string h)
  | .list _ values, h => fun _ hd =>
    (ReadValues.list h.1 (readValues_of_wellFormed values h.2) hd).bind_nil (pure _)
  | .map _ entries, h => fun _ hd =>
    (ReadEntries.map h.1 (readEntries_of_wellFormed entries h.2) hd).bind_nil (pure _)

theorem readValues_of_wellFormed : ∀ values : List PrimitiveEncoding, WellFormedValues values → ReadValues values
  | [], _ => fun _ _ list => by
    rw [nodeValues, append_nil]
    exact pure _
  | value :: values, h => ReadValues.cons (read_of_wellFormed value h.1) (readValues_of_wellFormed values h.2)

theorem readEntries_of_wellFormed : ∀ entries : List (ByteString × PrimitiveEncoding),
    WellFormedEntries entries → ReadEntries entries
  | [], _ => fun _ _ _ => pure _
  | (_, value) :: entries, h => by
    obtain ⟨hlen, ⟨decoded, hkey⟩, hvalue, hentries⟩ := h
    exact ReadEntries.cons hlen hkey (read_of_wellFormed value hvalue) (readEntries_of_wellFormed entries hentries)

end

/-! ### Nothing else is read -/

section Accepted

variable {unmarshal : DataIn PrimitiveValueNode} {input rest : List UInt8}
variable {node : PrimitiveValueNode}
variable {count : Nat} {values : List PrimitiveValueNode} {entries : List (ByteString × PrimitiveValueNode)}

/-- What the program accepts is the text of an encoding, and it returns the node. -/
def Accepts (unmarshal : DataIn PrimitiveValueNode) : Prop :=
  ∀ {input rest : List UInt8} {node : PrimitiveValueNode}, unmarshal input = .ok node rest →
    ∃ e : PrimitiveEncoding, e.WellFormed ∧ input = e.bytes ++ rest ∧ node = e.node

theorem accepted_string {utfLength : Int} (h : unmarshalString utfLength input = .ok node rest) :
    ∃ data : ByteString, data.length = utfLength.toNat ∧ input = data ++ rest ∧
      node = if data = [] then .null else .string data := by
  unfold unmarshalString at h
  split_ifs at h with hpos
  · obtain ⟨data, input', hread, hvalue⟩ := bind_eq_ok.mp h
    obtain ⟨hlen, hinput⟩ := readFully_eq_ok hread
    injection hvalue with hnode hrest
    subst hrest
    have hne : data ≠ [] := by
      intro hnil
      rw [hnil, length_nil] at hlen
      omega
    exact ⟨data, by omega, hinput, by rw [if_neg hne, hnode]⟩
  · injection h with hnode hrest
    subst hrest
    exact ⟨[], by rw [length_nil]; omega, rfl, by rw [if_pos rfl, hnode]⟩

theorem accepted_byteArray {size : Int} (h : unmarshalByteArray size input = .ok node rest) :
    ∃ data : ByteString, data.length = size.toNat ∧ input = data ++ rest ∧ node = .byteArray data := by
  unfold unmarshalByteArray at h
  split_ifs at h with hpos
  · obtain ⟨data, input', hread, hvalue⟩ := bind_eq_ok.mp h
    obtain ⟨hlen, hinput⟩ := readFully_eq_ok hread
    injection hvalue with hnode hrest
    subst hrest
    exact ⟨data, by omega, hinput, hnode.symm⟩
  · injection h with hnode hrest
    subst hrest
    exact ⟨[], by rw [length_nil]; omega, rfl, hnode.symm⟩

theorem accepted_values (hunmarshal : Accepts unmarshal) {list : List PrimitiveValueNode}
    (h : readValues unmarshal count list input = .ok values rest) :
    ∃ es : List PrimitiveEncoding, es.length = count ∧ WellFormedValues es ∧ input = payloadValues es ++ rest ∧
      values = list ++ nodeValues es := by
  induction count generalizing list input with
  | zero =>
    injection h with hvalues hrest
    subst hrest
    exact ⟨[], rfl, trivial, rfl, by rw [nodeValues, append_nil, hvalues]⟩
  | succ count ih =>
    obtain ⟨value, input', hvalue, hmore⟩ := bind_eq_ok.mp h
    obtain ⟨e, he, hinput, hnode⟩ := hunmarshal hvalue
    obtain ⟨es, hlen, hes, hinput', hvalues⟩ := ih hmore
    refine ⟨e :: es, by rw [length_cons, hlen], ⟨he, hes⟩, ?_, ?_⟩
    · rw [hinput, hinput', payloadValues, bytes]
      simp only [append_assoc]
    · rw [hvalues, nodeValues, hnode, append_assoc, singleton_append]

theorem accepted_entries (hunmarshal : Accepts unmarshal) {map : List (ByteString × PrimitiveValueNode)}
    (h : readEntries unmarshal count map input = .ok entries rest) :
    ∃ es : List (ByteString × PrimitiveEncoding), es.length = count ∧ WellFormedEntries es ∧
      input = payloadEntries es ++ rest ∧ entries = putEntries es map := by
  induction count generalizing map input with
  | zero =>
    injection h with hentries hrest
    subst hrest
    exact ⟨[], rfl, trivial, rfl, hentries.symm⟩
  | succ count ih =>
    obtain ⟨decoded, input', hkey, hmore⟩ := bind_eq_ok.mp h
    obtain ⟨value, input'', hvalue, hmore⟩ := bind_eq_ok.mp hmore
    obtain ⟨key, hlen, hdecode, hinput⟩ := readUTF_eq_ok hkey
    obtain ⟨e, he, hinput', hnode⟩ := hunmarshal hvalue
    obtain ⟨es, hcount, hes, hinput'', hentries⟩ := ih hmore
    have hkeyOf : keyOf key = decoded := by rw [keyOf, hdecode]
    refine ⟨(key, e) :: es, by rw [length_cons, hcount], ⟨hlen, ⟨decoded, hdecode⟩, he, hes⟩, ?_, ?_⟩
    · rw [hinput, hinput', hinput'', payloadEntries, bytes]
      simp only [append_assoc]
    · rw [hentries, putEntries, hkeyOf, hnode]

theorem accepted_list (hunmarshal : Accepts unmarshal)
    (h : unmarshalPrimitiveList unmarshal [] input = .ok values rest) :
    ∃ size es, (PrimitiveEncoding.list size es).WellFormed ∧
      input = (PrimitiveEncoding.list size es).payload ++ rest ∧ values = nodeValues es := by
  rw [unmarshalPrimitiveList, mapError_eq_ok] at h
  obtain ⟨size, input', hsize, hread⟩ := bind_eq_ok.mp h
  obtain ⟨es, hlen, hes, hinput, hvalues⟩ := accepted_values hunmarshal hread
  refine ⟨size, es, ⟨hlen, hes⟩, ?_, hvalues⟩
  rw [readInt_eq_ok hsize, hinput, payload, append_assoc]

theorem accepted_map (hunmarshal : Accepts unmarshal)
    (h : unmarshalPrimitiveMap unmarshal [] input = .ok entries rest) :
    ∃ size es, (PrimitiveEncoding.map size es).WellFormed ∧
      input = (PrimitiveEncoding.map size es).payload ++ rest ∧ entries = putEntries es [] := by
  rw [unmarshalPrimitiveMap, mapError_eq_ok] at h
  obtain ⟨size, input', hsize, hread⟩ := bind_eq_ok.mp h
  obtain ⟨es, hlen, hes, hinput, hentries⟩ := accepted_entries hunmarshal hread
  refine ⟨size, es, ⟨hlen, hes⟩, ?_, hentries⟩
  rw [readInt_eq_ok hsize, hinput, payload, append_assoc]

theorem accepted_value (hunmarshal : Accepts unmarshal) {type : PrimitiveType}
    (h : unmarshalValue unmarshal type input = .ok node rest) :
    ∃ e : PrimitiveEncoding, e.type = type ∧ e.WellFormed ∧ input = e.payload ++ rest ∧ node = e.node := by
  cases type with
  | null =>
    injection h with hnode hrest
    subst hnode hrest
    exact ⟨.null, rfl, trivial, rfl, rfl⟩
  | boolean =>
    obtain ⟨value, input', hread, hvalue⟩ := bind_eq_ok.mp h
    obtain ⟨b, hb, hinput⟩ := readBoolean_eq_ok hread
    injection hvalue with hnode hrest
    subst hnode hrest hb
    exact ⟨.boolean b, rfl, trivial, hinput, rfl⟩
  | byte =>
    obtain ⟨value, input', hread, hvalue⟩ := bind_eq_ok.mp h
    injection hvalue with hnode hrest
    subst hnode hrest
    exact ⟨.byte value, rfl, trivial, readByte_eq_ok hread, rfl⟩
  | char =>
    obtain ⟨high, input', hhigh, hlow⟩ := bind_eq_ok.mp h
    obtain ⟨value, input'', hread, hvalue⟩ := bind_eq_ok.mp hlow
    injection hvalue with hnode hrest
    subst hnode hrest
    refine ⟨.char high value, rfl, trivial, ?_, rfl⟩
    rw [readByte_eq_ok hhigh, readChar_eq_ok hread]
    rfl
  | short =>
    obtain ⟨value, input', hread, hvalue⟩ := bind_eq_ok.mp h
    injection hvalue with hnode hrest
    subst hnode hrest
    exact ⟨.short value, rfl, trivial, readShort_eq_ok hread, rfl⟩
  | integer =>
    obtain ⟨value, input', hread, hvalue⟩ := bind_eq_ok.mp h
    injection hvalue with hnode hrest
    subst hnode hrest
    exact ⟨.integer value, rfl, trivial, readInt_eq_ok hread, rfl⟩
  | long =>
    obtain ⟨value, input', hread, hvalue⟩ := bind_eq_ok.mp h
    injection hvalue with hnode hrest
    subst hnode hrest
    exact ⟨.long value, rfl, trivial, readLong_eq_ok hread, rfl⟩
  | double =>
    obtain ⟨bits, input', hread, hvalue⟩ := bind_eq_ok.mp h
    injection hvalue with hnode hrest
    subst hnode hrest
    exact ⟨.double bits, rfl, trivial, readLong_eq_ok hread, rfl⟩
  | float =>
    obtain ⟨bits, input', hread, hvalue⟩ := bind_eq_ok.mp h
    injection hvalue with hnode hrest
    subst hnode hrest
    exact ⟨.float bits, rfl, trivial, readInt_eq_ok hread, rfl⟩
  | byteArray =>
    obtain ⟨size, input', hsize, hread⟩ := bind_eq_ok.mp h
    obtain ⟨data, hlen, hinput, hnode⟩ := accepted_byteArray hread
    refine ⟨.byteArray size data, rfl, hlen, ?_, hnode⟩
    rw [readInt_eq_ok hsize, hinput, payload, append_assoc]
  | string =>
    obtain ⟨utfLength, input', hlength, hread⟩ := bind_eq_ok.mp h
    obtain ⟨data, hlen, hinput, hnode⟩ := accepted_string hread
    refine ⟨.string utfLength data, rfl, hlen, ?_, hnode⟩
    rw [readShort_eq_ok hlength, hinput, payload, append_assoc]
  | bigString =>
    obtain ⟨utfLength, input', hlength, hread⟩ := bind_eq_ok.mp h
    obtain ⟨data, hlen, hinput, hnode⟩ := accepted_string hread
    refine ⟨.bigString utfLength data, rfl, hlen, ?_, hnode⟩
    rw [readInt_eq_ok hlength, hinput, payload, append_assoc]
  | list =>
    obtain ⟨values, input', hread, hvalue⟩ := bind_eq_ok.mp h
    injection hvalue with hnode hrest
    subst hnode hrest
    obtain ⟨size, es, hes, hinput, hvalues⟩ := accepted_list hunmarshal hread
    exact ⟨.list size es, rfl, hes, hinput, by rw [node, hvalues]⟩
  | map =>
    obtain ⟨entries, input', hread, hvalue⟩ := bind_eq_ok.mp h
    injection hvalue with hnode hrest
    subst hnode hrest
    obtain ⟨size, es, hes, hinput, hentries⟩ := accepted_map hunmarshal hread
    exact ⟨.map size es, rfl, hes, hinput, by rw [node, hentries]⟩

end Accepted

theorem toByte_of_ofByte? {b : UInt8} {type : PrimitiveType} (h : PrimitiveType.ofByte? b = some type) :
    type.toByte = b := by
  have hfound := List.find?_some h
  simpa using hfound

theorem accepts_unmarshalPrimitive (depth : Nat) : Accepts (unmarshalPrimitive depth) := by
  induction depth with
  | zero =>
    intro input rest node h
    cases h
  | succ depth ih =>
    intro input rest node h
    rw [unmarshalPrimitive, mapError_eq_ok] at h
    obtain ⟨b, input', hread, hvalue⟩ := bind_eq_ok.mp h
    cases htype : PrimitiveType.ofByte? b with
    | none =>
      simp only [htype] at hvalue
      cases hvalue
    | some type =>
      simp only [htype] at hvalue
      obtain ⟨e, heq, he, hinput, hnode⟩ := accepted_value ih hvalue
      subst heq
      refine ⟨e, he, ?_, hnode⟩
      rw [readByte_eq_ok hread, hinput, bytes, toByte_of_ofByte? htype]
      rfl

end PrimitiveEncoding

end ActiveMQCpp.Wire
