import ActiveMQCpp.WirePrimitiveRoundTrip

/-! A map that has been read is written again. What a receiver can build has everything that writing needs,
except that it may hold a `NULL` node or a key that no longer fits. -/

namespace ActiveMQCpp.Wire

open Codec Bytes MachineInt Decaf DataOutputStream

variable {entries : List (ByteString × PrimitiveValueNode)} {depth : Nat} {input rest : List UInt8}
variable {values : List PrimitiveValueNode} {m : DataOut Unit}

mutual

/-- All maps are in the order of their keys. -/
def PrimitiveValueNode.Ordered : PrimitiveValueNode → Prop
  | .map entries => OrderedMap.Sorted entries ∧ OrderedEntries entries
  | .list values => OrderedValues values
  | _ => True

def OrderedValues : List PrimitiveValueNode → Prop
  | [] => True
  | value :: values => value.Ordered ∧ OrderedValues values

def OrderedEntries : List (ByteString × PrimitiveValueNode) → Prop
  | [] => True
  | (_, value) :: entries => value.Ordered ∧ OrderedEntries entries

end

mutual

/-- There is no `NULL` node, and `writeUTF` can encode all keys. -/
def PrimitiveValueNode.Encodable : PrimitiveValueNode → Prop
  | .null => False
  | .map entries => EncodableEntries entries
  | .list values => EncodableValues values
  | _ => True

def EncodableValues : List PrimitiveValueNode → Prop
  | [] => True
  | value :: values => value.Encodable ∧ EncodableValues values

def EncodableEntries : List (ByteString × PrimitiveValueNode) → Prop
  | [] => True
  | (key, value) :: entries =>
    DataOutputStream.utfLength key < 65536 ∧ value.Encodable ∧ EncodableEntries entries

end

theorem orderedValues_iff : OrderedValues values ↔ ∀ value ∈ values, value.Ordered := by
  induction values with
  | nil => simp [OrderedValues]
  | cons value values ih => rw [OrderedValues, ih, List.forall_mem_cons]

theorem orderedEntries_iff : OrderedEntries entries ↔ ∀ entry ∈ entries, entry.2.Ordered := by
  induction entries with
  | nil => simp [OrderedEntries]
  | cons entry entries ih => rw [OrderedEntries, ih, List.forall_mem_cons]

theorem buildable_ordered : Buildable PrimitiveValueNode.Ordered where
  null := trivial
  boolean _ := trivial
  byte _ := trivial
  char _ := trivial
  short _ := trivial
  integer _ := trivial
  long _ := trivial
  float _ := trivial
  double _ := trivial
  string _ _ _ := trivial
  byteArray _ _ := trivial
  list _ _ hvalues := orderedValues_iff.mpr hvalues
  map _ _ hsorted hentries := ⟨hsorted, orderedEntries_iff.mpr hentries⟩

theorem ordered_of_unmarshalPrimitiveMap
    (h : unmarshalPrimitiveMap (unmarshalPrimitive depth) [] input = .ok entries rest) :
    (PrimitiveValueNode.map entries).Ordered := by
  obtain ⟨-, hsorted, hentries⟩ := of_unmarshalPrimitiveMap (buildable_ordered.of_unmarshalPrimitive depth) h
  exact ⟨hsorted, orderedEntries_iff.mpr hentries⟩

mutual

theorem valid_of_ordered : ∀ node : PrimitiveValueNode, node.Ordered → node.Encodable → node.Valid
  | .null, _, hencodable => hencodable
  | .boolean _, _, _ | .byte _, _, _ | .char _, _, _ | .short _, _, _ | .integer _, _, _ | .long _, _, _
  | .double _, _, _ | .float _, _, _ | .string _, _, _ | .byteArray _, _, _ => trivial
  | .map entries, hordered, hencodable =>
    ⟨hordered.1, validEntries_of_ordered entries hordered.2 hencodable⟩
  | .list values, hordered, hencodable => validValues_of_ordered values hordered hencodable

theorem validValues_of_ordered : ∀ values : List PrimitiveValueNode, OrderedValues values → EncodableValues values →
    ValidValues values
  | [], _, _ => trivial
  | value :: values, hordered, hencodable =>
    ⟨valid_of_ordered value hordered.1 hencodable.1, validValues_of_ordered values hordered.2 hencodable.2⟩

theorem validEntries_of_ordered : ∀ entries : List (ByteString × PrimitiveValueNode), OrderedEntries entries →
    EncodableEntries entries → ValidEntries entries
  | [], _, _ => trivial
  | (_, value) :: entries, hordered, hencodable =>
    ⟨hencodable.1, valid_of_ordered value hordered.1 hencodable.2.1,
      validEntries_of_ordered entries hordered.2 hencodable.2.2⟩

end

/-! ### What can be written -/

theorem utfLength_of_writeUTF {key : ByteString} {out out' : List UInt8}
    (h : writeUTF key out = .ok () out') : utfLength key < 65536 := by
  rw [writeUTF, mapError_eq_ok] at h
  rw [← length_utfBytes]
  by_contra hlong
  have hthrows : countUTFLength key > 65535 ∨
      (utfBytes key).length > countUTFLength key := by omega
  rcases hthrows with hcount | hstore
  · simp only [hcount, if_true] at h
    cases h
  · by_cases hcount : countUTFLength key > 65535
    · simp only [hcount, if_true] at h
      cases h
    · simp only [hcount, hstore, if_true, if_false] at h
      cases h

/-- The program returns on some output. -/
def Returns (m : DataOut Unit) : Prop := ∃ out out', m out = .ok () out'

theorem Returns.bind {k : DataOut Unit} (h : Returns (m >>= fun _ => k)) : Returns m ∧ Returns k := by
  obtain ⟨out, out', h⟩ := h
  obtain ⟨⟨⟩, t, hm, hk⟩ := bind_eq_ok.mp h
  exact ⟨⟨out, t, hm⟩, t, out', hk⟩

theorem Returns.mapError {g : Failure → Failure} (h : Returns (mapError g m)) : Returns m := by
  obtain ⟨out, out', h⟩ := h
  exact ⟨out, out', mapError_eq_ok.mp h⟩

/-- The node can be written. A structure, so that the recursion below does not unfold the marshaller. -/
structure Written (node : PrimitiveValueNode) : Prop where
  returns : Returns (marshalPrimitive node)

structure WrittenValues (values : List PrimitiveValueNode) : Prop where
  returns : Returns (marshalValues values values.length)

structure WrittenEntries (entries : List (ByteString × PrimitiveValueNode)) : Prop where
  returns : Returns (marshalEntries entries)

theorem not_written_null : ¬Written .null := by
  rintro ⟨out, out', h⟩
  rw [marshalPrimitive] at h
  cases h

theorem Written.map (h : Written (.map entries)) : WrittenEntries entries := by
  have hreturns := h.returns
  rw [marshalPrimitive] at hreturns
  exact ⟨hreturns.mapError.bind.2.mapError.bind.2⟩

theorem Written.list (hlen : values.length < 2147483648) (h : Written (.list values)) : WrittenValues values := by
  have hreturns := h.returns
  rw [marshalPrimitive, toInt32_of_range (by omega) (by omega), Int.toNat_natCast] at hreturns
  exact ⟨hreturns.mapError.bind.2.mapError.bind.2⟩

theorem WrittenValues.cons {value : PrimitiveValueNode} {values : List PrimitiveValueNode}
    (h : WrittenValues (value :: values)) : Written value ∧ WrittenValues values := by
  have hreturns := h.returns
  rw [List.length_cons, marshalValues] at hreturns
  exact ⟨⟨hreturns.bind.1⟩, ⟨hreturns.bind.2⟩⟩

theorem WrittenEntries.cons {key : ByteString} {value : PrimitiveValueNode}
    {entries : List (ByteString × PrimitiveValueNode)} (h : WrittenEntries ((key, value) :: entries)) :
    utfLength key < 65536 ∧ Written value ∧ WrittenEntries entries := by
  have hreturns := h.returns
  rw [marshalEntries] at hreturns
  obtain ⟨out, out', hkey⟩ := hreturns.bind.1
  exact ⟨utfLength_of_writeUTF hkey, ⟨hreturns.bind.2.bind.1⟩, ⟨hreturns.bind.2.bind.2⟩⟩

mutual

theorem encodable_of_written : ∀ node : PrimitiveValueNode, node.Transmittable → Written node → node.Encodable
  | .null, _, h => (not_written_null h).elim
  | .boolean _, _, _ | .byte _, _, _ | .char _, _, _ | .short _, _, _ | .integer _, _, _ | .long _, _, _
  | .double _, _, _ | .float _, _, _ | .string _, _, _ | .byteArray _, _, _ => trivial
  | .map entries, htransmit, h => encodableEntries_of_written entries htransmit.2 h.map
  | .list values, htransmit, h => encodableValues_of_written values htransmit.2 (h.list htransmit.1)

theorem encodableValues_of_written : ∀ values : List PrimitiveValueNode, TransmittableValues values →
    WrittenValues values → EncodableValues values
  | [], _, _ => trivial
  | value :: values, htransmit, h =>
    ⟨encodable_of_written value htransmit.1 h.cons.1, encodableValues_of_written values htransmit.2 h.cons.2⟩

theorem encodableEntries_of_written : ∀ entries : List (ByteString × PrimitiveValueNode),
    TransmittableEntries entries → WrittenEntries entries → EncodableEntries entries
  | [], _, _ => trivial
  | (_, value) :: entries, htransmit, h =>
    ⟨h.cons.1, encodable_of_written value htransmit.1 h.cons.2.1,
      encodableEntries_of_written entries htransmit.2 h.cons.2.2⟩

end

theorem transfersEntries_of_read (h : unmarshalPrimitiveMap (unmarshalPrimitive depth) [] input = .ok entries rest)
    (hencodable : EncodableEntries entries) : TransfersEntries entries :=
  transfersEntries_of_transmittable entries
    (validEntries_of_ordered entries (ordered_of_unmarshalPrimitiveMap h).2 hencodable)
    (transmittable_of_unmarshalPrimitiveMap h).2

/-- The bytes of a map that was read and is written again begin with the number of its entries. -/
theorem marshalPrimitiveMap_count (h : unmarshalPrimitiveMap (unmarshalPrimitive depth) [] input = .ok entries rest)
    (hencodable : EncodableEntries entries) :
    ∃ tail, marshalPrimitiveMap entries [] = .ok () (bytesBE (BitVec.ofNat 32 entries.length) 4 ++ tail) := by
  obtain ⟨bytes, -, hemits, -⟩ := transfersEntries_of_read h hencodable
  have hall : Emits (marshalPrimitiveMap entries) () (bytesBE (BitVec.ofNat 32 entries.length) 4 ++ bytes) :=
    Emits.mapError ((emits_writeInt _).bind hemits)
  exact ⟨bytes, hall []⟩

/-- A map that was read can be written exactly when it is encodable, and then it is read back. -/
theorem rewrite_iff (h : unmarshalPrimitiveMap (unmarshalPrimitive depth) [] input = .ok entries rest) :
    (EncodableEntries entries → MapRoundTrip entries) ∧
      ∀ out, marshalPrimitiveMap entries [] = .ok () out → EncodableEntries entries := by
  have htransmit := transmittable_of_unmarshalPrimitiveMap h
  constructor
  · intro hencodable
    obtain ⟨bytes, needed, hemits, hparses⟩ := transfers_marshalPrimitiveMap htransmit.1
      (ordered_of_unmarshalPrimitiveMap h).1 (transfersEntries_of_read h hencodable)
    exact ⟨bytes, needed, by rw [hemits [], List.nil_append], hparses⟩
  · intro out hout
    have hreturns : Returns (marshalPrimitiveMap entries) := ⟨[], out, hout⟩
    exact encodableEntries_of_written entries htransmit.2 ⟨hreturns.mapError.bind.2⟩

end ActiveMQCpp.Wire
