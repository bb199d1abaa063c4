import ActiveMQCpp.WireBooleanBits

/-! The two overloads of `BooleanStream::marshal`, from a list of booleans to its bytes and back. The one
that takes a stream writes as many bytes as `marshalledSize` says and they are read back; the one that
takes a vector ends its range one byte early. -/

namespace ActiveMQCpp.Wire.BooleanStream

open Codec Bytes MachineInt Decaf List

variable {values : List Bool}
variable {s : BooleanStream}

/-- The two overloads, by what they write to. -/
inductive Overload where
  | dataOutputStream
  | vector
  deriving DecidableEq, Repr

def Overload.marshal : Overload → EStateM Failure (BooleanStream × List UInt8) Unit
  | .dataOutputStream => BooleanStream.marshal
  | .vector => marshalVector

def writeBooleans (values : List Bool) : EStateM Failure BooleanStream Unit := values.forM writeBoolean

def readBooleans : Nat → EStateM Failure BooleanStream (List Bool)
  | 0 => pure []
  | count + 1 => do
    let value ← readBoolean
    let values ← readBooleans count
    pure (value :: values)

/-- The bytes an overload makes of a list of booleans. -/
def Marshals (overload : Overload) (values : List Bool) (bytes : List UInt8) : Prop :=
  ∃ written marshalled, writeBooleans values new = .ok () written ∧
    overload.marshal (written, []) = .ok () (marshalled, bytes) ∧ (bytes.length : Int) = written.marshalledSize

/-- A list is marshalled to as many bytes as `marshalledSize` says, and they give it back. -/
def RoundTrips (overload : Overload) (values : List Bool) : Prop :=
  ∃ bytes, Marshals overload values bytes ∧
    ∃ received read, unmarshal (new, bytes) = .ok () (received, []) ∧
      readBooleans values.length received = .ok values read

/-- Both overloads return with the same bytes. -/
def OverloadsAgree (values : List Bool) : Prop :=
  ∃ written bytes, writeBooleans values new = .ok () written ∧
    ∀ overload : Overload, ∃ marshalled, overload.marshal (written, []) = .ok () (marshalled, bytes)

/-! ### Lists of bits -/

theorem writeBooleans_wrote {values : List Bool} :
    ∀ {s : BooleanStream} {bits : List Bool}, Wrote s bits → bits.length + values.length ≤ maxBits →
      ∃ s', writeBooleans values s = .ok () s' ∧ Wrote s' (bits ++ values) := by
  induction values with
  | nil =>
    intro s bits h _
    refine ⟨s, rfl, ?_⟩
    rwa [append_nil]
  | cons b values ih =>
    intro s bits h hn
    rw [length_cons] at hn
    obtain ⟨t, hrun, hwrote⟩ := writeBoolean_wrote b h (by omega)
    obtain ⟨s', hrest, hwrote'⟩ := ih hwrote (by rw [length_append, length_singleton]; omega)
    refine ⟨s', forM_cons_eq_ok.mpr ⟨t, hrun, hrest⟩, ?_⟩
    rwa [append_assoc] at hwrote'

theorem readBooleans_reads :
    ∀ {s : BooleanStream}, Reads s values → ∃ s', readBooleans values.length s = .ok values s' := by
  induction values with
  | nil =>
    intro s _
    exact ⟨s, rfl⟩
  | cons b values ih =>
    intro s h
    obtain ⟨t, hrun, hreads⟩ := readBoolean_reads h
    obtain ⟨s', hrest⟩ := ih hreads
    refine ⟨s', ?_⟩
    rw [length_cons, readBooleans, bind_ok hrun, bind_ok hrest]
    rfl

/-! ### The two payloads -/

theorem length_sizeBytes (limit : Nat) :
    (sizeBytes limit).length = if limit < 64 then 1 else if limit < 256 then 2 else 3 := by
  unfold sizeBytes
  split_ifs with hone htwo
  · rfl
  · rfl
  · rw [length_cons, length_bytesBE]

theorem length_marshalled {bits : List Bool} (h : Wrote s bits) :
    ((marshalled s).length : Int) = s.marshalledSize := by
  have hlimit := h.limit
  have hroom := h.room
  have htake : (s.data.take s.arrayLimit.toNat).length = s.arrayLimit.toNat := by
    rw [length_take]
    omega
  rw [marshalled, length_append, length_sizeBytes, htake, marshalledSize]
  split_ifs <;> omega

/-- Whatever the vector overload returns is one byte short. -/
theorem length_marshalVector {limit : Nat} (hlimit : s.arrayLimit = limit)
    {p : BooleanStream × List UInt8} (h : marshalVector (s, []) = .ok () p) :
    (p.2.length : Int) + 1 = s.marshalledSize := by
  rw [marshalVector, mapError_eq_ok, bind_ok (onFst_ok _ (get_run s)), bind_eq_ok] at h
  obtain ⟨⟨⟩, q, hsize, hrange⟩ := h
  obtain ⟨hsize, -⟩ := onSnd_eq_ok.mp hsize
  obtain ⟨hrange, -⟩ := onSnd_eq_ok.mp hrange
  have hfield : (q.2.length : Int) = if s.arrayLimit < 64 then 1 else if s.arrayLimit < 256 then 2 else 3 := by
    unfold marshalSizeVector at hsize
    split_ifs at hsize ⊢ <;> (rw [modify_run] at hsize; injection hsize with _ hout; rw [← hout]; rfl)
  unfold insertRange at hrange
  split_ifs at hrange with hbad
  · rw [throw_run] at hrange
    cases hrange
  · rw [modify_run] at hrange
    injection hrange with _ hout
    have htake : (s.data.take (s.arrayLimit - 1).toNat).length = (s.arrayLimit - 1).toNat := by
      rw [length_take]
      omega
    rw [← hout, length_append, htake, marshalledSize]
    push_cast
    rw [hfield]
    split_ifs <;> omega

theorem not_marshals_vector (h : values.length ≤ maxBits) (bytes : List UInt8) : ¬ Marshals .vector values bytes := by
  rintro ⟨written, marshalled, hwrite, hmarshal, hlength⟩
  obtain ⟨s, hrun, hwrote⟩ := @writeBooleans_wrote values _ _ wrote_new (by rw [length_nil]; omega)
  rw [hwrite] at hrun
  injection hrun with _ hstate
  subst hstate
  have hshort := length_marshalVector hwrote.limit hmarshal
  simp only at hshort
  omega

theorem roundTrips_dataOutputStream (h : values.length ≤ maxBits) : RoundTrips .dataOutputStream values := by
  obtain ⟨written, hwrite, hwrote⟩ :=
    @writeBooleans_wrote values _ _ wrote_new (by rw [length_nil]; omega)
  rw [nil_append] at hwrote
  have hmarshal := marshal_wrote hwrote h []
  rw [nil_append] at hmarshal
  obtain ⟨received, hunmarshal, hreads⟩ := unmarshal_marshalled hwrote h new []
  rw [append_nil] at hunmarshal
  obtain ⟨read, hread⟩ := readBooleans_reads hreads
  exact ⟨marshalled written, ⟨written, written.clear, hwrite, hmarshal, length_marshalled hwrote⟩,
    received, read, hunmarshal, hread⟩

theorem not_overloadsAgree (h : values.length ≤ maxBits) : ¬ OverloadsAgree values := by
  rintro ⟨written, bytes, hwrite, hboth⟩
  obtain ⟨s, hrun, hwrote⟩ := @writeBooleans_wrote values _ _ wrote_new (by rw [length_nil]; omega)
  rw [hwrite] at hrun
  injection hrun with _ hstate
  subst hstate
  rw [nil_append] at hwrote
  obtain ⟨m, hstream⟩ := hboth .dataOutputStream
  obtain ⟨m', hvector⟩ := hboth .vector
  have hmarshal := marshal_wrote hwrote h []
  rw [nil_append] at hmarshal
  rw [Overload.marshal, hmarshal] at hstream
  injection hstream with _ hpair
  have hbytes : marshalled written = bytes := congrArg Prod.snd hpair
  have hlong := length_marshalled hwrote
  have hshort := length_marshalVector hwrote.limit hvector
  rw [hbytes] at hlong
  simp only at hshort
  omega

/-- A list that fits makes the round trip through the stream overload, through the vector overload it
never does, and the overloads never write the same bytes. -/
theorem roundTrips_iff_dataOutputStream (values : List Bool) (h : values.length ≤ maxBits) :
    (∀ overload, RoundTrips overload values ↔ overload = .dataOutputStream) ∧ ¬ OverloadsAgree values := by
  refine ⟨?_, not_overloadsAgree h⟩
  intro overload
  constructor
  · rintro ⟨bytes, hmarshals, -⟩
    cases overload with
    | dataOutputStream => rfl
    | vector => exact absurd hmarshals (not_marshals_vector h bytes)
  · rintro rfl
    exact roundTrips_dataOutputStream h

theorem roundTrips_iff_dataOutputStream_nine :
    [true, false, true, true, false, false, true, false, true].length ≤ maxBits ∧
      (∀ overload, RoundTrips overload [true, false, true, true, false, false, true, false, true] ↔
        overload = .dataOutputStream) ∧
      ¬ OverloadsAgree [true, false, true, true, false, false, true, false, true] :=
  ⟨by decide, roundTrips_iff_dataOutputStream _ (by decide)⟩

/-- A single boolean, which the vector overload marshals to its size field alone. -/
theorem vector_overload_one_boolean :
    ¬ ((∀ overload, RoundTrips overload [true]) ∧ OverloadsAgree [true]) := by
  rintro ⟨hround, -⟩
  obtain ⟨bytes, hmarshals, -⟩ := hround .vector
  exact not_marshals_vector (by decide) bytes hmarshals

end ActiveMQCpp.Wire.BooleanStream
