import ActiveMQCpp.WireTightRoundTrip

/-! The phases of the tight encoding as programs that compose. A program of phase one is described by the bits it
records, one of phase two by the bits it follows and the bytes it writes, one of the receiver by the bits it follows
and the bytes it consumes. -/

namespace ActiveMQCpp.Wire

open Codec Bytes MachineInt Decaf BooleanStream List

section

variable {α β : Type}
variable {m : EStateM Failure BooleanStream α} {f : α → Tight β} {bits bits' : List Bool} {a : α} {b : β}
  {h : Failure → Failure} {bytes : List UInt8}

/-- The program returns `a` and records `bits`. -/
def Records (m : EStateM Failure BooleanStream α) (bits : List Bool) (a : α) : Prop :=
  ∀ ⦃s : BooleanStream⦄ ⦃written : List Bool⦄, Wrote s written → written.length + bits.length ≤ maxBits →
    ∃ s', m s = .ok a s' ∧ Wrote s' (written ++ bits)

/-- The program adds `n` bits whenever it returns, in or out of the range of the counters. -/
def Counts (m : EStateM Failure BooleanStream α) (n : Nat) : Prop :=
  ∀ ⦃s s' : BooleanStream⦄ ⦃k : Nat⦄ ⦃a : α⦄, Counted s k → m s = .ok a s' → Counted s' (k + n)

/-- The program follows `bits`, returns `a` and writes `bytes`. -/
def Writes (m : Tight α) (bits : List Bool) (bytes : List UInt8) (a : α) : Prop :=
  ∀ ⦃s : BooleanStream⦄ ⦃more : List Bool⦄, Reads s (bits ++ more) →
    ∃ s', Reads s' more ∧ ∀ out, m (s, out) = .ok a (s', out ++ bytes)

/-- The program follows `bits`, consumes `bytes` and returns `a`. -/
def Receives (m : Tight α) (bits : List Bool) (bytes : List UInt8) (a : α) : Prop :=
  ∀ ⦃s : BooleanStream⦄ ⦃more : List Bool⦄, Reads s (bits ++ more) →
    ∃ s', Reads s' more ∧ ∀ rest, m (s, bytes ++ rest) = .ok a (s', rest)

/-- Whatever the payload, the program follows `bits` whenever it returns `a`, and then `fact` holds. -/
def Follows (m : Tight α) (bits : List Bool) (a : α) (fact : Prop) : Prop :=
  ∀ ⦃s : BooleanStream⦄ ⦃more : List Bool⦄ ⦃input : List UInt8⦄ ⦃p : BooleanStream × List UInt8⦄,
    Reads s (bits ++ more) → m (s, input) = .ok a p → Reads p.1 more ∧ fact

/-! ### Phase one -/

theorem Records.pure (a : α) : Records (pure a) [] a := by
  intro s written h _
  refine ⟨s, rfl, ?_⟩
  rwa [append_nil]

theorem Records.bind {f : α → EStateM Failure BooleanStream β}
    (hm : Records m bits a) (hf : Records (f a) bits' b) : Records (m >>= f) (bits ++ bits') b := by
  intro s written h hn
  rw [length_append] at hn
  obtain ⟨s', hrun, hwrote⟩ := hm h (by omega)
  obtain ⟨s'', hrun', hwrote'⟩ := hf hwrote (by rw [length_append]; omega)
  refine ⟨s'', ?_, ?_⟩
  · rw [bind_ok hrun, hrun']
  · rwa [append_assoc] at hwrote'

/-- A program that only computes with what it is returned. -/
theorem Records.bind_pure (f : α → β)
    (hm : Records m bits a) : Records (m >>= fun x => Pure.pure (f x)) bits (f a) := by
  have := hm.bind (f := fun x => Pure.pure (f x)) (Records.pure (f a))
  rwa [append_nil] at this

theorem Records.mapError (hm : Records m bits a) : Records (mapError h m) bits a := by
  intro s written hwrote hn
  obtain ⟨s', hrun, hwrote'⟩ := hm hwrote hn
  exact ⟨s', mapError_eq_ok.mpr hrun, hwrote'⟩

theorem records_writeBoolean (b : Bool) : Records (writeBoolean b) [b] () := by
  intro s written h hn
  rw [length_singleton] at hn
  exact writeBoolean_wrote b h (by omega)

theorem records_field {field : FieldValue} (h : field.Encodable) :
    Records field.tightMarshal1 field.bits field.bytes.length := by
  intro s written hwrote hn
  obtain ⟨s', hrun⟩ := tightMarshal1_ok hwrote hn h
  exact ⟨s', hrun, tightMarshal1_wrote hwrote hn hrun⟩

theorem Counts.pure (a : α) : Counts (pure a) 0 := by
  intro s s' k a' h hrun
  cases hrun
  exact h

theorem Counts.bind {f : α → EStateM Failure BooleanStream β} {n n' : Nat}
    (hm : Counts m n) (hf : ∀ a, Counts (f a) n') : Counts (m >>= f) (n + n') := by
  intro s s' k b h hrun
  rw [bind_eq_ok] at hrun
  obtain ⟨a, t, hone, hrest⟩ := hrun
  rw [← Nat.add_assoc]
  exact hf a (hm h hone) hrest

theorem Counts.mapError {n : Nat} (hm : Counts m n) : Counts (mapError h m) n := by
  intro s s' k a hcounted hrun
  exact hm hcounted (mapError_eq_ok.mp hrun)

theorem counts_writeBoolean (b : Bool) : Counts (writeBoolean b) 1 :=
  fun _ _ _ _ h hrun => writeBoolean_counted h hrun

theorem counts_field (field : FieldValue) : Counts field.tightMarshal1 field.bits.length :=
  fun _ _ _ _ h hrun => tightMarshal1_counted h hrun

/-! ### Phase two -/

theorem Writes.pure (a : α) : Writes (pure a) [] [] a := by
  intro s more h
  refine ⟨s, h, ?_⟩
  intro out
  rw [append_nil, pure_run]

theorem Writes.bind {m : Tight α} {bytes' : List UInt8}
    (hm : Writes m bits bytes a) (hf : Writes (f a) bits' bytes' b) :
    Writes (m >>= f) (bits ++ bits') (bytes ++ bytes') b := by
  intro s more h
  rw [append_assoc] at h
  obtain ⟨s', hreads, hrun⟩ := hm h
  obtain ⟨s'', hreads', hrun'⟩ := hf hreads
  refine ⟨s'', hreads', ?_⟩
  intro out
  rw [bind_ok (hrun out), hrun', append_assoc]

theorem Writes.mapError {m : Tight α} (hm : Writes m bits bytes a) : Writes (mapError h m) bits bytes a := by
  intro s more hreads
  obtain ⟨s', hreads', hrun⟩ := hm hreads
  exact ⟨s', hreads', fun out => mapError_eq_ok.mpr (hrun out)⟩

theorem writes_readBoolean (b : Bool) : Writes (onFst readBoolean) [b] [] b := by
  intro s more h
  obtain ⟨s', hreads, hrun⟩ := onFst_readBoolean h
  refine ⟨s', hreads, ?_⟩
  intro out
  rw [hrun, append_nil]

theorem writes_onSnd {m : DataOut α} (h : Emits m a bytes) : Writes (onSnd m) [] bytes a := by
  intro s more hreads
  exact ⟨s, hreads, fun out => onSnd_ok s (h out)⟩

theorem writes_field {field : FieldValue} (h : field.Encodable) : Writes field.tightMarshal2 field.bits field.bytes () :=
  fun _ _ hreads => tightMarshal2_reads hreads h

/-! ### The receiver -/

theorem Receives.pure (a : α) : Receives (pure a) [] [] a :=
  fun s _ h => ⟨s, h, fun _ => rfl⟩

theorem Receives.bind {m : Tight α} {bytes' : List UInt8}
    (hm : Receives m bits bytes a) (hf : Receives (f a) bits' bytes' b) :
    Receives (m >>= f) (bits ++ bits') (bytes ++ bytes') b := by
  intro s more h
  rw [append_assoc] at h
  obtain ⟨s', hreads, hrun⟩ := hm h
  obtain ⟨s'', hreads', hrun'⟩ := hf hreads
  refine ⟨s'', hreads', ?_⟩
  intro rest
  rw [append_assoc, bind_ok (hrun _), hrun']

/-- A program that only looks at what it has received. -/
theorem Receives.bind_nil {m : Tight α}
    (hm : Receives m bits bytes a) (hf : Receives (f a) [] [] b) : Receives (m >>= f) bits bytes b := by
  have := hm.bind hf
  rwa [append_nil, append_nil] at this

theorem Receives.mapError {m : Tight α} (hm : Receives m bits bytes a) : Receives (mapError h m) bits bytes a := by
  intro s more hreads
  obtain ⟨s', hreads', hrun⟩ := hm hreads
  exact ⟨s', hreads', fun rest => mapError_eq_ok.mpr (hrun rest)⟩

theorem receives_readBoolean (b : Bool) : Receives (onFst readBoolean) [b] [] b := by
  intro s more h
  obtain ⟨s', hreads, hrun⟩ := onFst_readBoolean h
  exact ⟨s', hreads, fun rest => hrun rest⟩

theorem receives_onSnd {m : DataIn α} (h : Parses m bytes a) : Receives (onSnd m) [] bytes a :=
  fun s _ hreads => ⟨s, hreads, fun rest => onSnd_ok s (h rest)⟩

theorem tightUnmarshalString_of_field {s : BooleanStream} {input : List UInt8} {value : ByteString}
    {p : BooleanStream × List UInt8} (h : FieldType.string.tightUnmarshal (s, input) = .ok (.string value) p) :
    tightUnmarshalString (s, input) = .ok value p := by
  rw [FieldType.tightUnmarshal, bind_eq_ok] at h
  obtain ⟨value', p', hread, hdone⟩ := h
  cases hdone
  exact hread

theorem receives_string {value : ByteString} (h : (FieldValue.string value).Transferable) :
    Receives tightUnmarshalString (FieldValue.string value).bits (FieldValue.string value).bytes value := by
  intro s more hreads
  obtain ⟨s', hreads', hrun⟩ := tightUnmarshal_reads hreads h
  exact ⟨s', hreads', fun rest => tightUnmarshalString_of_field (hrun rest)⟩

theorem readBoolean_eq {s : BooleanStream} {b b' : Bool} {more : List Bool} {input : List UInt8}
    {p : BooleanStream × List UInt8} (h : Reads s (b :: more)) (hrun : onFst readBoolean (s, input) = .ok b' p) :
    b' = b ∧ Reads p.1 more := by
  obtain ⟨s', hreads, hread⟩ := onFst_readBoolean h
  rw [hread] at hrun
  cases hrun
  exact ⟨rfl, hreads⟩

theorem follows_onSnd (m : DataIn α) (a : α) : Follows (onSnd m) [] a True := by
  intro s more input p h hrun
  rw [(onSnd_eq_ok.mp hrun).2]
  exact ⟨h, trivial⟩

theorem follows_string (value : ByteString) : Follows tightUnmarshalString (FieldValue.string value).bits value
    (isOnlyAscii value = true → value.length < 32768) := by
  intro s more input p h hrun
  obtain ⟨hreads, hshort⟩ := @tightUnmarshal_ok (.string value) _ _ _ _ h (tightUnmarshal_string s input value p hrun)
  exact ⟨hreads, hshort value rfl⟩

end

end ActiveMQCpp.Wire
