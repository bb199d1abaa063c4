import ActiveMQCpp.WirePrimitiveEncoding

/-! What `unmarshalPrimitiveMap` and `unmarshalPrimitiveList` accept is written again and read back. The reader
answers every input: it returns or throws an `IOException`, and throws on every input that ends early. -/

namespace ActiveMQCpp.Wire

open Codec Bytes MachineInt Decaf Util DataInputStream List OrderedMap PrimitiveEncoding

/-! ### Every input is answered -/

section Answers

variable {α β : Type} {n : Nat}
variable {m : DataIn α}

/-- On an input of less than `n` bytes the program throws, or returns and leaves no more than it was given. -/
def Answers (n : Nat) (m : DataIn α) : Prop :=
  ∀ input : List UInt8, input.length < n →
    match m input with
    | .ok _ rest => rest.length ≤ input.length
    | .error e _ => ∃ type message, e = .thrown type message

theorem Answers.pure (a : α) : Answers n (pure a : DataIn α) := fun _ _ => le_rfl

theorem Answers.throw (type : ExceptionType) (message : String) :
    Answers n (throw (.thrown type message) : DataIn α) := fun _ _ => ⟨type, message, rfl⟩

theorem Answers.bind {f : α → DataIn β} (hm : Answers n m) (hf : ∀ a, Answers n (f a)) : Answers n (m >>= f) := by
  intro input hlen
  have hfirst := hm input hlen
  rw [bind_run]
  cases hrun : m input with
  | error e rest =>
    rw [hrun] at hfirst
    exact hfirst
  | ok a rest =>
    rw [hrun] at hfirst
    have hsecond := hf a rest (by omega)
    show match f a rest with
      | .ok _ rest => rest.length ≤ input.length
      | .error e _ => ∃ type message, e = .thrown type message
    cases hthen : f a rest with
    | error e rest' =>
      rw [hthen] at hsecond
      exact hsecond
    | ok b rest' =>
      rw [hthen] at hsecond
      show rest'.length ≤ input.length
      omega

/-- A step that takes a byte leaves less to the steps behind it. -/
theorem Answers.bind_readByte {f : UInt8 → DataIn β} (hf : ∀ a, Answers n (f a)) :
    Answers (n + 1) (readByte >>= f) := by
  intro input hlen
  rw [bind_run]
  cases hrun : readByte input with
  | error e rest =>
    cases input with
    | nil =>
      cases hrun
      exact ⟨_, _, rfl⟩
    | cons b input => cases hrun
  | ok b rest =>
    rw [readByte_eq_ok hrun, length_cons] at hlen
    have hthen := hf b rest (by omega)
    show match f b rest with
      | .ok _ rest => rest.length ≤ input.length
      | .error e _ => ∃ type message, e = .thrown type message
    rw [readByte_eq_ok hrun, length_cons]
    cases hnext : f b rest with
    | error e rest' =>
      rw [hnext] at hthen
      exact hthen
    | ok c rest' =>
      rw [hnext] at hthen
      show rest'.length ≤ rest.length + 1
      omega

theorem Answers.mapError {g : Failure → Failure}
    (hg : ∀ type message, ∃ type' message', g (.thrown type message) = .thrown type' message') (hm : Answers n m) :
    Answers n (mapError g m) := by
  intro input hlen
  have hanswer := hm input hlen
  unfold Codec.mapError
  cases hrun : m input with
  | ok a rest =>
    rw [hrun] at hanswer
    exact hanswer
  | error e rest =>
    rw [hrun] at hanswer
    obtain ⟨type, message, rfl⟩ := hanswer
    exact hg type message

theorem catchExceptionConvert_thrown (type : ExceptionType) (message : String) :
    ∃ type' message', catchExceptionConvert (.thrown type message) = .thrown type' message' := by
  obtain ⟨type', message', heq, -⟩ := catchExceptionConvert_isIOException type message
  exact ⟨type', message', heq⟩

theorem catchAllThrow_thrown (type : ExceptionType) (message : String) :
    ∃ type' message', catchAllThrow (.thrown type message) = .thrown type' message' := by
  by_cases hio : type.isIOException = true
  · exact ⟨type, message, by simp [catchAllThrow, hio]⟩
  · exact ⟨.ioException, "caught unknown exception", by simp [catchAllThrow, hio]⟩

theorem answers_readAllData (length : Nat) : Answers n (readAllData length) := by
  intro input _
  unfold readAllData
  by_cases hle : length ≤ input.length
  · rw [if_pos hle]
    exact (length_drop.trans_le (Nat.sub_le _ _))
  · rw [if_neg hle]
    exact ⟨_, _, rfl⟩

theorem answers_readFully (size : Int) : Answers n (readFully size) := by
  intro input _
  cases hrun : readFully size input with
  | ok data rest =>
    have hinput := (readFully_eq_ok hrun).2
    show rest.length ≤ input.length
    rw [hinput, length_append]
    omega
  | error e rest =>
    unfold readFully at hrun
    split_ifs at hrun
    · cases hrun
      exact ⟨_, _, rfl⟩
    · cases hrun
      exact ⟨_, _, rfl⟩

theorem answers_readWord (w k : Nat) (word : List UInt8 → BitVec w) :
    Answers n (readWord w k word) := (answers_readAllData k).bind fun _ => .pure _

theorem answers_readByte : Answers n readByte := (answers_readAllData 1).bind fun _ => .pure _

theorem answers_readBoolean : Answers n readBoolean := (answers_readAllData 1).bind fun _ => .pure _

theorem answers_readUTF : Answers n readUTF := by
  apply Answers.mapError catchAllThrow_thrown
  refine (answers_readWord 16 2 _).bind fun utfLength => ?_
  by_cases hzero : utfLength.toNat = 0
  · rw [if_pos hzero]
    exact .pure _
  · rw [if_neg hzero]
    refine (answers_readFully _).bind fun buffer => ?_
    cases hdecode : utfDecode buffer with
    | ok decoded => exact .pure _
    | error e =>
      obtain ⟨message, rfl⟩ := MarshallingSupport.utfDecode_error hdecode
      exact .throw _ _

theorem answers_unmarshalString (utfLength : Int) : Answers n (unmarshalString utfLength) := by
  unfold unmarshalString
  split_ifs
  · exact (answers_readFully _).bind fun _ => .pure _
  · exact .pure _

theorem answers_unmarshalByteArray (size : Int) : Answers n (unmarshalByteArray size) := by
  unfold unmarshalByteArray
  split_ifs
  · exact (answers_readFully _).bind fun _ => .pure _
  · exact .pure _

variable {unmarshal : DataIn PrimitiveValueNode}

theorem answers_readValues (hunmarshal : Answers n unmarshal) (count : Nat) (list : List PrimitiveValueNode) :
    Answers n (readValues unmarshal count list) := by
  induction count generalizing list with
  | zero => exact .pure _
  | succ count ih => exact hunmarshal.bind fun _ => ih _

theorem answers_readEntries (hunmarshal : Answers n unmarshal) (count : Nat)
    (map : List (ByteString × PrimitiveValueNode)) : Answers n (readEntries unmarshal count map) := by
  induction count generalizing map with
  | zero => exact .pure _
  | succ count ih => exact answers_readUTF.bind fun _ => hunmarshal.bind fun _ => ih _

theorem answers_unmarshalPrimitiveList (hunmarshal : Answers n unmarshal) (list : List PrimitiveValueNode) :
    Answers n (unmarshalPrimitiveList unmarshal list) := by
  apply Answers.mapError catchExceptionConvert_thrown
  exact (answers_readWord 32 4 _).bind fun _ => answers_readValues hunmarshal _ _

theorem answers_unmarshalPrimitiveMap (hunmarshal : Answers n unmarshal)
    (map : List (ByteString × PrimitiveValueNode)) : Answers n (unmarshalPrimitiveMap unmarshal map) := by
  apply Answers.mapError catchExceptionConvert_thrown
  exact (answers_readWord 32 4 _).bind fun _ => answers_readEntries hunmarshal _ _

theorem answers_unmarshalValue (hunmarshal : Answers n unmarshal) (type : PrimitiveType) :
    Answers n (unmarshalValue unmarshal type) := by
  cases type with
  | null => exact .pure _
  | boolean => exact answers_readBoolean.bind fun _ => .pure _
  | byte => exact answers_readByte.bind fun _ => .pure _
  | char => exact answers_readByte.bind fun _ => answers_readByte.bind fun _ => .pure _
  | short => exact (answers_readWord 16 2 _).bind fun _ => .pure _
  | integer => exact (answers_readWord 32 4 _).bind fun _ => .pure _
  | long => exact (answers_readWord 64 8 _).bind fun _ => .pure _
  | double => exact (answers_readWord 64 8 _).bind fun _ => .pure _
  | float => exact (answers_readWord 32 4 _).bind fun _ => .pure _
  | byteArray => exact (answers_readWord 32 4 _).bind fun _ => answers_unmarshalByteArray _
  | string => exact (answers_readWord 16 2 _).bind fun _ => answers_unmarshalString _
  | bigString => exact (answers_readWord 32 4 _).bind fun _ => answers_unmarshalString _
  | list => exact (answers_unmarshalPrimitiveList hunmarshal []).bind fun _ => .pure _
  | map => exact (answers_unmarshalPrimitiveMap hunmarshal []).bind fun _ => .pure _

/-- Every level of nesting takes a byte at least, its tag. -/
theorem answers_unmarshalPrimitive (depth : Nat) : Answers depth (unmarshalPrimitive depth) := by
  induction depth with
  | zero =>
    intro input hlen
    exact absurd hlen (Nat.not_lt_zero _)
  | succ depth ih =>
    apply Answers.mapError catchExceptionConvert_thrown
    apply Answers.bind_readByte
    intro b
    cases PrimitiveType.ofByte? b with
    | none => exact .throw _ _
    | some type => exact answers_unmarshalValue ih type

end Answers

/-! ### What can be written again -/

namespace PrimitiveEncoding

variable {key : ByteString}

/-- A later entry has the same key. -/
def Replaced (key : ByteString) (entries : List (ByteString × PrimitiveEncoding)) : Prop :=
  ∃ entry ∈ entries, keyOf entry.1 = key

mutual

/-- No value that stays is `NULL` or a string without characters, and no key that stays needs more than 65535
bytes. -/
def Rewritable : PrimitiveEncoding → Prop
  | .null => False
  | .string _ data => data ≠ []
  | .bigString _ data => data ≠ []
  | .list _ values => RewritableValues values
  | .map _ entries => RewritableEntries entries
  | _ => True

def RewritableValues : List PrimitiveEncoding → Prop
  | [] => True
  | value :: values => value.Rewritable ∧ RewritableValues values

def RewritableEntries : List (ByteString × PrimitiveEncoding) → Prop
  | [] => True
  | (key, value) :: entries =>
    (Replaced (keyOf key) entries ∨ (MarshallingSupport.shortestLength key < 65536 ∧ value.Rewritable)) ∧
      RewritableEntries entries

end

theorem utfLength_keyOf {decoded : ByteString} (h : utfDecode key = .ok decoded) :
    DataOutputStream.utfLength (keyOf key) = MarshallingSupport.shortestLength key := by
  rw [keyOf, h]
  exact MarshallingSupport.utfLength_utfDecode h

theorem encodableEntries_iff {entries : List (ByteString × PrimitiveValueNode)} : EncodableEntries entries ↔
      ∀ entry ∈ entries, DataOutputStream.utfLength entry.1 < 65536 ∧ entry.2.Encodable := by
  induction entries with
  | nil => simp [EncodableEntries]
  | cons entry entries ih =>
    obtain ⟨key, value⟩ := entry
    rw [EncodableEntries, ih, forall_mem_cons, and_assoc]

theorem replaced_cons {entry : ByteString × PrimitiveEncoding} {entries : List (ByteString × PrimitiveEncoding)} :
    Replaced key (entry :: entries) ↔ keyOf entry.1 = key ∨ Replaced key entries := by
  unfold Replaced
  rw [exists_mem_cons_iff]

theorem encodable_text (data : ByteString) :
    (if data = [] then PrimitiveValueNode.null else .string data).Encodable ↔ data ≠ [] := by
  by_cases hnil : data = []
  · rw [if_pos hnil]
    exact ⟨fun h => h.elim, fun h => (h hnil).elim⟩
  · rw [if_neg hnil]
    exact ⟨fun _ => hnil, fun _ => trivial⟩

mutual

theorem encodable_node : ∀ e : PrimitiveEncoding, e.WellFormed → (e.node.Encodable ↔ e.Rewritable)
  | .null, _ | .boolean _, _ | .byte _, _ | .char _ _, _ | .short _, _ | .integer _, _ | .long _, _
  | .double _, _ | .float _, _ | .byteArray _ _, _ => Iff.rfl
  | .string _ data, _ => encodable_text data
  | .bigString _ data, _ => encodable_text data
  | .list _ values, h => encodable_nodeValues values h.2
  | .map _ entries, h => by
    have hall := encodable_putEntries entries h.2 [] sorted_nil
    rw [node, PrimitiveValueNode.Encodable, Rewritable, hall]
    simp only [not_mem_nil, false_imp_iff, implies_true, and_true]

theorem encodable_nodeValues : ∀ values : List PrimitiveEncoding, WellFormedValues values →
    (EncodableValues (nodeValues values) ↔ RewritableValues values)
  | [], _ => Iff.rfl
  | value :: values, h => and_congr (encodable_node value h.1) (encodable_nodeValues values h.2)

theorem encodable_putEntries : ∀ entries : List (ByteString × PrimitiveEncoding), WellFormedEntries entries →
    ∀ done : List (ByteString × PrimitiveValueNode), OrderedMap.Sorted done →
      (EncodableEntries (putEntries entries done) ↔ RewritableEntries entries ∧
        ∀ entry ∈ done, Replaced entry.1 entries ∨
          (DataOutputStream.utfLength entry.1 < 65536 ∧ entry.2.Encodable))
  | [], _, done, _ => by
    rw [putEntries, RewritableEntries, encodableEntries_iff]
    simp [Replaced]
  | (key, value) :: entries, h, done, hsorted => by
    obtain ⟨-, ⟨decoded, hkey⟩, hvalue, hentries⟩ := h
    have hnode := encodable_node value hvalue
    have hput := encodable_putEntries entries hentries (put (keyOf key) value.node done)
      (sorted_put _ _ hsorted)
    rw [putEntries, hput, RewritableEntries, ← utfLength_keyOf hkey, ← hnode]
    constructor
    · rintro ⟨hrest, hall⟩
      refine ⟨⟨hall _ (mem_put_self _ _ _), hrest⟩, ?_⟩
      intro entry hentry
      rw [replaced_cons]
      by_cases hsame : keyOf key = entry.1
      · exact Or.inl (Or.inl hsame)
      · rcases hall entry (mem_put_of_ne (Ne.symm hsame) hentry) with hreplaced | hfits
        · exact Or.inl (Or.inr hreplaced)
        · exact Or.inr hfits
    · rintro ⟨⟨hfirst, hrest⟩, hall⟩
      refine ⟨hrest, ?_⟩
      intro entry hentry
      by_cases hsame : entry.1 = keyOf key
      · -- a key has one value, the one that was put last
        have hmem : (entry.1, value.node) ∈ put (keyOf key) value.node done := by
          rw [hsame]
          exact mem_put_self _ _ _
        have hvalues : entry.2 = value.node :=
          value_unique (sorted_put _ _ hsorted) hentry hmem
        rw [hsame, hvalues]
        exact hfirst
      · rcases mem_put hentry with heq | hold
        · exact absurd (congrArg Prod.fst heq) hsame
        · rcases hall entry hold with hreplaced | hfits
          · rcases replaced_cons.mp hreplaced with hhere | hlater
            · exact absurd hhere.symm hsame
            · exact Or.inl hlater
          · exact Or.inr hfits

end

end PrimitiveEncoding

/-! ### What was read is written again -/

section RoundTrip

variable {depth : Nat} {input rest : List UInt8}

theorem mapRoundTrip_iff {entries : List (ByteString × PrimitiveValueNode)}
    (h : unmarshalPrimitiveMap (unmarshalPrimitive depth) [] input = .ok entries rest) :
    MapRoundTrip entries ↔ EncodableEntries entries := by
  obtain ⟨hwritten, hneeded⟩ := rewrite_iff h
  constructor
  · rintro ⟨bytes, _, hbytes, _⟩
    exact hneeded bytes hbytes
  · exact hwritten

theorem listRoundTrip_iff {values : List PrimitiveValueNode}
    (h : unmarshalPrimitiveList (unmarshalPrimitive depth) [] input = .ok values rest) :
    ListRoundTrip values ↔ EncodableValues values := by
  obtain ⟨hlen, htransmit⟩ := of_unmarshalPrimitiveList (buildable_transmittable.of_unmarshalPrimitive depth) h
  obtain ⟨-, hordered⟩ := of_unmarshalPrimitiveList (buildable_ordered.of_unmarshalPrimitive depth) h
  have htransmit := transmittableValues_iff.mpr htransmit
  constructor
  · rintro ⟨bytes, _, hbytes, _⟩
    have hreturns : Returns (marshalPrimitiveList values) := ⟨[], bytes, hbytes⟩
    rw [marshalPrimitiveList, toInt32_of_range (by omega) (by omega), Int.toNat_natCast] at hreturns
    exact encodableValues_of_written values htransmit ⟨hreturns.mapError.bind.2⟩
  · intro hencodable
    have hvalid := validValues_of_ordered values (orderedValues_iff.mpr hordered) hencodable
    obtain ⟨bytes, needed, hemits, hparses⟩ := transfers_marshalPrimitiveList hlen
      (transfersValues_of_transmittable values hvalid htransmit)
    exact ⟨bytes, needed, by rw [hemits [], nil_append], hparses⟩

end RoundTrip

/-- What is owed for an input: the value that is returned can be written and read back, or an `IOException` is
thrown. -/
def Reencodes {α : Type} (roundTrip : α → Prop) : EStateM.Result Failure (List UInt8) α → Prop
  | .ok a _ => roundTrip a
  | .error (.thrown type _) _ => type.isIOException = true
  | .error .undefined _ => False

theorem ioException_of_error {α : Type} {n : Nat} {m : DataIn α} {input rest : List UInt8} {e : Failure}
    (hm : Answers n (mapError catchExceptionConvert m)) (hlen : input.length < n)
    (h : mapError catchExceptionConvert m input = .error e rest) :
    ∃ type message, e = .thrown type message ∧ type.isIOException = true := by
  have hanswer := hm input hlen
  rw [h] at hanswer
  obtain ⟨type, message, rfl⟩ := hanswer
  unfold Codec.mapError at h
  cases hrun : m input with
  | ok a rest' =>
    rw [hrun] at h
    cases h
  | error e' rest' =>
    rw [hrun] at h
    injection h with hcaught _
    cases e' with
    | undefined => cases hcaught
    | thrown type' message' =>
      obtain ⟨type'', message'', heq, hio⟩ := catchExceptionConvert_isIOException type' message'
      rw [heq] at hcaught
      injection hcaught with htype _
      exact ⟨type, message, rfl, htype ▸ hio⟩

section Claim

open PrimitiveEncoding

variable {depth : Nat} {input : List UInt8}
variable {size : BitVec 32} {more : List UInt8}

theorem map_reencodes_iff (hdepth : input.length < depth) :
    Reencodes MapRoundTrip (unmarshalPrimitiveMap (unmarshalPrimitive depth) [] input) ↔
      ∀ size entries rest, (PrimitiveEncoding.map size entries).WellFormed →
        input = (PrimitiveEncoding.map size entries).payload ++ rest → (PrimitiveEncoding.map size entries).Rewritable := by
  constructor
  · intro hreencodes size entries rest hwell hinput
    have hlen : (map size entries).payload.length ≤ depth := by
      rw [hinput, length_append] at hdepth
      omega
    have hread := ReadEntries.map hwell.1 (readEntries_of_wellFormed entries hwell.2) hlen rest
    rw [← hinput] at hread
    rw [hread] at hreencodes
    have hencodable := (mapRoundTrip_iff hread).mp hreencodes
    exact ((encodable_putEntries entries hwell.2 [] sorted_nil).mp hencodable).1
  · intro hrewritable
    cases hread : unmarshalPrimitiveMap (unmarshalPrimitive depth) [] input with
    | ok entries rest =>
      obtain ⟨size, es, hwell, hinput, hentries⟩ := accepted_map (accepts_unmarshalPrimitive depth) hread
      have hes := hrewritable size es rest hwell hinput
      refine (mapRoundTrip_iff hread).mpr ?_
      rw [hentries]
      refine (encodable_putEntries es hwell.2 [] sorted_nil).mpr ⟨hes, ?_⟩
      intro entry hentry
      cases hentry
    | error e rest =>
      obtain ⟨type, message, rfl, hio⟩ := ioException_of_error
        (answers_unmarshalPrimitiveMap (answers_unmarshalPrimitive depth) []) hdepth hread
      exact hio

theorem list_reencodes_iff (hdepth : input.length < depth) :
    Reencodes ListRoundTrip (unmarshalPrimitiveList (unmarshalPrimitive depth) [] input) ↔
      ∀ size values rest, (list size values).WellFormed →
        input = (list size values).payload ++ rest → (list size values).Rewritable := by
  constructor
  · intro hreencodes size values rest hwell hinput
    have hlen : (list size values).payload.length ≤ depth := by
      rw [hinput, length_append] at hdepth
      omega
    have hread := ReadValues.list hwell.1 (readValues_of_wellFormed values hwell.2) hlen rest
    rw [← hinput] at hread
    rw [hread] at hreencodes
    exact (encodable_nodeValues values hwell.2).mp ((listRoundTrip_iff hread).mp hreencodes)
  · intro hrewritable
    cases hread : unmarshalPrimitiveList (unmarshalPrimitive depth) [] input with
    | ok values rest =>
      obtain ⟨size, es, hwell, hinput, hvalues⟩ := accepted_list (accepts_unmarshalPrimitive depth) hread
      have hes := hrewritable size es rest hwell hinput
      refine (listRoundTrip_iff hread).mpr ?_
      rw [hvalues]
      exact (encodable_nodeValues es hwell.2).mpr hes
    | error e rest =>
      obtain ⟨type, message, rfl, hio⟩ := ioException_of_error
        (answers_unmarshalPrimitiveList (answers_unmarshalPrimitive depth) []) hdepth hread
      exact hio

theorem map_truncated (hdepth : input.length < depth)
    {entries : List (ByteString × PrimitiveEncoding)} (hwell : (map size entries).WellFormed)
    (hmore : more ≠ []) (hcut : input ++ more = (map size entries).payload) :
    ∃ type message rest, unmarshalPrimitiveMap (unmarshalPrimitive depth) [] input
      = .error (.thrown type message) rest ∧ type.isIOException = true := by
  cases hread : unmarshalPrimitiveMap (unmarshalPrimitive depth) [] input with
  | ok found rest =>
    obtain ⟨size', es, hwell', hinput, -⟩ := accepted_map (accepts_unmarshalPrimitive depth) hread
    -- the whole text is read once as itself and once as the shorter one in front of it
    have hwhole := ReadEntries.map hwell.1 (readEntries_of_wellFormed entries hwell.2)
      (le_max_left _ (map size' es).payload.length) []
    have hshort := ReadEntries.map hwell'.1 (readEntries_of_wellFormed es hwell'.2)
      (le_max_right (map size entries).payload.length _) (rest ++ more)
    have htext : (map size entries).payload ++ []
        = (map size' es).payload ++ (rest ++ more) := by
      rw [append_nil, ← hcut, hinput, append_assoc]
    rw [htext, hshort] at hwhole
    injection hwhole with _ hrest
    exact absurd (append_eq_nil_iff.mp hrest).2 hmore
  | error e rest =>
    obtain ⟨type, message, rfl, hio⟩ := ioException_of_error
      (answers_unmarshalPrimitiveMap (answers_unmarshalPrimitive depth) []) hdepth hread
    exact ⟨type, message, rest, rfl, hio⟩

theorem list_truncated (hdepth : input.length < depth) {values : List PrimitiveEncoding}
    (hwell : (list size values).WellFormed) (hmore : more ≠ [])
    (hcut : input ++ more = (list size values).payload) :
    ∃ type message rest, unmarshalPrimitiveList (unmarshalPrimitive depth) [] input
      = .error (.thrown type message) rest ∧ type.isIOException = true := by
  cases hread : unmarshalPrimitiveList (unmarshalPrimitive depth) [] input with
  | ok found rest =>
    obtain ⟨size', es, hwell', hinput, -⟩ := accepted_list (accepts_unmarshalPrimitive depth) hread
    have hwhole := ReadValues.list hwell.1 (readValues_of_wellFormed values hwell.2)
      (le_max_left _ (list size' es).payload.length) []
    have hshort := ReadValues.list hwell'.1 (readValues_of_wellFormed es hwell'.2)
      (le_max_right (list size values).payload.length _) (rest ++ more)
    have htext : (list size values).payload ++ []
        = (list size' es).payload ++ (rest ++ more) := by
      rw [append_nil, ← hcut, hinput, append_assoc]
    rw [htext, hshort] at hwhole
    injection hwhole with _ hrest
    exact absurd (append_eq_nil_iff.mp hrest).2 hmore
  | error e rest =>
    obtain ⟨type, message, rfl, hio⟩ := ioException_of_error
      (answers_unmarshalPrimitiveList (answers_unmarshalPrimitive depth) []) hdepth hread
    exact ⟨type, message, rest, rfl, hio⟩

end Claim

end ActiveMQCpp.Wire
