import ActiveMQCpp.CommandsStreamReading

/-! The reads of a stream message that throw because the next value does not suit them: which of them leave the
stream at the value, so that the next read gets it. -/

namespace ActiveMQCpp.Commands

open Codec MachineInt Decaf Wire TypedRead

/-! ### What is refused, and where the stream is left -/

/-- The next value is of a type that the read does not take, or a null, or a text that it cannot convert. -/
def TypedRead.Refuses {α : Type} (read : TypedRead α) (input : List UInt8) : Prop :=
  ∃ type rest, input = type :: rest ∧
    ∀ reader, (PrimitiveType.ofByte? type).bind read.table = some reader →
      ∃ e s, reader.onBytes rest = .error e s ∧ ∀ message, e ≠ .thrown .eofException message

def ReadOp.Refuses (C : Conversions) (op : ReadOp) (r : Reading) (input : List UInt8) : Prop :=
  match op.typedRead C with
  | .inl read => read.Refuses input
  | .inr _ => r.remainingBytes = -1 ∧ ∃ type rest, input = type :: rest ∧ type ≠ PrimitiveType.byteArray.toByte

/-- The read that has failed did not take anything. -/
def Reading.Restored (data : ByteString) (t : Access) (r r' : Reading) : Prop :=
  r'.remainingBytes = r.remainingBytes ∧ ∃ mark, r'.source.Follows data ⟨t.position, mark⟩

/-- The stream when a read has taken the value, before it goes back. -/
def TypedRead.behindValue {α : Type} (choose : Nat → Nat) (read : TypedRead α) (src : MarkedSource) : MarkedSource :=
  match (src.mark read.limit).read choose with
  | .error _ src => src
  | .ok none src => src
  | .ok (some type) src =>
    match (PrimitiveType.ofByte? type).bind read.table with
    | none => src
    | some reader =>
      match reader.run choose src with
      | .ok _ src => src
      | .error _ src => src

/-- A text that the read refuses is well encoded, and so no number. -/
def TypedRead.RefusesNumbers {α : Type} (read : TypedRead α) (input : List UInt8) : Prop :=
  ∀ type rest reader, input = type :: rest → (PrimitiveType.ofByte? type).bind read.table = some reader →
    ∃ message s, reader.onBytes rest = .error (.thrown .numberFormatException message) s

/-- The read is not `readBytes`, its conversion fails with a `NumberFormatException`, and the stream has
kept the mark. -/
def ReadOp.Recovers (choose : Nat → Nat) (C : Conversions) (op : ReadOp) (r : Reading) (input : List UInt8) : Prop :=
  match op.typedRead C with
  | .inl read => read.RefusesNumbers input ∧ (read.behindValue choose r.source).Marked
  | .inr _ => False

/-- The read threw an exception. -/
def ReadResult.Threw : ReadResult → Prop
  | .eof => True
  | .failed _ => True
  | _ => False

/-! ### Up to the type byte -/

section

variable (choose : Nat → Nat) {α : Type} {data : ByteString} {t : Access} {src : MarkedSource} {type : UInt8}
  {rest : List UInt8}
variable {src' : MarkedSource} {read : TypedRead α}
variable {reader : Reader α}

theorem drop_succ_of_drop_eq {n : Nat} (h : data.drop n = type :: rest) :
    n < data.length ∧ data[n]? = some type ∧ data.drop (n + 1) = rest := by
  have hlength := congrArg List.length h
  rw [List.length_drop, List.length_cons] at hlength
  have hlt : n < data.length := by omega
  rw [List.drop_eq_getElem_cons hlt] at h
  obtain ⟨htype, hrest⟩ := List.cons.inj h
  exact ⟨hlt, by rw [List.getElem?_eq_getElem hlt, htype], hrest⟩

theorem read_marked (h : src.Follows data t) (hroomy : src.Roomy) (limit : Int)
    (hdrop : data.drop t.position = type :: rest) :
    ∃ src', (src.mark limit).read choose = .ok (some type) src' ∧
      src'.Follows data ⟨t.position + 1, some (t.position, limit)⟩ := by
  obtain ⟨hlt, hnext, -⟩ := drop_succ_of_drop_eq hdrop
  have hgrow : ∀ s, src.mark limit = .buffered s → s.pos ≥ s.count → ¬ s.growsBadly := by
    intro s hs _ hbad
    cases src with
    | bytes rest marked => cases hs
    | buffered s₀ =>
      cases hs
      obtain ⟨hmark, -, -, hpos | hsize⟩ := hbad
      · have hzero : s₀.pos = 0 := Option.some.inj hmark
        have hpos : 0 < s₀.pos := hpos
        omega
      · have hsize : 2147483648 ≤ s₀.bufferSize * 2 := hsize
        have := hroomy.2
        omega
  rcases (h.mark limit).read choose hgrow with ⟨hend, -⟩ | ⟨b, src', hb, hrun, hsrc'⟩
  · have hend : t.position = data.length := hend
    omega
  · obtain rfl : type = b := Option.some.inj (hnext.symm.trans hb)
    exact ⟨src', hrun, hsrc'⟩

theorem ready_type (hroomy : src.Roomy) {limit : Int} (hlimit : limit ≤ 8192)
    (hrun : (src.mark limit).read choose = .ok (some type) src') : src'.Ready :=
  MarkedSource.ready_read choose (MarkedSource.ready_mark hroomy hlimit) hrun

/-! ### A typed read that refuses -/

theorem limit_typedRead {C : Conversions} {op : ReadOp} {read : TypedRead StreamValue}
    (h : op.typedRead C = .inl read) : 1 ≤ read.limit ∧ read.limit ≤ 8192 := by
  cases op with
  | bytes length => cases h
  | _ =>
    cases h
    constructor <;> simp [map, boolean, byte, char, short,
      unsignedShort, int, long, float, double, string]

theorem not_follows_of_advanced {position : Nat} {mark : Option (Nat × Int)} (h : src.Follows data ⟨position, mark⟩)
    (hlt : t.position < position) : ¬ ∃ mark, src.Follows data ⟨t.position, mark⟩ := by
  rintro ⟨mark', h'⟩
  have hsame : (⟨position, mark⟩ : Access).position = (⟨t.position, mark'⟩ : Access).position := h.position_unique h'
  have hsame : position = t.position := hsame
  omega

theorem accept_numberFormat {message : String}
    (hrun : reader.run choose src = .error (.thrown .numberFormatException message) src') :
    read.accept choose reader src = read.handleNumberFormat message src' := by
  unfold accept
  rw [hrun]

theorem accept_error {e : Failure}
    (hrun : reader.run choose src = .error e src') (hformat : ¬ ∃ message, e = .thrown .numberFormatException message) :
    read.accept choose reader src = .error (catchRead e) src' := by
  unfold accept
  rw [hrun]
  cases e with
  | undefined => rfl
  | thrown type message =>
    cases type with
    | numberFormatException => exact absurd ⟨message, rfl⟩ hformat
    | _ => rfl

/-- A typed read that refuses throws, and goes back exactly when the number format is all that is wrong and the mark is
still there. -/
theorem run_refused (h : src.Follows data t) (hroomy : src.Roomy) (hlow : 1 ≤ read.limit)
    (hhigh : read.limit ≤ 8192) (hrefuses : read.Refuses (data.drop t.position)) :
    ∃ e src', read.run choose src = .error e src' ∧ src'.Ready ∧
      ((∃ mark, src'.Follows data ⟨t.position, mark⟩) ↔
        read.RefusesNumbers (data.drop t.position) ∧ (read.behindValue choose src).Marked) := by
  obtain ⟨type, rest, hinput, hreaders⟩ := hrefuses
  obtain ⟨src₁, htype, hsrc₁⟩ := read_marked choose h hroomy read.limit hinput
  have hready₁ := ready_type choose hroomy hhigh htype
  obtain ⟨-, -, hrest⟩ := drop_succ_of_drop_eq hinput
  simp only [run, behindValue, htype, afterType]
  cases htable : (PrimitiveType.ofByte? type).bind read.table with
  | none =>
    have hmarked : src₁.Marked := hsrc₁.marked rfl (by show ((t.position + 1 : Nat) : Int) - t.position ≤ _; omega)
    obtain ⟨src₂, hreset, hsrc₂, hready₂⟩ := hsrc₁.reset rfl hmarked
    have hnumbers : read.RefusesNumbers (data.drop t.position) := by
      intro type' rest' reader hinput' htable'
      obtain ⟨rfl, -⟩ := List.cons.inj (hinput.symm.trans hinput')
      rw [htable] at htable'
      cases htable'
    have hback : (∃ mark, src₂.Follows data ⟨t.position, mark⟩) ↔
        read.RefusesNumbers (data.drop t.position) ∧ src₁.Marked :=
      ⟨fun _ => ⟨hnumbers, hmarked⟩, fun _ => ⟨_, hsrc₂⟩⟩
    simp only [refuse, hreset]
    by_cases hnull : type = PrimitiveType.null.toByte
    · rw [if_pos hnull]
      exact ⟨_, src₂, rfl, hready₂ hready₁, hback⟩
    · rw [if_neg hnull]
      exact ⟨_, src₂, rfl, hready₂ hready₁, hback⟩
  | some reader =>
    obtain ⟨e, s, herror, -⟩ := hreaders reader htable
    obtain ⟨n, src₂, hsrc₂, hready₂, hrun⟩ := reader.run_follows choose hsrc₁ hready₁
    have hrun' : reader.run choose src₁ = .error e src₂ := by
      rw [hrest, herror] at hrun
      exact hrun.2
    have hnot : ¬ ∃ mark, src₂.Follows data ⟨t.position, mark⟩ :=
      not_follows_of_advanced hsrc₂ (by show t.position < t.position + 1 + n; omega)
    have hnumbers : read.RefusesNumbers (data.drop t.position) ↔ ∃ message, e = .thrown .numberFormatException message := by
      constructor
      · intro hall
        obtain ⟨message, s', hfail⟩ := hall type rest reader hinput htable
        rw [herror] at hfail
        cases hfail
        exact ⟨message, rfl⟩
      · rintro ⟨message, rfl⟩ type' rest' reader' hinput' htable'
        obtain ⟨rfl, rfl⟩ := List.cons.inj (hinput.symm.trans hinput')
        obtain rfl : reader = reader' := Option.some.inj (htable.symm.trans htable')
        exact ⟨message, s, herror⟩
    simp only [hrun']
    by_cases hformat : ∃ message, e = .thrown .numberFormatException message
    · obtain ⟨message, rfl⟩ := hformat
      rw [accept_numberFormat choose hrun']
      unfold handleNumberFormat
      by_cases hmarked : src₂.Marked
      · obtain ⟨src₃, hreset, hsrc₃, hready₃⟩ := hsrc₂.reset rfl hmarked
        rw [hreset]
        exact ⟨_, src₃, rfl, hready₃ hready₂, fun _ => ⟨hnumbers.mpr ⟨message, rfl⟩, hmarked⟩, fun _ => ⟨_, hsrc₃⟩⟩
      · rw [MarkedSource.reset_unmarked hmarked]
        exact ⟨_, src₂, rfl, hready₂, fun hback => absurd hback hnot, fun hboth => absurd hboth.2 hmarked⟩
    · rw [accept_error choose hrun' hformat]
      refine ⟨catchRead e, src₂, rfl, hready₂, fun hback => absurd hback hnot, ?_⟩
      rintro ⟨hall, -⟩
      exact absurd (hnumbers.mp hall) hformat

theorem run_value_at (h : src.Follows data t) (hroomy : src.Roomy) (hhigh : read.limit ≤ 8192)
    {a : α} {s : List UInt8} (hvalue : read.onBytes (data.drop t.position) = .ok a s) :
    ∃ src', read.run choose src = .ok a src' := by
  cases hinput : data.drop t.position with
  | nil =>
    rw [hinput] at hvalue
    cases hvalue
  | cons type rest =>
    obtain ⟨src₁, htype, hsrc₁⟩ := read_marked choose h hroomy read.limit hinput
    obtain ⟨-, -, hrest⟩ := drop_succ_of_drop_eq hinput
    rw [hinput, onBytes_cons] at hvalue
    simp only [run, htype, afterType]
    cases htable : (PrimitiveType.ofByte? type).bind read.table with
    | none =>
      rw [htable] at hvalue
      simp only at hvalue
      split_ifs at hvalue
    | some reader =>
      rw [htable] at hvalue
      simp only at hvalue
      obtain ⟨n, src₂, -, -, hrun⟩ := reader.run_follows choose hsrc₁ (ready_type choose hroomy hhigh htype)
      rw [hrest] at hrun
      cases hread : reader.onBytes rest with
      | ok a' s' =>
        rw [hread] at hrun hvalue
        cases hvalue
        have haccept : read.accept choose reader src₁ = .ok a src₂ := by
          unfold accept
          rw [hrun.2]
        exact ⟨src₂, haccept⟩
      | error e s' =>
        rw [hread] at hvalue
        cases e with
        | undefined => cases hvalue
        | thrown type message => cases type <;> cases hvalue

/-! ### A read of bytes that refuses -/

theorem readBytes_refused (h : src.Follows data t) (hroomy : src.Roomy) (hinput : data.drop t.position = type :: rest)
    (htype : type ≠ PrimitiveType.byteArray.toByte) (length : Int) :
    ∃ src', Reading.readBytes choose length ⟨src, -1⟩
        = .error (.thrown (.cms .messageFormatException) "Not a byte array") ⟨src', -1⟩ ∧
      src'.Follows data ⟨t.position + 1, some (t.position, toInt32 (length + 1))⟩ := by
  obtain ⟨src', hrun, hsrc'⟩ := read_marked choose h hroomy (toInt32 (length + 1)) hinput
  have hheader : Reading.readArrayHeader choose length src
      = .error (.thrown (.cms .messageFormatException) "Not a byte array") src' := by
    rw [Reading.readArrayHeader, bind_ok (modify_run _ _), bind_ok hrun]
    simp only
    rw [if_pos htype]
    rfl
  refine ⟨src', ?_, hsrc'⟩
  have hsource : Reading.onSource (Reading.readArrayHeader choose length) ⟨src, -1⟩
      = .error (.thrown (.cms .messageFormatException) "Not a byte array") ⟨src', -1⟩ := by
    unfold Reading.onSource
    rw [hheader]
  unfold Reading.readBytes mapError
  rw [bind_ok (get_run _), if_pos rfl, bind_error hsource]
  rfl

end

/-! ### The reads of the message -/

section

variable (choose : Nat → Nat) (C : Conversions) {data : ByteString} {t : Access} {op : ReadOp} {r : Reading}

theorem threw_of_error {α : Type} (f : α → ReadResult) (e : Failure) (r : Reading) :
    (ReadResult.ofRead f (.error e r)).1.Threw ∧ (ReadResult.ofRead f (.error e r)).2 = r := by
  unfold ReadResult.ofRead
  split
  · rename_i heq
    cases heq
  · rename_i heq
    cases heq
    exact ⟨trivial, rfl⟩
  · rename_i heq
    cases heq
    exact ⟨trivial, rfl⟩

/-- A read that refuses the next value throws. It leaves the stream at the value exactly when it is not `readBytes`,
a text that it has taken is well encoded and no number, and the stream has kept the mark; the next read then
returns the value that is there. -/
theorem refused_read_restores_iff (h : r.source.Follows data t) (hroomy : r.source.Roomy)
    (hrefuses : op.Refuses C r (data.drop t.position)) :
    (op.runOn choose C r).1.Threw ∧
    (Reading.Restored data t r (op.runOn choose C r).2 ↔ op.Recovers choose C r (data.drop t.position)) ∧
    (op.Recovers choose C r (data.drop t.position) →
      ∀ (op' : ReadOp) (read : TypedRead StreamValue) (v : StreamValue) (s : List UInt8), op'.typedRead C = .inl read →
        read.onBytes (data.drop t.position) = .ok v s →
        (op'.runOn choose C (op.runOn choose C r).2).1 = .value v) := by
  unfold ReadOp.Refuses at hrefuses
  unfold ReadOp.Recovers
  cases hkind : op.typedRead C with
  | inl read =>
    rw [hkind] at hrefuses
    obtain ⟨hlow, hhigh⟩ := limit_typedRead hkind
    obtain ⟨e, src', hrun, hready, hiff⟩ := run_refused choose h hroomy hlow hhigh hrefuses
    have hcall : op.runOn choose C r
        = ReadResult.ofRead .value (.error e ⟨src', r.remainingBytes⟩ : EStateM.Result Failure Reading StreamValue) := by
      unfold ReadOp.runOn Reading.onSource
      simp only [hkind, hrun]
    obtain ⟨hthrew, hleft⟩ := threw_of_error ReadResult.value e ⟨src', r.remainingBytes⟩
    rw [hcall, hleft]
    refine ⟨hthrew, ⟨fun hback => hiff.mp hback.2, fun hrecovers => ⟨rfl, hiff.mpr hrecovers⟩⟩, ?_⟩
    intro hrecovers op' read' v s hkind' hvalue
    obtain ⟨mark, hsrc'⟩ := hiff.mpr hrecovers
    obtain ⟨src'', hok⟩ := run_value_at choose hsrc' hready.roomy (limit_typedRead hkind').2 hvalue
    unfold ReadOp.runOn Reading.onSource
    simp only [hkind', hok]
    rfl
  | inr length =>
    rw [hkind] at hrefuses
    obtain ⟨hremaining, type, rest, hinput, htype⟩ := hrefuses
    obtain ⟨src', hrun, hsrc'⟩ := readBytes_refused choose h hroomy hinput htype length
    have hr : r = ⟨r.source, -1⟩ := by
      rw [← hremaining]
    have hcall : op.runOn choose C r = (.failed (.thrown (.cms .messageFormatException) "Not a byte array"),
        ⟨src', -1⟩) := by
      rw [hr]
      unfold ReadOp.runOn
      simp only [hkind, hrun]
      rfl
    rw [hcall]
    refine ⟨trivial, ⟨?_, fun hfalse => hfalse.elim⟩, fun hfalse => hfalse.elim⟩
    rintro ⟨-, hback⟩
    exact not_follows_of_advanced hsrc' (Nat.lt_succ_self t.position) hback

/-- The text "x", read as an `int`. -/
theorem refused_read_restores_text :
    let data : ByteString := [PrimitiveType.string.toByte, 0, 1, 120]
    let r : Reading := ⟨.bytes data [], -1⟩
    (ReadOp.int.runOn id noConversions r).1.Threw ∧
      (Reading.Restored data {} r (ReadOp.int.runOn id noConversions r).2 ↔
        ReadOp.int.Recovers id noConversions r data) := by
  intro data r
  have hfollows : r.source.Follows data {} := by
    refine ⟨Nat.zero_le _, rfl, ?_⟩
    intro p limit hmark
    cases hmark
  have hrefuses : ReadOp.int.Refuses noConversions r (data.drop ({} : Access).position) := by
    refine ⟨PrimitiveType.string.toByte, [0, 1, 120], rfl, ?_⟩
    intro reader hreader
    cases hreader
    refine ⟨_, _, rfl, ?_⟩
    intro message h
    cases h
  obtain ⟨hthrew, hiff, -⟩ := refused_read_restores_iff id noConversions hfollows trivial hrefuses
  exact ⟨hthrew, hiff⟩

end

/-- An `int` that `readBytes` has refused cannot be read any more, and neither can a text that is no UTF-8 and that
`readInt` has refused. -/
theorem refused_values_lost :
    (let r : Reading := ⟨.bytes [PrimitiveType.integer.toByte, 0, 0, 0, 5] [], -1⟩
     (ReadOp.int.runOn id noConversions r).1 = .value (.int 5) ∧
      ((ReadOp.bytes 4).runOn id noConversions r).1.Threw ∧
      (ReadOp.int.runOn id noConversions ((ReadOp.bytes 4).runOn id noConversions r).2).1 ≠ .value (.int 5)) ∧
    (let r : Reading := ⟨.bytes [PrimitiveType.string.toByte, 0, 1, 0xE9] [], -1⟩
     (ReadOp.string.runOn id noConversions r).1 = .value (.string [0xE9]) ∧
      (ReadOp.int.runOn id noConversions r).1.Threw ∧
      (ReadOp.string.runOn id noConversions (ReadOp.int.runOn id noConversions r).2).1 ≠ .value (.string [0xE9])) := by
  refine ⟨⟨by decide, trivial, by decide⟩, ⟨by decide, trivial, by decide⟩⟩

end ActiveMQCpp.Commands
