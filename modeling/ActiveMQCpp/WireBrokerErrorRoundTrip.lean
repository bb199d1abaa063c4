import ActiveMQCpp.WireBrokerError
import ActiveMQCpp.WireTightPhases

/-! What the codecs of `BrokerError` transfer. An error has a list of bits and a list of bytes in the tight
encoding, taken level by level down the chain of causes; both phases and the receiver agree on them as
long as every string and every stack trace can be counted, and no other error is transferred. -/

namespace ActiveMQCpp.Wire

open Codec Bytes MachineInt Decaf BooleanStream BrokerError DataInputStream DataOutputStream FieldValue List
  Receives StackTraceElement

variable {stackTraceEnabled : Bool} {error : BrokerError} {elements : List StackTraceElement}

/-- An induction down the chain of causes. -/
theorem BrokerError.induction_cause {motive : Option BrokerError → Prop} (none : motive none)
    (some : ∀ message exceptionClass stackTraceElements cause, motive cause →
      motive (some ⟨message, exceptionClass, stackTraceElements, cause⟩)) : ∀ error, motive error
  | .none => none
  | .some ⟨message, exceptionClass, stackTraceElements, cause⟩ =>
    some message exceptionClass stackTraceElements cause (induction_cause none some cause)

/-! ### The bits and the bytes of an error -/

namespace StackTraceElement

def bits (element : StackTraceElement) : List Bool :=
  (FieldValue.string element.className).bits ++ ((FieldValue.string element.methodName).bits ++
    (FieldValue.string element.fileName).bits)

def bytes (element : StackTraceElement) : List UInt8 :=
  (FieldValue.string element.className).bytes ++ ((FieldValue.string element.methodName).bytes ++
    ((FieldValue.string element.fileName).bytes ++ bytesBE element.lineNumber 4))

end StackTraceElement

def errorBits (stackTraceEnabled : Bool) : Option BrokerError → List Bool
  | none => [false]
  | some ⟨message, exceptionClass, stackTraceElements, cause⟩ =>
    [true] ++ ((FieldValue.string exceptionClass).bits ++ ((FieldValue.string message).bits ++
      if stackTraceEnabled then
        stackTraceElements.flatMap StackTraceElement.bits ++ errorBits stackTraceEnabled cause
      else []))

def errorBytes (stackTraceEnabled : Bool) : Option BrokerError → List UInt8
  | none => []
  | some ⟨message, exceptionClass, stackTraceElements, cause⟩ =>
    (FieldValue.string exceptionClass).bytes ++ ((FieldValue.string message).bytes ++
      if stackTraceEnabled then
        bytesBE (BitVec.ofNat 16 stackTraceElements.length) 2 ++
          (stackTraceElements.flatMap StackTraceElement.bytes ++ errorBytes stackTraceEnabled cause)
      else [])

def textBits (value : ByteString) : Nat := if value = [] then 1 else 2

def textBytes (value : ByteString) : Nat := if value = [] then 0 else DataOutputStream.utfLength value + 2

def bitCount (stackTraceEnabled : Bool) : Option BrokerError → Nat
  | none => 1
  | some ⟨message, exceptionClass, stackTraceElements, cause⟩ =>
    1 + (textBits exceptionClass + (textBits message + if stackTraceEnabled then
      (stackTraceElements.map fun element =>
        textBits element.className + (textBits element.methodName + textBits element.fileName)).sum +
        bitCount stackTraceEnabled cause
    else 0))

def byteCount (stackTraceEnabled : Bool) : Option BrokerError → Nat
  | none => 0
  | some ⟨message, exceptionClass, stackTraceElements, cause⟩ =>
    textBytes exceptionClass + (textBytes message + if stackTraceEnabled then
      2 + ((stackTraceElements.map fun element =>
        textBytes element.className + (textBytes element.methodName + (textBytes element.fileName + 4))).sum +
        byteCount stackTraceEnabled cause)
    else 0)

theorem length_bits_string (value : ByteString) : (string value).bits.length = textBits value := by
  cases value <;> rfl

theorem length_bytes_string (value : ByteString) : (string value).bytes.length = textBytes value := by
  cases value with
  | nil => rfl
  | cons c value =>
    rw [FieldValue.bytes, length_stringBytes]
    rfl

theorem length_errorBits (stackTraceEnabled : Bool) (error : Option BrokerError) :
    (errorBits stackTraceEnabled error).length = bitCount stackTraceEnabled error := by
  induction error using BrokerError.induction_cause with
  | none => rw [errorBits, bitCount, List.length_singleton]
  | some message exceptionClass stackTraceElements cause ih =>
    rw [errorBits, bitCount]
    simp only [List.length_append, List.length_singleton, length_bits_string]
    cases stackTraceEnabled with
    | false => rfl
    | true =>
      simp only [if_true, List.length_append, List.length_flatMap, ih, StackTraceElement.bits, length_bits_string]

theorem length_errorBytes (stackTraceEnabled : Bool) (error : Option BrokerError) :
    (errorBytes stackTraceEnabled error).length = byteCount stackTraceEnabled error := by
  induction error using BrokerError.induction_cause with
  | none => rw [errorBytes, byteCount, List.length_nil]
  | some message exceptionClass stackTraceElements cause ih =>
    rw [errorBytes, byteCount]
    simp only [List.length_append, length_bytes_string]
    cases stackTraceEnabled with
    | false => rfl
    | true =>
      simp only [if_true, List.length_append, List.length_flatMap, ih, StackTraceElement.bytes, length_bytes_string,
        length_bytesBE]

/-- What arrives: without stack traces the error alone. -/
def transmitted (stackTraceEnabled : Bool) (error : BrokerError) : BrokerError :=
  if stackTraceEnabled then error else ⟨error.message, error.exceptionClass, [], none⟩

theorem map_transmitted_true (error : Option BrokerError) : error.map (transmitted true) = error := by
  cases error with
  | none => rfl
  | some error => rfl

/-- Every string that is transmitted satisfies `text`, and every stack trace has a length that
satisfies `count`. -/
def Every (stackTraceEnabled : Bool) (text : ByteString → Prop) (count : Nat → Prop) : Option BrokerError → Prop
  | none => True
  | some ⟨message, exceptionClass, stackTraceElements, cause⟩ =>
    text exceptionClass ∧ text message ∧ (stackTraceEnabled = true → count stackTraceElements.length ∧
      (∀ element ∈ stackTraceElements, text element.className ∧ text element.methodName ∧ text element.fileName) ∧
      Every stackTraceEnabled text count cause)

theorem Every.and {text text' : ByteString → Prop} {count count' : Nat → Prop}
    {error : Option BrokerError} (h : Every stackTraceEnabled text count error)
    (h' : Every stackTraceEnabled text' count' error) :
    Every stackTraceEnabled (fun value => text value ∧ text' value) (fun n => count n ∧ count' n) error := by
  induction error using induction_cause with
  | none =>
    rw [Every]
    trivial
  | some message exceptionClass stackTraceElements cause ih =>
    rw [Every] at h h' ⊢
    obtain ⟨hclass, hmessage, hdeep⟩ := h
    obtain ⟨hclass', hmessage', hdeep'⟩ := h'
    refine ⟨⟨hclass, hclass'⟩, ⟨hmessage, hmessage'⟩, ?_⟩
    intro henabled
    obtain ⟨hcount, helements, hcause⟩ := hdeep henabled
    obtain ⟨hcount', helements', hcause'⟩ := hdeep' henabled
    refine ⟨⟨hcount, hcount'⟩, ?_, ih hcause hcause'⟩
    intro element hmem
    obtain ⟨hname, hmethod, hfile⟩ := helements element hmem
    obtain ⟨hname', hmethod', hfile'⟩ := helements' element hmem
    exact ⟨⟨hname, hname'⟩, ⟨hmethod, hmethod'⟩, ⟨hfile, hfile'⟩⟩

theorem Every.mono {text text' : ByteString → Prop} {count count' : Nat → Prop}
    {error : Option BrokerError} (h : Every stackTraceEnabled text count error) (htext : ∀ value, text value → text' value)
    (hcount : ∀ n, count n → count' n) : Every stackTraceEnabled text' count' error := by
  induction error using induction_cause with
  | none =>
    rw [Every]
    trivial
  | some message exceptionClass stackTraceElements cause ih =>
    rw [Every] at h ⊢
    obtain ⟨hclass, hmessage, hdeep⟩ := h
    refine ⟨htext _ hclass, htext _ hmessage, ?_⟩
    intro henabled
    obtain ⟨hlength, helements, hcause⟩ := hdeep henabled
    refine ⟨hcount _ hlength, ?_, ih hcause⟩
    intro element hmem
    obtain ⟨hname, hmethod, hfile⟩ := helements element hmem
    exact ⟨htext _ hname, htext _ hmethod, htext _ hfile⟩

/-- The strings and stack traces that can be counted. -/
def Countable (stackTraceEnabled : Bool) (error : Option BrokerError) : Prop :=
  Every stackTraceEnabled (fun value => (FieldValue.string value).Transferable) (fun n => n < 32768) error

/-- The strings whose encoding is counted by an `unsigned short`. -/
def Encodable (stackTraceEnabled : Bool) (error : Option BrokerError) : Prop :=
  Every stackTraceEnabled (fun value => (FieldValue.string value).Encodable) (fun _ => True) error

theorem Countable.encodable {error : Option BrokerError}
    (h : Countable stackTraceEnabled error) : Encodable stackTraceEnabled error :=
  h.mono (fun _ hvalue => hvalue.1) fun _ _ => trivial

theorem FieldValue.Transferable.encodable {value : ByteString} (h : (string value).Transferable) :
    (string value).Encodable := h.1

/-! ### Phase one -/

theorem toInt32_add_natCast (n k : Nat) : toInt32 (toInt32 n + k) = toInt32 (n + k : Nat) := by
  rw [toInt32_add, Nat.cast_add]

theorem records_stackTrace (h : ∀ element ∈ elements, (string element.className).Encodable ∧
      (string element.methodName).Encodable ∧ (string element.fileName).Encodable) :
    ∀ n : Nat, Records (tightMarshalStackTrace1 (toInt32 n) elements) (elements.flatMap StackTraceElement.bits)
      (toInt32 (n + (elements.flatMap StackTraceElement.bytes).length : Nat)) := by
  induction elements with
  | nil =>
    intro n
    exact Records.pure _
  | cons element elements ih =>
    intro n
    obtain ⟨hname, hmethod, hfile⟩ := h element mem_cons_self
    have hrest := ih (fun e he => h e (mem_cons_of_mem _ he)) (n + element.bytes.length)
    have hsize : toInt32 (toInt32 (toInt32 (toInt32 (toInt32 n + (string element.className).bytes.length)
        + (string element.methodName).bytes.length) + (string element.fileName).bytes.length) + 4)
        = toInt32 (n + element.bytes.length : Nat) := by
      rw [toInt32_add_natCast, toInt32_add_natCast, toInt32_add_natCast]
      have hfour := toInt32_add_natCast (n + (string element.className).bytes.length +
        (string element.methodName).bytes.length + (string element.fileName).bytes.length) 4
      rw [Nat.cast_ofNat] at hfour
      rw [hfour, StackTraceElement.bytes]
      simp only [length_append, length_bytesBE, Nat.add_assoc]
    rw [List.flatMap_cons, List.flatMap_cons, List.length_append, ← Nat.add_assoc, StackTraceElement.bits,
      append_assoc, append_assoc]
    refine (records_field hname).bind ((records_field hmethod).bind
      ((records_field hfile).bind ?_))
    rw [hsize]
    exact hrest

theorem records_error {error : Option BrokerError} (h : Encodable stackTraceEnabled error) :
    Records (tightMarshalBrokerError1 stackTraceEnabled error) (errorBits stackTraceEnabled error)
      (toInt32 (errorBytes stackTraceEnabled error).length) := by
  induction error using induction_cause with
  | none =>
    rw [tightMarshalBrokerError1, errorBits, errorBytes]
    have hpure : Records (Pure.pure (0 : Int)) [] (0 : Int) := Records.pure 0
    exact ((records_writeBoolean false).bind hpure).mapError
  | some message exceptionClass stackTraceElements cause ih =>
    rw [Encodable, Every] at h
    obtain ⟨hclass, hmessage, hdeep⟩ := h
    rw [tightMarshalBrokerError1, errorBits, errorBytes]
    apply Records.mapError
    refine (records_writeBoolean true).bind ((records_field hclass).bind
      ((records_field hmessage).bind ?_))
    have hzero : toInt32 (0 + ((string exceptionClass).bytes.length : Int))
        = toInt32 ((string exceptionClass).bytes.length : Nat) := by rw [Int.zero_add]
    cases stackTraceEnabled with
    | false =>
      simp only [Bool.false_eq_true, if_false, append_nil, hzero]
      rw [toInt32_add_natCast, ← length_append]
      exact Records.pure _
    | true =>
      obtain ⟨-, helements, hcause⟩ := hdeep rfl
      simp only [if_true, hzero]
      rw [toInt32_add_natCast]
      have htwo := toInt32_add_natCast ((string exceptionClass).bytes.length +
        (string message).bytes.length) 2
      rw [Nat.cast_ofNat] at htwo
      rw [htwo]
      have htrace := records_stackTrace helements ((string exceptionClass).bytes.length +
        (string message).bytes.length + 2)
      have hsum : toInt32 (toInt32 (((string exceptionClass).bytes.length +
          (string message).bytes.length + 2 +
            (stackTraceElements.flatMap StackTraceElement.bytes).length : Nat) : Int)
          + toInt32 ((errorBytes true cause).length : Nat))
          = toInt32 (((string exceptionClass).bytes ++ ((string message).bytes ++
            (bytesBE (BitVec.ofNat 16 stackTraceElements.length) 2 ++
              (stackTraceElements.flatMap StackTraceElement.bytes ++ errorBytes true cause)))).length : Nat) := by
        rw [toInt32_add, Int.add_comm, toInt32_add]
        simp only [length_append, length_bytesBE]
        apply congrArg toInt32
        push_cast
        ring
      rw [← hsum]
      exact htrace.bind ((ih hcause).bind_pure _)

theorem counts_stackTrace (elements : List StackTraceElement) :
    ∀ rc, Counts (tightMarshalStackTrace1 rc elements) (elements.flatMap StackTraceElement.bits).length := by
  induction elements with
  | nil =>
    intro rc
    exact Counts.pure rc
  | cons element elements ih =>
    intro rc
    rw [List.flatMap_cons, List.length_append, StackTraceElement.bits, List.length_append, List.length_append,
      Nat.add_assoc, Nat.add_assoc]
    apply (counts_field (.string element.className)).bind
    intro className
    apply (counts_field (.string element.methodName)).bind
    intro methodName
    apply (counts_field (.string element.fileName)).bind
    intro fileName
    exact ih _

theorem counts_error (stackTraceEnabled : Bool) (error : Option BrokerError) :
    Counts (tightMarshalBrokerError1 stackTraceEnabled error) (errorBits stackTraceEnabled error).length := by
  induction error using induction_cause with
  | none =>
    rw [tightMarshalBrokerError1, errorBits]
    exact ((counts_writeBoolean false).bind fun _ => Counts.pure 0).mapError
  | some message exceptionClass stackTraceElements cause ih =>
    rw [tightMarshalBrokerError1, errorBits, length_append, length_append, length_append]
    apply Counts.mapError
    apply (counts_writeBoolean true).bind
    intro _
    apply (counts_field (.string exceptionClass)).bind
    intro classSize
    apply (counts_field (.string message)).bind
    intro messageSize
    cases stackTraceEnabled with
    | false => exact Counts.pure _
    | true =>
      simp only [if_true, length_append]
      apply (counts_stackTrace stackTraceElements _).bind
      intro rc
      exact ih.bind fun _ => Counts.pure _

/-! ### Phase two -/

theorem writes_stackTrace (h : ∀ element ∈ elements, (string element.className).Transferable ∧
      (string element.methodName).Transferable ∧ (string element.fileName).Transferable) :
    Writes (tightMarshalStackTrace2 elements) (elements.flatMap StackTraceElement.bits)
      (elements.flatMap StackTraceElement.bytes) () := by
  induction elements with
  | nil => exact Writes.pure ()
  | cons element elements ih =>
    obtain ⟨hname, hmethod, hfile⟩ := h element mem_cons_self
    have hrest := ih fun e he => h e (mem_cons_of_mem _ he)
    rw [List.flatMap_cons, List.flatMap_cons, StackTraceElement.bits, StackTraceElement.bytes]
    simp only [append_assoc]
    refine (writes_field hname.encodable).bind ((writes_field hmethod.encodable).bind
      ((writes_field hfile.encodable).bind ?_))
    exact (writes_onSnd (emits_writeInt element.lineNumber)).bind hrest

theorem toInt_ofNat_length {n : Nat} (h : n < 32768) : (BitVec.ofNat 16 n).toInt = n := by
  have hnat : (BitVec.ofNat 16 n).toNat = n := by
    rw [BitVec.toNat_ofNat, Nat.mod_eq_of_lt (by omega)]
  rw [BitVec.toInt_eq_toNat_of_lt (by omega), hnat]

theorem writes_error {error : Option BrokerError} (h : Countable stackTraceEnabled error) :
    Writes (tightMarshalBrokerError2 stackTraceEnabled error) (errorBits stackTraceEnabled error)
      (errorBytes stackTraceEnabled error) () := by
  induction error using induction_cause with
  | none =>
    rw [tightMarshalBrokerError2, errorBits, errorBytes]
    have hdone : Writes (if false = true then throw .undefined else Pure.pure ()) [] [] () := Writes.pure ()
    exact ((writes_readBoolean false).bind hdone).mapError
  | some message exceptionClass stackTraceElements cause ih =>
    rw [Countable, Every] at h
    obtain ⟨hclass, hmessage, hdeep⟩ := h
    rw [tightMarshalBrokerError2, errorBits, errorBytes]
    apply Writes.mapError
    refine (writes_readBoolean true).bind ?_
    rw [if_pos rfl]
    refine (writes_field hclass.encodable).bind ((writes_field hmessage.encodable).bind ?_)
    cases stackTraceEnabled with
    | false => exact Writes.pure ()
    | true =>
      obtain ⟨hcount, helements, hcause⟩ := hdeep rfl
      have hall : stackTraceElements.take (BitVec.ofNat 16 stackTraceElements.length).toInt.toNat
          = stackTraceElements := by
        rw [toInt_ofNat_length hcount, Int.toNat_natCast, take_length]
      simp only [if_true, hall]
      exact (writes_onSnd (emits_writeShort _)).bind
        ((writes_stackTrace helements).bind (ih hcause))

/-! ### The receiver -/

theorem receives_element {element : StackTraceElement} (hname : (string element.className).Transferable)
    (hmethod : (string element.methodName).Transferable)
    (hfile : (FieldValue.string element.fileName).Transferable) :
    Receives tightUnmarshalStackTraceElement element.bits element.bytes element := by
  rw [tightUnmarshalStackTraceElement, StackTraceElement.bits, StackTraceElement.bytes,
    ← append_nil (string element.fileName).bits]
  refine (receives_string hname).bind ((receives_string hmethod).bind ((receives_string hfile).bind ?_))
  exact (receives_onSnd (parses_readInt element.lineNumber)).bind_nil (pure element)

theorem receives_stackTrace (h : ∀ element ∈ elements, (string element.className).Transferable ∧
      (string element.methodName).Transferable ∧ (string element.fileName).Transferable) :
    Receives (collect tightUnmarshalStackTraceElement elements.length) (elements.flatMap StackTraceElement.bits)
      (elements.flatMap StackTraceElement.bytes) elements := by
  induction elements with
  | nil => exact pure []
  | cons element elements ih =>
    obtain ⟨hname, hmethod, hfile⟩ := h element mem_cons_self
    have hrest := ih fun e he => h e (mem_cons_of_mem _ he)
    rw [flatMap_cons, flatMap_cons, length_cons, collect]
    exact (receives_element hname hmethod hfile).bind (hrest.bind_nil (pure (element :: elements)))

/-- The nesting of an error with its causes, which is the depth of the calls that read it. -/
def nesting : Option BrokerError → Nat
  | none => 1
  | some ⟨_, _, _, cause⟩ => nesting cause + 1

theorem receives_error {error : Option BrokerError} (h : Countable stackTraceEnabled error) :
    ∀ depth, nesting error ≤ depth → Receives (tightUnmarshalBrokerError stackTraceEnabled depth)
      (errorBits stackTraceEnabled error) (errorBytes stackTraceEnabled error)
      (error.map (transmitted stackTraceEnabled)) := by
  induction error using induction_cause with
  | none =>
    intro depth hdepth
    obtain ⟨depth, rfl⟩ : ∃ d, depth = d + 1 := ⟨depth - 1, by rw [nesting] at hdepth; omega⟩
    rw [tightUnmarshalBrokerError, errorBits, errorBytes]
    apply Receives.mapError
    exact (receives_readBoolean false).bind_nil (pure none)
  | some message exceptionClass stackTraceElements cause ih =>
    intro depth hdepth
    rw [nesting] at hdepth
    obtain ⟨depth, rfl⟩ : ∃ d, depth = d + 1 := ⟨depth - 1, by omega⟩
    rw [Countable, Every] at h
    obtain ⟨hclass, hmessage, hdeep⟩ := h
    rw [tightUnmarshalBrokerError, errorBits, errorBytes]
    apply Receives.mapError
    refine (receives_readBoolean true).bind ?_
    rw [if_pos rfl]
    refine (receives_string hclass).bind ((receives_string hmessage).bind ?_)
    cases stackTraceEnabled with
    | false => exact pure _
    | true =>
      obtain ⟨hcount, helements, hcause⟩ := hdeep rfl
      have hread := ih hcause depth (by omega)
      have htrace := receives_stackTrace helements
      have hlength : (BitVec.ofNat 16 stackTraceElements.length).toInt.toNat = stackTraceElements.length := by
        rw [toInt_ofNat_length hcount, Int.toNat_natCast]
      rw [map_transmitted_true] at hread
      rw [← hlength] at htrace
      exact (receives_onSnd (parses_readShort _)).bind
        (htrace.bind (hread.bind_nil (pure _)))

/-- The ASCII strings that are counted by a `short`. -/
def IsShort (value : ByteString) : Prop := isOnlyAscii value = true → value.length < 32768

theorem collect_length {σ α : Type} {turn : EStateM Failure σ α} {n : Nat} {s s' : σ} {items : List α}
    (h : collect turn n s = .ok items s') : items.length = n := by
  induction n generalizing s items with
  | zero =>
    cases h
    rfl
  | succ n ih =>
    rw [collect, bind_eq_ok] at h
    obtain ⟨item, t, -, h⟩ := h
    rw [bind_eq_ok] at h
    obtain ⟨rest, t', hrest, hdone⟩ := h
    cases hdone
    rw [length_cons, ih hrest]

theorem follows_element (element : StackTraceElement) : Follows tightUnmarshalStackTraceElement element.bits element
    (IsShort element.className ∧ IsShort element.methodName ∧ IsShort element.fileName) := by
  intro s more input p h hrun
  rw [StackTraceElement.bits, List.append_assoc, List.append_assoc] at h
  rw [tightUnmarshalStackTraceElement, bind_eq_ok] at hrun
  obtain ⟨className, p1, hname, hrun⟩ := hrun
  rw [bind_eq_ok] at hrun
  obtain ⟨methodName, p2, hmethod, hrun⟩ := hrun
  rw [bind_eq_ok] at hrun
  obtain ⟨fileName, p3, hfile, hrun⟩ := hrun
  rw [bind_eq_ok] at hrun
  obtain ⟨lineNumber, p4, hline, hdone⟩ := hrun
  cases hdone
  obtain ⟨hreads, hshort⟩ := follows_string className h hname
  obtain ⟨hreads, hshort'⟩ := follows_string methodName hreads hmethod
  obtain ⟨hreads, hshort''⟩ := follows_string fileName hreads hfile
  obtain ⟨hreads, -⟩ := follows_onSnd DataInputStream.readInt lineNumber hreads hline
  exact ⟨hreads, hshort, hshort', hshort''⟩

theorem follows_stackTrace (elements : List StackTraceElement) :
    Follows (collect tightUnmarshalStackTraceElement elements.length) (elements.flatMap StackTraceElement.bits) elements
      (∀ element ∈ elements, IsShort element.className ∧ IsShort element.methodName ∧ IsShort element.fileName) := by
  induction elements with
  | nil =>
    intro s more input p h hrun
    cases hrun
    exact ⟨h, by simp⟩
  | cons element elements ih =>
    intro s more input p h hrun
    rw [flatMap_cons, append_assoc] at h
    rw [length_cons, collect, bind_eq_ok] at hrun
    obtain ⟨item, p1, hone, hrun⟩ := hrun
    rw [bind_eq_ok] at hrun
    obtain ⟨items, p2, hrest, hdone⟩ := hrun
    cases hdone
    obtain ⟨hreads, hshort⟩ := follows_element element h hone
    obtain ⟨hreads, hall⟩ := ih hreads hrest
    refine ⟨hreads, ?_⟩
    intro e hmem
    rcases mem_cons.mp hmem with rfl | htail
    · exact hshort
    · exact hall e htail

/-- Whatever the payload, an error that arrives has followed the bits, and its ASCII strings are short. -/
theorem follows_error (stackTraceEnabled : Bool) (error : Option BrokerError) :
    ∀ depth, Follows (tightUnmarshalBrokerError stackTraceEnabled depth) (errorBits stackTraceEnabled error)
      (error.map (transmitted stackTraceEnabled)) (Every stackTraceEnabled IsShort (fun _ => True) error) := by
  induction error using induction_cause with
  | none =>
    intro depth s more input p h hrun
    cases depth with
    | zero => cases hrun
    | succ depth =>
      rw [errorBits] at h
      rw [tightUnmarshalBrokerError, mapError_eq_ok, bind_eq_ok] at hrun
      obtain ⟨present, p1, hbit, hrun⟩ := hrun
      obtain ⟨rfl, hreads⟩ := readBoolean_eq h hbit
      cases hrun
      rw [Every]
      exact ⟨hreads, trivial⟩
  | some message exceptionClass stackTraceElements cause ih =>
    intro depth s more input p h hrun
    cases depth with
    | zero => cases hrun
    | succ depth =>
      rw [errorBits] at h
      simp only [append_assoc] at h
      rw [tightUnmarshalBrokerError, mapError_eq_ok, bind_eq_ok] at hrun
      obtain ⟨present, p1, hbit, hrun⟩ := hrun
      obtain ⟨rfl, hreads⟩ := readBoolean_eq h hbit
      rw [if_pos rfl, bind_eq_ok] at hrun
      obtain ⟨receivedClass, p2, hclass, hrun⟩ := hrun
      rw [bind_eq_ok] at hrun
      obtain ⟨receivedMessage, p3, hmessage, hrun⟩ := hrun
      cases stackTraceEnabled with
      | false =>
        cases hrun
        obtain ⟨hreads, hshort⟩ := follows_string exceptionClass hreads hclass
        obtain ⟨hreads, hshort'⟩ := follows_string message hreads hmessage
        rw [Every]
        exact ⟨hreads, hshort, hshort', fun henabled => absurd henabled Bool.false_ne_true⟩
      | true =>
        rw [if_pos rfl, bind_eq_ok] at hrun
        obtain ⟨length, p4, hlength, hrun⟩ := hrun
        rw [bind_eq_ok] at hrun
        obtain ⟨stackTrace, p5, htrace, hrun⟩ := hrun
        rw [bind_eq_ok] at hrun
        obtain ⟨receivedCause, p6, hcause, hdone⟩ := hrun
        cases hdone
        rw [← collect_length htrace] at htrace
        obtain ⟨hreads, hshort⟩ := follows_string exceptionClass hreads hclass
        obtain ⟨hreads, hshort'⟩ := follows_string message hreads hmessage
        obtain ⟨hreads, -⟩ := follows_onSnd readShort length hreads hlength
        have hreads : Reads p4.1 (stackTraceElements.flatMap StackTraceElement.bits ++
            (errorBits true cause ++ more)) := by
          rw [← append_assoc]
          exact hreads
        obtain ⟨hreads, hall⟩ := follows_stackTrace stackTraceElements hreads htrace
        rw [← map_transmitted_true cause] at hcause
        obtain ⟨hreads, hdeep⟩ := ih depth hreads hcause
        rw [Every]
        exact ⟨hreads, hshort, hshort', fun _ => ⟨trivial, hall, hdeep⟩⟩

/-! ### The loose encoding -/

theorem looseString_emits {value : ByteString} (h : (string value).Transferable) :
    ∃ bytes, Emits (looseMarshalString value) () bytes ∧ Parses looseUnmarshalString bytes value := by
  obtain ⟨bytes, hemits, hparses⟩ := @looseMarshal_emits (.string value) h.encodable
  refine ⟨bytes, hemits, ?_⟩
  intro rest
  have hrun := hparses rest
  rw [type, FieldType.looseUnmarshal, bind_eq_ok] at hrun
  obtain ⟨value', rest', hread, hdone⟩ := hrun
  cases hdone
  exact hread

theorem looseStackTrace_emits (h : ∀ element ∈ elements, (string element.className).Transferable ∧
      (string element.methodName).Transferable ∧ (string element.fileName).Transferable) :
    ∃ bytes, Emits (looseMarshalStackTrace elements) () bytes ∧
      Parses (collect looseUnmarshalStackTraceElement elements.length) bytes elements := by
  induction elements with
  | nil => exact ⟨[], Emits.pure (), Parses.pure []⟩
  | cons element elements ih =>
    obtain ⟨hname, hmethod, hfile⟩ := h element mem_cons_self
    obtain ⟨className, hemitsName, hparsesName⟩ := looseString_emits hname
    obtain ⟨methodName, hemitsMethod, hparsesMethod⟩ := looseString_emits hmethod
    obtain ⟨fileName, hemitsFile, hparsesFile⟩ := looseString_emits hfile
    obtain ⟨bytes, hemits, hparses⟩ := ih fun e he => h e (mem_cons_of_mem _ he)
    refine ⟨className ++ (methodName ++ (fileName ++ (bytesBE element.lineNumber 4 ++ bytes))), ?_, ?_⟩
    · exact hemitsName.bind (hemitsMethod.bind (hemitsFile.bind
        ((emits_writeInt element.lineNumber).bind hemits)))
    · have helement : Parses looseUnmarshalStackTraceElement
          (className ++ (methodName ++ (fileName ++ bytesBE element.lineNumber 4))) element :=
        hparsesName.bind (hparsesMethod.bind (hparsesFile.bind
          ((parses_readInt element.lineNumber).bind_nil (Parses.pure element))))
      have hall : Parses (collect looseUnmarshalStackTraceElement (elements.length + 1))
          (className ++ (methodName ++ (fileName ++ bytesBE element.lineNumber 4)) ++ bytes) (element :: elements) :=
        helement.bind (hparses.bind_nil (Parses.pure _))
      simpa only [length_cons, append_assoc] using hall

theorem looseError_emits {error : Option BrokerError} (h : Countable stackTraceEnabled error) :
    ∃ bytes, Emits (looseMarshalBrokerError stackTraceEnabled error) () bytes ∧ ∀ depth, nesting error ≤ depth →
      Parses (looseUnmarshalBrokerError stackTraceEnabled depth) bytes (error.map (transmitted stackTraceEnabled)) := by
  induction error using induction_cause with
  | none =>
    refine ⟨[0], ?_, ?_⟩
    · rw [looseMarshalBrokerError]
      exact (emits_writeBoolean false).mapError
    · intro depth hdepth
      obtain ⟨depth, rfl⟩ : ∃ d, depth = d + 1 := ⟨depth - 1, by rw [nesting] at hdepth; omega⟩
      rw [looseUnmarshalBrokerError]
      exact ((parses_readBoolean false).bind_nil (Parses.pure none)).mapError
  | some message exceptionClass stackTraceElements cause ih =>
    rw [Countable, Every] at h
    obtain ⟨hclass, hmessage, hdeep⟩ := h
    obtain ⟨classBytes, hemitsClass, hparsesClass⟩ := looseString_emits hclass
    obtain ⟨messageBytes, hemitsMessage, hparsesMessage⟩ := looseString_emits hmessage
    cases stackTraceEnabled with
    | false =>
      refine ⟨[1] ++ (classBytes ++ messageBytes), ?_, ?_⟩
      · rw [looseMarshalBrokerError, ← append_nil messageBytes]
        exact ((emits_writeBoolean true).bind
          (hemitsClass.bind (hemitsMessage.bind (Emits.pure ())))).mapError
      · intro depth hdepth
        obtain ⟨depth, rfl⟩ : ∃ d, depth = d + 1 := ⟨depth - 1, by rw [nesting] at hdepth; omega⟩
        rw [looseUnmarshalBrokerError]
        apply Parses.mapError
        refine (parses_readBoolean true).bind ?_
        rw [if_pos rfl]
        exact hparsesClass.bind (hparsesMessage.bind_nil (Parses.pure _))
    | true =>
      obtain ⟨hcount, helements, hcause⟩ := hdeep rfl
      obtain ⟨traceBytes, hemitsTrace, hparsesTrace⟩ := looseStackTrace_emits helements
      obtain ⟨causeBytes, hemitsCause, hparsesCause⟩ := ih hcause
      refine ⟨[1] ++ (classBytes ++ (messageBytes ++ (bytesBE (BitVec.ofNat 16 stackTraceElements.length) 2 ++
        (traceBytes ++ causeBytes)))), ?_, ?_⟩
      · rw [looseMarshalBrokerError]
        exact ((emits_writeBoolean true).bind (hemitsClass.bind (hemitsMessage.bind
          ((emits_writeShort _).bind (hemitsTrace.bind hemitsCause))))).mapError
      · intro depth hdepth
        rw [nesting] at hdepth
        obtain ⟨depth, rfl⟩ : ∃ d, depth = d + 1 := ⟨depth - 1, by omega⟩
        have hread := hparsesCause depth (by omega)
        have hlength : (BitVec.ofNat 16 stackTraceElements.length).toInt.toNat = stackTraceElements.length := by
          rw [toInt_ofNat_length hcount, Int.toNat_natCast]
        rw [map_transmitted_true] at hread
        rw [← hlength] at hparsesTrace
        rw [looseUnmarshalBrokerError]
        apply Parses.mapError
        refine (parses_readBoolean true).bind ?_
        rw [if_pos rfl]
        refine hparsesClass.bind (hparsesMessage.bind ?_)
        rw [if_pos rfl]
        exact (parses_readShort _).bind
          (hparsesTrace.bind (hread.bind_nil (Parses.pure _)))

/-- Nothing longer than what an `unsigned short` counts is written. -/
theorem looseStackTrace_utfLength {out out' : List UInt8}
    (h : looseMarshalStackTrace elements out = .ok () out') : ∀ element ∈ elements,
      utfLength element.className < 65536 ∧ utfLength element.methodName < 65536 ∧
        utfLength element.fileName < 65536 := by
  induction elements generalizing out with
  | nil =>
    intro element hmem
    cases hmem
  | cons element elements ih =>
    rw [looseMarshalStackTrace, bind_eq_ok] at h
    obtain ⟨⟨⟩, out1, hname, h⟩ := h
    rw [bind_eq_ok] at h
    obtain ⟨⟨⟩, out2, hmethod, h⟩ := h
    rw [bind_eq_ok] at h
    obtain ⟨⟨⟩, out3, hfile, h⟩ := h
    rw [bind_eq_ok] at h
    obtain ⟨⟨⟩, out4, -, hrest⟩ := h
    intro e hmem
    rcases mem_cons.mp hmem with rfl | htail
    · exact ⟨looseMarshalString_utfLength hname, looseMarshalString_utfLength hmethod,
        looseMarshalString_utfLength hfile⟩
    · exact ih hrest e htail

theorem looseError_encodable {error : Option BrokerError} {out out' : List UInt8}
    (h : looseMarshalBrokerError stackTraceEnabled error out = .ok () out') : Encodable stackTraceEnabled error := by
  induction error using induction_cause generalizing out with
  | none =>
    rw [Encodable, Every]
    trivial
  | some message exceptionClass stackTraceElements cause ih =>
    rw [looseMarshalBrokerError, mapError_eq_ok, bind_eq_ok] at h
    obtain ⟨⟨⟩, out1, -, h⟩ := h
    rw [bind_eq_ok] at h
    obtain ⟨⟨⟩, out2, hclass, h⟩ := h
    rw [bind_eq_ok] at h
    obtain ⟨⟨⟩, out3, hmessage, h⟩ := h
    rw [Encodable, Every]
    refine ⟨looseMarshalString_utfLength hclass, looseMarshalString_utfLength hmessage, ?_⟩
    rintro rfl
    rw [if_pos rfl, bind_eq_ok] at h
    obtain ⟨⟨⟩, out4, -, h⟩ := h
    rw [bind_eq_ok] at h
    obtain ⟨⟨⟩, out5, htrace, hcause⟩ := h
    exact ⟨trivial, looseStackTrace_utfLength htrace, ih hcause⟩

/-- Nothing longer than what a `short` counts is read. -/
theorem looseUnmarshal_count {depth : Nat} {input rest : List UInt8}
    (h : looseUnmarshalBrokerError stackTraceEnabled depth input = .ok (some (transmitted stackTraceEnabled error)) rest) :
    Every stackTraceEnabled (fun _ => True) (fun n => n < 32768) (some error) := by
  cases stackTraceEnabled with
  | false =>
    obtain ⟨message, exceptionClass, stackTraceElements, cause⟩ := error
    rw [Every]
    exact ⟨trivial, trivial, fun henabled => absurd henabled Bool.false_ne_true⟩
  | true =>
    have hgeneral : ∀ (error : Option BrokerError) (depth : Nat) (input rest : List UInt8),
        looseUnmarshalBrokerError true depth input = .ok error rest →
          Every true (fun _ => True) (fun n => n < 32768) error := by
      intro error
      induction error using induction_cause with
      | none =>
        intro depth input rest _
        rw [Every]
        trivial
      | some message exceptionClass stackTraceElements cause ih =>
        intro depth input rest hrun
        cases depth with
        | zero => cases hrun
        | succ depth =>
          rw [looseUnmarshalBrokerError, mapError_eq_ok, bind_eq_ok] at hrun
          obtain ⟨present, p1, -, hrun⟩ := hrun
          cases present with
          | false => cases hrun
          | true =>
            rw [if_pos rfl, bind_eq_ok] at hrun
            obtain ⟨receivedClass, p2, -, hrun⟩ := hrun
            rw [bind_eq_ok] at hrun
            obtain ⟨receivedMessage, p3, -, hrun⟩ := hrun
            rw [if_pos rfl, bind_eq_ok] at hrun
            obtain ⟨length, p4, -, hrun⟩ := hrun
            rw [bind_eq_ok] at hrun
            obtain ⟨stackTrace, p5, htrace, hrun⟩ := hrun
            rw [bind_eq_ok] at hrun
            obtain ⟨receivedCause, p6, hcause, hdone⟩ := hrun
            cases hdone
            have hcount := collect_length htrace
            have hbound : length.toInt < 32768 := BitVec.toInt_lt
            rw [Every]
            exact ⟨trivial, trivial, fun _ =>
              ⟨by omega, fun _ _ => ⟨trivial, trivial, trivial⟩, ih depth _ _ hcause⟩⟩
    exact hgeneral (some error) depth input rest h

/-! ### The transfer as a whole -/

/-- Phase one, the boolean stream, phase two and the receiver, one after the other: phase two writes as
many bytes as phase one has returned, and a receiver with enough room for its calls gets the error and
consumes exactly what was sent. -/
def TightRoundTripError (stackTraceEnabled : Bool) (error : BrokerError) : Prop :=
  ∃ size recorded header opened payload closed depth,
    tightMarshalBrokerError1 stackTraceEnabled (some error) BooleanStream.new = .ok size recorded ∧
    BooleanStream.marshal (recorded, []) = .ok () (opened, header) ∧
    tightMarshalBrokerError2 stackTraceEnabled (some error) (opened, header) = .ok () (closed, header ++ payload) ∧
    (payload.length : Int) = size ∧
    ∀ room, depth ≤ room → ∀ rest, ∃ s,
      tightDecodeBrokerError stackTraceEnabled room (BooleanStream.new, header ++ payload ++ rest)
        = .ok (some (transmitted stackTraceEnabled error)) (s, rest)

def LooseRoundTripError (stackTraceEnabled : Bool) (error : BrokerError) : Prop :=
  ∃ payload depth, looseMarshalBrokerError stackTraceEnabled (some error) [] = .ok () payload ∧
    ∀ room, depth ≤ room → ∀ rest, looseUnmarshalBrokerError stackTraceEnabled room (payload ++ rest)
      = .ok (some (transmitted stackTraceEnabled error)) rest

/-- The errors that are transferred: every string and stack trace can be counted, the boolean stream is
counted by a `short`, and the number of bytes is an `int`. -/
structure TransferableError (stackTraceEnabled : Bool) (error : BrokerError) : Prop where
  countable : Countable stackTraceEnabled (some error)
  bits : bitCount stackTraceEnabled (some error) ≤ maxBits
  bytes : byteCount stackTraceEnabled (some error) < 2147483648

/-- The run of a countable error, up to the number of bytes that phase one returns. -/
theorem Countable.run (h : Countable stackTraceEnabled (some error))
    (hbits : (errorBits stackTraceEnabled (some error)).length ≤ maxBits) :
    ∃ recorded closed, tightMarshalBrokerError1 stackTraceEnabled (some error) BooleanStream.new
        = .ok (toInt32 (errorBytes stackTraceEnabled (some error)).length) recorded ∧
      Wrote recorded (errorBits stackTraceEnabled (some error)) ∧
      BooleanStream.marshal (recorded, []) = .ok () (recorded.clear, marshalled recorded) ∧
      tightMarshalBrokerError2 stackTraceEnabled (some error) (recorded.clear, marshalled recorded)
        = .ok () (closed, marshalled recorded ++ errorBytes stackTraceEnabled (some error)) := by
  obtain ⟨recorded, hphase1, hwrote⟩ := records_error h.encodable wrote_new (by simpa using hbits)
  rw [nil_append] at hwrote
  have hmarshal := marshal_wrote hwrote hbits []
  rw [nil_append] at hmarshal
  have hreads := hwrote.reads_clear hbits
  rw [← append_nil (errorBits _ _)] at hreads
  obtain ⟨closed, -, hphase2⟩ := writes_error h hreads
  exact ⟨recorded, closed, hphase1, hwrote, hmarshal, hphase2 _⟩

theorem TransferableError.tightRoundTrip
    (h : TransferableError stackTraceEnabled error) : TightRoundTripError stackTraceEnabled error := by
  have hbits := h.bits
  have hbytes := h.bytes
  rw [← length_errorBits] at hbits
  rw [← length_errorBytes] at hbytes
  obtain ⟨recorded, closed, hphase1, hwrote, hmarshal, hphase2⟩ := h.countable.run hbits
  refine ⟨_, recorded, marshalled recorded, recorded.clear, errorBytes stackTraceEnabled (some error), closed,
    nesting (some error), hphase1, hmarshal, hphase2, ?_, ?_⟩
  · rw [toInt32_of_range (by omega) (by omega)]
  · intro room hroom rest
    obtain ⟨received, hunmarshal, hreads⟩ :=
      unmarshal_marshalled hwrote hbits BooleanStream.new (errorBytes stackTraceEnabled (some error) ++ rest)
    rw [← append_nil (errorBits _ _)] at hreads
    obtain ⟨s, -, hdecode⟩ := receives_error h.countable room hroom hreads
    refine ⟨s, ?_⟩
    rw [tightDecodeBrokerError, append_assoc, bind_ok hunmarshal, hdecode]
    rfl

theorem TransferableError.looseRoundTrip
    (h : TransferableError stackTraceEnabled error) : LooseRoundTripError stackTraceEnabled error := by
  obtain ⟨payload, hemits, hparses⟩ := looseError_emits h.countable
  refine ⟨payload, nesting (some error), ?_, ?_⟩
  · rw [hemits [], nil_append]
  · intro room hroom rest
    exact hparses room hroom rest

theorem TightRoundTripError.length_errorBits_le
    (h : TightRoundTripError stackTraceEnabled error) : (errorBits stackTraceEnabled (some error)).length ≤ maxBits := by
  obtain ⟨size, recorded, header, opened, payload, closed, depth, hphase1, hmarshal, -⟩ := h
  have hcounted := counts_error stackTraceEnabled (some error) counted_new hphase1
  rw [Nat.zero_add] at hcounted
  by_contra hmany
  exact marshal_counted_error hcounted (by omega) [] _ hmarshal

/-- The strings of an error that arrives are short, as the bits say which of them are ASCII. -/
theorem TightRoundTripError.short
    (h : TightRoundTripError stackTraceEnabled error) (hencodable : Encodable stackTraceEnabled (some error)) :
    Every stackTraceEnabled IsShort (fun _ => True) (some error) := by
  have hbits := h.length_errorBits_le
  obtain ⟨size, recorded, header, opened, payload, closed, depth, hphase1, hmarshal, -, -, hdecode⟩ := h
  obtain ⟨recorded', hphase1', hwrote⟩ := records_error hencodable wrote_new (by simpa using hbits)
  rw [hphase1] at hphase1'
  injection hphase1' with _ hstate
  subst hstate
  rw [nil_append] at hwrote
  have hheader := marshal_wrote hwrote hbits []
  rw [hmarshal, nil_append] at hheader
  injection hheader with _ hpair
  obtain ⟨-, rfl⟩ := Prod.mk.inj hpair
  obtain ⟨s, hrun⟩ := hdecode depth (le_refl depth) []
  obtain ⟨received, hunmarshal, hreads⟩ := unmarshal_marshalled hwrote hbits BooleanStream.new (payload ++ [])
  rw [tightDecodeBrokerError, append_assoc, bind_ok hunmarshal] at hrun
  rw [← append_nil (errorBits _ _)] at hreads
  exact (follows_error stackTraceEnabled (some error) depth hreads hrun).2

theorem LooseRoundTripError.encodable
    (h : LooseRoundTripError stackTraceEnabled error) : Encodable stackTraceEnabled (some error) := by
  obtain ⟨payload, depth, hmarshal, -⟩ := h
  exact looseError_encodable hmarshal

theorem LooseRoundTripError.counted (h : LooseRoundTripError stackTraceEnabled error) :
    Every stackTraceEnabled (fun _ => True) (fun n => n < 32768) (some error) := by
  obtain ⟨payload, depth, -, hread⟩ := h
  exact looseUnmarshal_count (hread depth (le_refl depth) [])

/-- A countable error whose size phase one predicts has less than `2^31` bytes. -/
theorem TightRoundTripError.length_errorBytes_lt
    (h : TightRoundTripError stackTraceEnabled error) (hcountable : Countable stackTraceEnabled (some error)) :
    (errorBytes stackTraceEnabled (some error)).length < 2147483648 := by
  have hbits := h.length_errorBits_le
  obtain ⟨size, recorded, header, opened, payload, closed, depth, hphase1, hmarshal, hphase2, hsize, -⟩ := h
  obtain ⟨recorded', closed', hrun1, -, hrunMarshal, hrun2⟩ := hcountable.run hbits
  rw [hphase1] at hrun1
  injection hrun1 with hpredicted hstate
  subst hstate
  rw [hmarshal] at hrunMarshal
  injection hrunMarshal with _ hpair
  obtain ⟨rfl, rfl⟩ := Prod.mk.inj hpair
  rw [hphase2] at hrun2
  injection hrun2 with _ hout
  have hpayload : payload = errorBytes stackTraceEnabled (some error) :=
    append_cancel_left (congrArg Prod.snd hout)
  have hlt := toInt32_lt (errorBytes stackTraceEnabled (some error)).length
  rw [hpayload] at hsize
  omega

/-- An error is transferred by both encodings, with the predicted number of bytes, exactly when its
strings, its stack traces, its bits and its bytes can be counted. -/
theorem roundTripError_iff_transferable (stackTraceEnabled : Bool) (error : BrokerError) :
    TightRoundTripError stackTraceEnabled error ∧ LooseRoundTripError stackTraceEnabled error ↔
      TransferableError stackTraceEnabled error := by
  constructor
  · rintro ⟨htight, hloose⟩
    have hall := (htight.short hloose.encodable).and (hloose.encodable.and hloose.counted)
    have hcountable : Countable stackTraceEnabled (some error) :=
      hall.mono (fun _ hvalue => ⟨hvalue.2.1, hvalue.1⟩) fun _ hcount => hcount.2.2
    have hbits := htight.length_errorBits_le
    have hbytes := htight.length_errorBytes_lt hcountable
    rw [length_errorBits] at hbits
    rw [length_errorBytes] at hbytes
    exact ⟨hcountable, hbits, hbytes⟩
  · intro h
    exact ⟨h.tightRoundTrip, h.looseRoundTrip⟩

/-- An error with 32768 stack trace elements, whose count is read back as a negative `short`. -/
theorem roundTripError_trace_32768_fails :
    ¬ ∀ stackTraceEnabled error,
      TightRoundTripError stackTraceEnabled error ∧ LooseRoundTripError stackTraceEnabled error := by
  intro h
  have hcounted := (h true ⟨[], [], List.replicate 32768 ⟨[0x61], [0x61], [0x61], 1⟩, none⟩).2.counted
  rw [Every, length_replicate] at hcounted
  exact absurd (hcounted.2.2 rfl).1 (by decide)

end ActiveMQCpp.Wire
