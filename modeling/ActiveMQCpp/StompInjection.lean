import ActiveMQCpp.StompCorrelation

/-! What a message can put into the stream. Its texts go into a format that is split at line feeds, colons
and NULs, and its properties are set after the headers that say where the message goes. -/

namespace ActiveMQCpp.Stomp

open Codec Decaf MachineInt State StompCommandConstants List StompFrame StompHelper
open StompFrame (headerContentLength)

namespace StompWireFormat

variable {m : StompMessage} {properties standard : List (ByteString × ByteString)} {name text : ByteString}
  {header : ByteString × ByteString} {helper : StompHelper} {frame : StompFrame} {line : Line}

/-- The value that the own fields of a message give to a reserved header, if any. -/
def derived (helper : StompHelper) (m : StompMessage) (name : ByteString) : Option ByteString :=
  if name = headerDestination then (helper.convertDestination m.destination).toOption
  else if name = headerReceiptRequired then
    if m.responseRequired then some (Long.toString m.commandId) else none
  else if name = headerTransactionId then
    m.transactionId.bind fun id => (StompHelper.convertTransactionId id).toOption
  else
    match m.body with
    | .bytes body => some (Long.toString body.length)
    | _ => none

/-- Nothing is written, or what is written is read as one frame, up to the line feed after it, that sends
the message where its own fields say. -/
def Contained (m : StompMessage) (line : Line) : Prop :=
  (∃ e line', marshal (.message m) line = .error e line' ∧ line'.out = line.out) ∨
    ∃ line' written frame, marshal (.message m) line = .ok () line' ∧ line'.out = line.out ++ written ∧
      StompFrame.fresh.fromStream written = .ok frame [10] ∧ frame.command = send ∧
      ∀ name ∈ StompHelper.reserved, frame.properties.find name = derived line.format.helper m name

/-- A text without a byte that ends a header, of a length an `int` can hold. -/
def PlainText (text : ByteString) : Prop := (∀ c ∈ text, c ≠ 10 ∧ c ≠ 0) ∧ text.length < 2147483648

/-- No text of the message holds a byte that ends a header, no name of a property a colon; numbers and
lengths are those of the types of the fields. -/
structure Clean (helper : StompHelper) (m : StompMessage) : Prop where
  names : ∀ property ∈ m.properties.entries, PlainText property.1 ∧ ∀ c ∈ property.1, c ≠ 58
  values : ∀ property ∈ m.properties.entries, ∀ text, property.2 = some text → PlainText text
  destination : ∀ text, helper.convertDestination m.destination = .ok text → PlainText text
  replyTo : ∀ header, helper.replyToHeader m.replyTo = .ok (some header) → PlainText header.2
  transactionId : ∀ header, StompHelper.transactionHeader m.transactionId = .ok (some header) → PlainText header.2
  texts : ∀ text ∈ [m.correlationId, m.type, m.groupID], PlainText text
  numbers : ∀ i ∈ [m.commandId, m.expiration, m.redeliveryCounter, m.timestamp, m.groupSequence],
    -9223372036854775808 ≤ i ∧ i < 9223372036854775808
  body : match m.body with
    | .text text => text.length + 1 < 2147483648
    | .bytes body => body.length < 2147483648
    | .other => True

/-- No property of the message takes a reserved header for another value, and a text has neither a NUL nor
a length. -/
structure Own (helper : StompHelper) (m : StompMessage) : Prop where
  headers : ∀ name ∈ [headerDestination, headerReceiptRequired, headerTransactionId], ∀ text,
    m.properties.find name = some (some text) → derived helper m name = some text
  text : ∀ text, m.body = .text text → m.properties.find headerContentLength = none ∧ 0 ∉ text

/-! ### The headers of a message -/

theorem mem_propertyHeaders (h : propertyHeaders m = .ok properties) :
    (name, text) ∈ properties ↔ m.properties.find name = some (some text) := by
  rw [OrderedMap.find_eq_some, ← propertyHeaders_eq_ok.mp h, mem_map]
  constructor
  · intro hmem
    exact ⟨_, hmem, rfl⟩
  · rintro ⟨header, hmem, heq⟩
    cases heq
    exact hmem

theorem find_messageFrame (h : propertyHeaders m = .ok properties) (name : ByteString) :
    (messageFrame m standard properties).properties.find name = (m.properties.find name).join.or
      ((newFrame send (receiptHeader m.toBaseCommand false ++ standard)).properties.find name) := by
  rw [messageFrame, newFrame, ← append_assoc, setProperties_append]
  by_cases hsome : ∃ text, m.properties.find name = some (some text)
  · obtain ⟨text, htext⟩ := hsome
    rw [htext, find_setProperties_of_mem ((mem_propertyHeaders h).mpr htext)]
    · rfl
    · rintro ⟨name', text'⟩ hmem rfl
      have := (mem_propertyHeaders h).mp hmem
      rw [htext] at this
      cases this
      rfl
  · have hnone : (m.properties.find name).join = none := by
      cases hfind : m.properties.find name with
      | none => rfl
      | some value =>
        cases value with
        | none => rfl
        | some text => exact absurd ⟨text, hfind⟩ hsome
    rw [hnone, Option.none_or, find_setProperties_of_avoids]
    · rfl
    · rintro ⟨name', text'⟩ hmem rfl
      exact hsome ⟨text', (mem_propertyHeaders h).mp hmem⟩

theorem derived_destination (helper : StompHelper) (m : StompMessage) :
    derived helper m headerDestination = (helper.convertDestination m.destination).toOption := by
  rw [derived, if_pos rfl]

theorem derived_receipt (helper : StompHelper) (m : StompMessage) :
    derived helper m headerReceiptRequired = if m.responseRequired then some (Long.toString m.commandId) else none := by
  rw [derived, if_neg (by decide), if_pos rfl]

theorem derived_transaction (helper : StompHelper) (m : StompMessage) : derived helper m headerTransactionId
      = m.transactionId.bind fun id => (convertTransactionId id).toOption := by
  rw [derived, if_neg (by decide), if_neg (by decide), if_pos rfl]

theorem derived_contentLength (helper : StompHelper) (m : StompMessage) : derived helper m headerContentLength
      = match m.body with
        | .bytes body => some (Long.toString body.length)
        | _ => none := by
  rw [derived, if_neg (by decide), if_neg (by decide), if_neg (by decide)]

theorem transactionHeader_eq_ok {transactionId : Option (TransactionId ByteString)} {header : Option (ByteString × ByteString)}
    (h : transactionHeader transactionId = .ok header) :
    header = (transactionId.bind fun id => (convertTransactionId id).toOption).map (headerTransactionId, ·) := by
  cases transactionId with
  | none =>
    cases h
    rfl
  | some id =>
    obtain ⟨text, htext, hheader⟩ := except_bind_eq_ok.mp h
    cases hheader
    rw [Option.bind_some, htext]
    rfl

theorem derived_of_mem (h : helper.standardHeaders m = .ok standard)
    (hmem : header ∈ receiptHeader m.toBaseCommand false ++ standard) (hname : header.1 ∈ reserved) :
    header.1 ≠ headerContentLength ∧ derived helper m header.1 = some header.2 := by
  obtain ⟨destination, hdestination, replyTo, hreplyTo, transactionId, htransaction, rfl⟩ :=
    standardHeaders_eq_ok.mp h
  rcases mem_append.mp hmem with hreceipt | hstandard
  · unfold receiptHeader at hreceipt
    by_cases hresponse : m.responseRequired = true
    · rw [if_pos hresponse, if_neg (by decide), nil_append] at hreceipt
      rw [mem_singleton.mp hreceipt, derived_receipt, if_pos hresponse]
      exact ⟨show headerReceiptRequired ≠ headerContentLength by decide, rfl⟩
    · rw [if_neg hresponse] at hreceipt
      cases hreceipt
  · rcases mem_fieldHeaders hstandard with rfl | rfl | rfl | hfree
    · rw [derived_destination, hdestination]
      exact ⟨show headerDestination ≠ headerContentLength by decide, rfl⟩
    · rw [replyToHeader_name hreplyTo] at hname
      exact absurd hname (by decide)
    · have hheader := transactionHeader_eq_ok htransaction
      obtain ⟨text, htext, rfl⟩ := Option.map_eq_some_iff.mp hheader.symm
      rw [derived_transaction, htext]
      exact ⟨show headerTransactionId ≠ headerContentLength by decide, rfl⟩
    · exact absurd hname hfree

theorem mem_of_derived (h : helper.standardHeaders m = .ok standard)
    (hname : name ∈ [headerDestination, headerReceiptRequired, headerTransactionId])
    (hderived : derived helper m name = some text) : (name, text) ∈ receiptHeader m.toBaseCommand false ++ standard := by
  obtain ⟨destination, hdestination, replyTo, hreplyTo, transactionId, htransaction, rfl⟩ :=
    standardHeaders_eq_ok.mp h
  rw [mem_cons, mem_cons, mem_singleton] at hname
  rcases hname with rfl | rfl | rfl
  · rw [derived_destination, hdestination] at hderived
    cases hderived
    refine mem_append_right _ (reduceOption_mem_iff.mpr ?_)
    exact mem_cons_self
  · rw [derived_receipt] at hderived
    split_ifs at hderived with hresponse
    cases hderived
    refine mem_append_left _ ?_
    rw [receiptHeader, if_pos hresponse]
    exact mem_cons_self
  · rw [derived_transaction] at hderived
    have hheader := transactionHeader_eq_ok htransaction
    rw [hderived] at hheader
    refine mem_append_right _ (reduceOption_mem_iff.mpr ?_)
    rw [hheader]
    simp

theorem find_standard (h : helper.standardHeaders m = .ok standard)
    (hname : name ∈ [headerDestination, headerReceiptRequired, headerTransactionId]) :
    (newFrame send (receiptHeader m.toBaseCommand false ++ standard)).properties.find name = derived helper m name := by
  have hreserved : name ∈ reserved := by
    rw [mem_cons, mem_cons, mem_singleton] at hname
    rcases hname with rfl | rfl | rfl <;> decide
  cases hderived : derived helper m name with
  | none =>
    refine (find_setProperties_of_avoids ?_).trans rfl
    rintro header hmem rfl
    rw [(derived_of_mem h hmem hreserved).2] at hderived
    cases hderived
  | some text =>
    refine find_setProperties_of_mem (mem_of_derived h hname hderived) ?_
    rintro header hmem rfl
    rw [(derived_of_mem h hmem hreserved).2] at hderived
    exact Option.some.inj hderived

theorem find_contentLength_standard (h : helper.standardHeaders m = .ok standard) :
    (newFrame send (receiptHeader m.toBaseCommand false ++ standard)).properties.find headerContentLength = none := by
  refine (find_setProperties_of_avoids ?_).trans rfl
  intro header hmem hname
  refine (derived_of_mem h hmem ?_).1 hname
  rw [hname]
  decide

/-! ### Clean texts -/

/-- A header that is written as one line. -/
def PlainHeader (header : ByteString × ByteString) : Prop :=
  (PlainText header.1 ∧ ∀ c ∈ header.1, c ≠ 58) ∧ PlainText header.2

theorem PlainHeader.of_name (hname : PlainText name ∧ ∀ c ∈ name, c ≠ 58)
    (htext : PlainText text) : PlainHeader (name, text) :=
  ⟨hname, htext⟩

theorem plainText_toString {i : Int} (hlow : -9223372036854775808 ≤ i) (hhigh : i < 9223372036854775808) :
    PlainText (Long.toString i) := by
  constructor
  · intro c hc
    have hdigit : ∀ c ∈ Long.digits i.natAbs, c ≠ 10 ∧ c ≠ 0 := by
      intro c hc
      have := Long.mem_digits hc
      exact ⟨by rintro rfl; exact absurd this.1 (by decide), by rintro rfl; exact absurd this.1 (by decide)⟩
    rw [Long.toString] at hc
    split_ifs at hc
    · rcases mem_cons.mp hc with rfl | hc
      · decide
      · exact hdigit c hc
    · exact hdigit c hc
  · have := Long.length_toString_le (i := i) (k := 18) (by omega)
    omega

theorem plainText_booleanText (value : Bool) : PlainText (booleanText value) := by
  cases value
  · exact ⟨by decide, by decide⟩
  · exact ⟨by decide, by decide⟩

theorem plainHeader_textHeader (hname : PlainText name ∧ ∀ c ∈ name, c ≠ 58)
    (htext : PlainText text) (h : textHeader name text = some header) :
    PlainHeader header := by
  unfold textHeader at h
  split_ifs at h
  cases h
  exact ⟨hname, htext⟩

instance (text : ByteString) : Decidable (PlainText text) := inferInstanceAs (Decidable (_ ∧ _))

theorem plainHeader_field (hclean : Clean helper m)
    {destination : ByteString} {replyTo transactionId : Option (ByteString × ByteString)}
    (hdestination : helper.convertDestination m.destination = .ok destination)
    (hreplyTo : helper.replyToHeader m.replyTo = .ok replyTo)
    (htransaction : transactionHeader m.transactionId = .ok transactionId)
    (h : header ∈ fieldHeaders m destination replyTo transactionId) :
    PlainHeader header := by
  obtain ⟨hcorrelation, htype, hgroup, -⟩ : PlainText m.correlationId ∧ PlainText m.type ∧ PlainText m.groupID ∧ True := by
    simpa using hclean.texts
  have hnumber : ∀ i ∈ [m.commandId, m.expiration, m.redeliveryCounter, m.timestamp, m.groupSequence],
      PlainText (Long.toString i) := by
    intro i hi
    obtain ⟨hlow, hhigh⟩ := hclean.numbers i hi
    exact plainText_toString hlow hhigh
  have hset : ∀ {name text : ByteString}, PlainText name ∧ (∀ c ∈ name, c ≠ 58) → PlainText text →
      some (name, text) = some header → PlainHeader header := by
    rintro name text hname htext ⟨⟩
    exact ⟨hname, htext⟩
  simp only [fieldHeaders, reduceOption_mem_iff, mem_cons, not_mem_nil, or_false,
    eq_comm (a := some header)] at h
  rcases h with h | h | h | h | h | h | h | h | h | h | h | h | h
  · exact hset (by decide) (hclean.destination _ hdestination) h
  · exact plainHeader_textHeader (by decide) hcorrelation h
  · exact hset (by decide) (hnumber _ (by simp)) h
  · exact hset (by decide) (plainText_booleanText _) h
  · split_ifs at h
    exact hset (by decide) (by decide) h
  · refine hset (by decide) (plainText_toString ?_ ?_) h
    · omega
    · have := m.priority.toNat_lt
      omega
  · rw [h] at hreplyTo
    refine ⟨?_, hclean.replyTo _ hreplyTo⟩
    rw [replyToHeader_name hreplyTo]
    decide
  · exact hset (by decide) (hnumber _ (by simp)) h
  · exact plainHeader_textHeader (by decide) htype h
  · rw [h] at htransaction
    refine ⟨?_, hclean.transactionId _ htransaction⟩
    rw [transactionHeader_name htransaction]
    decide
  · exact hset (by decide) (hnumber _ (by simp)) h
  · exact hset (by decide) (hnumber _ (by simp)) h
  · exact plainHeader_textHeader (by decide) hgroup h

theorem plainHeader_message (hclean : Clean helper m) (hstandard : helper.standardHeaders m = .ok standard)
    (hproperties : propertyHeaders m = .ok properties) :
    ∀ e ∈ (messageFrame m standard properties).properties.entries, PlainHeader e := by
  intro e he
  rcases mem_setProperties he with hfresh | hset
  · cases hfresh
  rcases mem_append.mp hset with hreceipt | hset
  · unfold receiptHeader at hreceipt
    by_cases hresponse : m.responseRequired = true
    · rw [if_pos hresponse, if_neg (by decide), nil_append] at hreceipt
      obtain ⟨hlow, hhigh⟩ := hclean.numbers m.commandId mem_cons_self
      rw [mem_singleton.mp hreceipt]
      exact .of_name (by decide) (plainText_toString hlow hhigh)
    · rw [if_neg hresponse] at hreceipt
      cases hreceipt
  rcases mem_append.mp hset with hfield | hproperty
  · obtain ⟨destination, hdestination, replyTo, hreplyTo, transactionId, htransaction, rfl⟩ :=
      standardHeaders_eq_ok.mp hstandard
    exact plainHeader_field hclean hdestination hreplyTo htransaction hfield
  · have hentry := OrderedMap.find_eq_some.mp ((mem_propertyHeaders hproperties).mp hproperty)
    exact ⟨hclean.names _ hentry, hclean.values _ hentry _ rfl⟩

/-- The frame of a message with clean texts is written and its command and headers are read back. -/
theorem plain_message (hclean : Clean helper m)
    (h : marshalMessage helper m = .ok frame) : frame.command = send ∧ frame.Plain ∧ frame.Fits := by
  obtain ⟨standard, hstandard, properties, hproperties, hbody⟩ := marshalMessage_eq_ok.mp h
  have hheaders := plainHeader_message hclean hstandard hproperties
  have hcommand : frame.command = send :=
    (setMessageBody_frame hbody).1.trans (command_setProperties _ _)
  have hsized : (∀ e ∈ frame.properties.entries, PlainHeader e) ∧ frame.body.length < 2147483648 := by
    have hsize := hclean.body
    cases hm : m.body with
    | text text =>
      rw [hm] at hbody hsize
      cases hbody
      refine ⟨hheaders, ?_⟩
      rw [length_append, length_singleton]
      exact hsize
    | bytes body =>
      rw [hm] at hbody hsize
      cases hbody
      refine ⟨fun e he => ?_, hsize⟩
      have hnumber : PlainText (Long.toString body.length) := by
        have : body.length < 2147483648 := hsize
        exact plainText_toString (by omega) (by omega)
      rcases OrderedMap.mem_put he with rfl | he
      · exact .of_name (by decide) hnumber
      · exact hheaders e he
    | other =>
      rw [hm] at hbody
      cases hbody
  obtain ⟨hplain, hlength⟩ := hsized
  refine ⟨hcommand, ⟨?_, ?_, ?_, ?_, ?_⟩, ⟨?_, ?_, ?_, hlength⟩⟩
  · rw [hcommand]
    decide
  · rw [hcommand]
    decide
  · rw [hcommand]
    decide
  · intro e he c hc
    exact ⟨(hplain e he).1.2 c hc, (hplain e he).1.1.1 c hc⟩
  · exact fun e he => (hplain e he).2.1
  · rw [hcommand]
    decide
  · exact fun e he => (hplain e he).1.1.2
  · exact fun e he => (hplain e he).2.2

/-! ### What is read back -/

theorem find_message (h : marshalMessage helper m = .ok frame)
    (hname : name ∈ [headerDestination, headerReceiptRequired, headerTransactionId]) :
    frame.properties.find name = (m.properties.find name).join.or (derived helper m name) := by
  obtain ⟨standard, hstandard, properties, hproperties, hbody⟩ := marshalMessage_eq_ok.mp h
  have hne : name ≠ headerContentLength := by
    rw [mem_cons, mem_cons, mem_singleton] at hname
    rcases hname with rfl | rfl | rfl <;> decide
  rw [(setMessageBody_frame hbody).2 name hne, find_messageFrame hproperties, find_standard hstandard hname]

theorem find_contentLength (h : marshalMessage helper m = .ok frame) :
    (∃ text, m.body = .text text ∧ frame.body = text ++ [0] ∧
        frame.properties.find headerContentLength = (m.properties.find headerContentLength).join) ∨
      ∃ body, m.body = .bytes body ∧ frame.body = body ∧
        frame.properties.find headerContentLength = some (Long.toString body.length) := by
  obtain ⟨standard, hstandard, properties, hproperties, hbody⟩ := marshalMessage_eq_ok.mp h
  cases hm : m.body with
  | text text =>
    rw [hm] at hbody
    cases hbody
    refine .inl ⟨text, rfl, rfl, ?_⟩
    rw [find_messageFrame hproperties, find_contentLength_standard hstandard, Option.or_none]
  | bytes body =>
    rw [hm] at hbody
    cases hbody
    refine .inr ⟨body, rfl, rfl, ?_⟩
    rw [setProperty, OrderedMap.find_insert, if_pos rfl]
  | other =>
    rw [hm] at hbody
    cases hbody

theorem or_eq_right_iff {α : Type} {value : Option (Option α)} {other : Option α} :
    value.join.or other = other ↔ ∀ a, value = some (some a) → other = some a := by
  rcases value with _ | _ | a
  · simp
  · simp
  · simp [eq_comm]

theorem eq_none_of_join
    (htexts : ∀ property ∈ m.properties.entries, property.2.isSome) (h : (m.properties.find name).join = none) :
    m.properties.find name = none := by
  cases hfind : m.properties.find name with
  | none => rfl
  | some value =>
    have hsome := htexts _ (OrderedMap.find_eq_some.mp hfind)
    rw [hfind] at h
    cases value with
    | none => cases hsome
    | some text => cases h

theorem not_mem_of_readUntilNull {body : ByteString}
    (h : readUntilNull [] (text ++ 0 :: [10]) = .ok body [10]) : 0 ∉ text := by
  intro hmem
  obtain ⟨before, after, rfl, hbefore⟩ := eq_append_cons_of_mem hmem
  have hbytes : ∀ c ∈ before, c ≠ 0 := by
    rintro c hc rfl
    exact hbefore hc
  have hread := readUntilNull_text hbytes [] (after ++ 0 :: [10])
  rw [append_assoc, cons_append, hread] at h
  injection h with _ hrest
  have := congrArg List.length hrest
  simp only [length_append, length_cons, length_nil] at this
  omega

theorem marshal_message (hframe : marshalMessage line.format.helper m = .ok frame) (hfits : frame.Fits) :
    marshal (.message m) line = .ok () { line with out := line.out ++ (frame.bytes ++ [10]) } := by
  have hmade : frameOf (.message m) line.format = .ok (some frame) line.format :=
    made_eq_ok.mpr ⟨frame, hframe, rfl, rfl⟩
  exact marshal_frame hmade hfits

theorem fromStream_bytes {result : StompFrame} (hplain : frame.Plain)
    (h : fresh.fromStream (frame.bytes ++ [10]) = .ok result [10]) :
    result.command = frame.command ∧ result.properties = frame.properties ∧
      ∃ length, frame.contentLength = .ok length ∧ ∃ body,
        readContent length (frame.body ++ frame.terminator ++ [10]) = .ok body [10] := by
  have hbytes : frame.bytes ++ [10] = [] ++ (frame.command ++ 10 :: (frame.properties.entries.flatMap
      headerBytes ++ 10 :: (frame.body ++ frame.terminator ++ [10]))) := by
    simp only [bytes, append_assoc, cons_append, nil_append]
  rw [hbytes, fromStream_headers hplain [] (.inl rfl), mapError_eq_ok, readBody_eq_ok] at h
  obtain ⟨length, hlength, body, hbody, rfl⟩ := h
  exact ⟨rfl, rfl, length, hlength, body, hbody⟩

theorem own_of_contained (hclean : Clean line.format.helper m)
    (hconvertible : Convertible line.format (.message m)) (h : Contained m line) : Own line.format.helper m := by
  obtain ⟨frame, hframe⟩ := convertible_message.mp hconvertible
  obtain ⟨hcommand, hplain, hfits⟩ := plain_message hclean hframe
  have hmarshal := marshal_message hframe hfits
  rcases h with ⟨e, line', herror, -⟩ | ⟨line', written, result, hok, hout, hread, -, hheaders⟩
  · rw [hmarshal] at herror
    cases herror
  rw [hmarshal] at hok
  cases hok
  obtain rfl := append_cancel_left hout
  obtain ⟨-, hproperties, length, hlength, body, hbody⟩ := fromStream_bytes hplain hread
  rw [hproperties] at hheaders
  constructor
  · intro name hname
    have hreserved : name ∈ reserved := mem_append_left [headerContentLength] hname
    rw [← or_eq_right_iff, ← find_message hframe hname]
    exact hheaders name hreserved
  · intro text htext
    rcases find_contentLength hframe with ⟨text', htext', hframeBody, hfind⟩ | ⟨bytes, hbytes, -⟩
    · rw [htext] at htext'
      cases htext'
      have hnone : frame.properties.find headerContentLength = none := by
        rw [hheaders headerContentLength (by decide), derived_contentLength, htext]
      refine ⟨eq_none_of_join hconvertible.2.2.2.1 (hfind.symm.trans hnone), ?_⟩
      have hzero : length = 0 := by
        simp only [contentLength, hasProperty, hnone, Option.isSome_none, Bool.false_eq_true,
          if_false, Except.ok.injEq] at hlength
        exact hlength.symm
      have hterminator : frame.terminator = [] := by
        rw [terminator, getProperty, hnone, hframeBody, if_neg]
        simp
      rw [hzero, readContent, if_neg (by simp), hframeBody, hterminator, append_nil,
        append_assoc] at hbody
      exact not_mem_of_readUntilNull hbody
    · rw [htext] at hbytes
      cases hbytes

theorem contained_of_own (hclean : Clean line.format.helper m)
    (hconvertible : Convertible line.format (.message m)) (h : Own line.format.helper m) : Contained m line := by
  obtain ⟨frame, hframe⟩ := convertible_message.mp hconvertible
  obtain ⟨hcommand, hplain, hfits⟩ := plain_message hclean hframe
  have hcontent : frame.properties.find headerContentLength = derived line.format.helper m headerContentLength ∧
      frame.WellFormed := by
    have hwf := StompFrame.WellFormed.mk hplain.command_ne hplain.command_bytes hplain.command_head hplain.names
      hplain.values
    rcases find_contentLength hframe with ⟨text, htext, hbody, hfind⟩ | ⟨body, hbytes, hbody, hfind⟩
    · obtain ⟨hnone, hnull⟩ := h.text text htext
      rw [hnone] at hfind
      rw [derived_contentLength, htext]
      exact ⟨hfind, hwf (.inr ⟨hfind, text, hbody, fun c hc heq => hnull (heq ▸ hc)⟩)⟩
    · rw [derived_contentLength, hbytes]
      exact ⟨hfind, hwf (.inl (by rw [hfind, hbody]))⟩
  obtain ⟨hlength, hwf⟩ := hcontent
  have hheaders : ∀ name ∈ reserved, frame.properties.find name = derived line.format.helper m name := by
    intro name hname
    rcases mem_append.mp (show name ∈ [headerDestination, headerReceiptRequired, headerTransactionId] ++
      [headerContentLength] from hname) with hname | hname
    · rw [find_message hframe hname]
      exact or_eq_right_iff.mpr (h.headers name hname)
    · rw [mem_singleton.mp hname]
      exact hlength
  have hread : ∃ result : StompFrame, fresh.fromStream (frame.bytes ++ [10]) = .ok result [10] ∧
      result.command = send ∧ result.properties = frame.properties := by
    by_cases hnil : frame.body = []
    · exact ⟨_, parses_fromStream hplain (parses_readBody_empty hwf hnil []) [] (.inl rfl) [10],
        hcommand, rfl⟩
    · exact ⟨_, parses_fromStream hplain (parses_readBody hwf hfits hnil []) [] (.inl rfl) [10],
        hcommand, rfl⟩
  obtain ⟨result, hresult, hsend, hproperties⟩ := hread
  refine .inr ⟨_, frame.bytes ++ [10], result, marshal_message hframe hfits, rfl, hresult, hsend, ?_⟩
  rwa [hproperties]

/-- A text for `queue://a` with one property. -/
def order (name value : ByteString) : StompMessage :=
  { commandId := 5, responseRequired := true, destination := some ⟨ascii "a", .queue⟩
    properties := OrderedMap.empty.insert name (some value), body := .text (ascii "hi") }

theorem clean_order {value : ByteString} (hname : PlainText name ∧ ∀ c ∈ name, c ≠ 58) (hvalue : PlainText value) :
    Clean newLine.format.helper (order name value) where
  names := by
    intro property hproperty
    rw [mem_singleton.mp hproperty]
    exact hname
  values := by
    intro property hproperty text htext
    rw [mem_singleton.mp hproperty] at htext
    cases htext
    exact hvalue
  destination := by
    rintro text ⟨⟩
    decide
  replyTo := by rintro header ⟨⟩
  transactionId := by rintro header ⟨⟩
  texts := by
    show ∀ text ∈ [[], [], []], PlainText text
    decide
  numbers := by
    show ∀ i ∈ [5, 0, 0, 0, 0], -9223372036854775808 ≤ i ∧ i < 9223372036854775808
    decide
  body := by
    show (ascii "hi").length + 1 < 2147483648
    decide

end StompWireFormat

end ActiveMQCpp.Stomp
