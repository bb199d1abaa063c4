import ActiveMQCpp.StompWireFormat
import ActiveMQCpp.StompRoundTrip

/-! Requests and their answers. A command that needs a response is answered at once, or goes out as a frame
whose receipt header names the command, so that the answer of the broker finds it. -/

namespace ActiveMQCpp.Stomp

open Codec Decaf MachineInt State StompCommandConstants List Long StompFrame StompHelper

namespace StompWireFormat

variable {format : StompWireFormat} {command : StompCommand} {line : Line} {frame : StompFrame}
  {headers : List (ByteString × ByteString)} {helper : StompHelper} {m : StompMessage}

/-- The reply answers the command with this id. -/
def Reply.Correlates (id : Int) : Reply → Prop
  | .response correlationId => correlationId = id
  | .exceptionResponse correlationId _ => correlationId = id
  | _ => False

/-- The answers of the broker to a frame: it confirms a connection, and echoes the receipt header of any
other frame when the frame has been processed or has failed. -/
inductive Answers (frame answer : StompFrame) : Prop where
  | connected (hconnect : frame.command = connect) (hanswer : answer.command = connected)
  | echoed (value : ByteString) (hconnect : frame.command ≠ connect)
      (hanswer : answer.command = receipt ∨ answer.command = error)
      (hreceipt : frame.properties.find headerReceiptRequired = some value)
      (hecho : answer.properties.find headerReceiptId = some value)

/-- The command is answered at once, or it is written as one frame to which every answer of the broker is
read as a reply to the command. -/
def Correlates (command : StompCommand) (line : Line) : Prop :=
  ∃ line', marshal command line = .ok () line' ∧
    (line'.out = line.out ∧ line'.responses = line.responses ++ [command.base.commandId] ∨
      ∃ frame : StompFrame, frame.command ≠ [] ∧ frame.toStream line.out = .ok () line'.out ∧
        line'.responses = line.responses ∧
        (frame.command = connect ∨ (frame.properties.find headerReceiptRequired).isSome) ∧
        ∀ answer input rest, Answers frame answer → StompFrame.fresh.fromStream input = .ok answer rest →
          ∃ reply, line'.format.unmarshal input = .ok reply rest ∧ reply.Correlates command.base.commandId)

/-- The commands that can be turned into a frame, or need none: a message is a text or a bytes message whose
properties have texts, transactions are local ones, and a durable subscription has the name of the client. -/
def Convertible (format : StompWireFormat) : StompCommand → Prop
  | .message m =>
    (∃ text, format.helper.convertDestination m.destination = .ok text) ∧
      (∀ replyTo, m.replyTo = some replyTo → ∃ text, format.helper.convertDestination (some replyTo) = .ok text) ∧
      (∀ id, m.transactionId = some id → ∃ x, id = .local x) ∧
      (∀ property ∈ m.properties.entries, property.2.isSome) ∧ m.body ≠ .other
  | .messageAck info => ∀ id, info.transactionId = some id → ∃ x, id = .local x
  | .transactionInfo info => ∃ x, info.transactionId = .local x
  | .consumerInfo info =>
    (∃ text, format.helper.convertDestination info.destination = .ok text) ∧
      (info.subscriptionName = [] ∨ format.clientId = info.subscriptionName)
  | _ => True

/-- A transaction type that Stomp has a command for, a message without a property named like the receipt
header, an id of a connection command that is not taken for none. -/
def Expressible : StompCommand → Prop
  | .message m => m.properties.find headerReceiptRequired = none
  | .transactionInfo info => info.type = .begin ∨ info.type = .rollback ∨ info.type = .commitOnePhase
  | .connectionInfo info => info.commandId ≠ -1
  | _ => True

/-! ### Answers -/

theorem not_ignored_toString (i : Int) : startsWith ignored (toString i) = false := by
  rw [Bool.eq_false_iff]
  intro h
  have hmem : (105 : UInt8) ∈ Long.toString i := (List.isPrefixOf_iff_prefix.mp h).subset (by decide)
  have hdigits : (105 : UInt8) ∉ digits i.natAbs := fun hd => absurd (mem_digits hd).2 (by decide)
  rw [Long.toString] at hmem
  split_ifs at hmem
  · rcases mem_cons.mp hmem with h45 | hd
    · exact absurd h45 (by decide)
    · exact hdigits hd
  · exact hdigits hmem

theorem unmarshal_of_reply {answer : StompFrame} {input rest : List UInt8} {reply : Reply}
    (hread : fresh.fromStream input = .ok answer rest) (hreply : format.replyOf answer = .ok reply) :
    format.unmarshal input = .ok reply rest := by
  refine mapError_eq_ok.mpr ?_
  simp only [hread, hreply]

theorem replyOf_echo (format : StompWireFormat) {answer : StompFrame} {id : Int} (ignore : Bool)
    (hanswer : answer.command = receipt ∨ answer.command = error)
    (hecho : answer.properties.find headerReceiptId = some ((if ignore then ignored else []) ++ Long.toString id))
    (hlow : -2147483648 ≤ id) (hhigh : id < 2147483648) :
    ∃ reply, format.replyOf answer = .ok reply ∧ reply.Correlates id := by
  have hparse := Integer.parseInt_toString_int hlow hhigh
  have hstart : startsWith ignored (ignored ++ Long.toString id) = true :=
    isPrefixOf_iff_prefix.mpr (prefix_append _ _)
  have hdrop : (ignored ++ Long.toString id).drop 7 = Long.toString id := by
    rw [show 7 = ignored.length from by decide, drop_left]
  rcases hanswer with hcommand | hcommand
  · have hreply : format.replyOf answer = unmarshalReceipt answer := by
      rw [replyOf, hcommand, if_neg (by decide), if_neg (by decide), if_pos rfl]
    rw [hreply, unmarshalReceipt, hecho]
    cases ignore with
    | true =>
      simp only [if_true, hstart, hdrop, hparse]
      exact ⟨_, rfl, rfl⟩
    | false =>
      simp only [Bool.false_eq_true, if_false, nil_append, not_ignored_toString, hparse]
      exact ⟨_, rfl, rfl⟩
  · have hreply : format.replyOf answer = unmarshalError answer := by
      rw [replyOf, hcommand, if_neg (by decide), if_pos rfl]
    rw [hreply, unmarshalError, hecho]
    cases ignore with
    | true =>
      simp only [if_true, hstart, hdrop, hparse]
      exact ⟨_, rfl, rfl⟩
    | false =>
      simp only [Bool.false_eq_true, if_false, nil_append, not_ignored_toString, hparse]
      exact ⟨_, rfl, rfl⟩

theorem marshal_frame (hframe : frameOf command line.format = .ok (some frame) format) (hfits : frame.Fits) :
    marshal command line = .ok () { line with format := format, out := line.out ++ (frame.bytes ++ [10]) } := by
  have hwritten : frame.toStream line.out = .ok () (line.out ++ (frame.bytes ++ [10])) :=
    emits_toStream hfits line.out
  rw [marshal_eq_ok, hframe, transmit]
  exact Line.write_ok hwritten

theorem correlates_of_receipt
    (ignore : Bool) (hframe : frameOf command line.format = .ok (some frame) format) (hfits : frame.Fits)
    (hcommand : frame.command ≠ []) (hconnect : frame.command ≠ connect)
    (hreceipt : frame.properties.find headerReceiptRequired
      = some ((if ignore then ignored else []) ++ Long.toString command.base.commandId))
    (hlow : -2147483648 ≤ command.base.commandId) (hhigh : command.base.commandId < 2147483648) :
    Correlates command line := by
  refine ⟨_, marshal_frame hframe hfits, .inr ⟨frame, hcommand, emits_toStream hfits line.out, rfl, ?_, ?_⟩⟩
  · rw [hreceipt]
    exact .inr rfl
  · intro answer input rest hanswers hread
    cases hanswers with
    | connected hconnect' => exact absurd hconnect' hconnect
    | echoed value _ hanswer hvalue hecho =>
      rw [hreceipt] at hvalue
      obtain ⟨reply, hreply, hcorrelates⟩ := replyOf_echo format ignore hanswer (hecho.trans hvalue.symm) hlow hhigh
      exact ⟨reply, unmarshal_of_reply hread hreply, hcorrelates⟩

theorem correlates_of_none
    (hframe : frameOf command line.format = .ok none format) (hresponse : command.base.responseRequired = true)
    (hlistening : line.listening = true) : Correlates command line := by
  refine ⟨{ line with format := format, responses := line.responses ++ [command.base.commandId] }, ?_, .inl ⟨rfl, rfl⟩⟩
  rw [marshal_eq_ok, hframe, transmit, hresponse, hlistening]
  rfl

theorem correlates_of_connect (hframe : frameOf command line.format = .ok (some frame) format) (hfits : frame.Fits)
    (hconnect : frame.command = connect) (hid : format.connectResponseId = command.base.commandId)
    (hne : command.base.commandId ≠ -1) : Correlates command line := by
  refine ⟨_, marshal_frame hframe hfits, .inr ⟨frame, ?_, emits_toStream hfits line.out, rfl, .inl hconnect, ?_⟩⟩
  · rw [hconnect]
    decide
  · intro answer input rest hanswers hread
    cases hanswers with
    | connected _ hanswer =>
      have hreply : format.replyOf answer = .ok (.response command.base.commandId) := by
        rw [replyOf, hanswer, if_pos rfl, unmarshalConnected, hid, if_pos hne]
      exact ⟨_, unmarshal_of_reply hread hreply, rfl⟩
    | echoed _ hother => exact absurd hconnect hother

/-! ### Receipts -/

theorem find_receipt {base : BaseCommand} (command : ByteString) (ignore : Bool)
    (hresponse : base.responseRequired = true)
    (havoids : ∀ header ∈ headers, header.1 ≠ headerReceiptRequired) :
    (newFrame command (receiptHeader base ignore ++ headers)).properties.find headerReceiptRequired
      = some ((if ignore then ignored else []) ++ Long.toString base.commandId) := by
  have hreceipt : receiptHeader base ignore
      = [(headerReceiptRequired, (if ignore then ignored else []) ++ Long.toString base.commandId)] := by
    rw [receiptHeader, if_pos hresponse]
    rfl
  rw [newFrame, setProperties_append, find_setProperties_of_avoids havoids, hreceipt]
  refine find_setProperties_of_mem mem_cons_self ?_
  intro header hheader _
  rw [mem_singleton.mp hheader]

theorem standardHeaders_avoid_receipt
    {standard : List (ByteString × ByteString)} (h : helper.standardHeaders m = .ok standard) :
    ∀ header ∈ standard, header.1 ≠ headerReceiptRequired := by
  obtain ⟨destination, -, replyTo, hreplyTo, transactionId, htransaction, rfl⟩ := standardHeaders_eq_ok.mp h
  intro header hheader
  rcases mem_fieldHeaders hheader with rfl | rfl | rfl | hfree
  · show headerDestination ≠ _
    decide
  · rw [replyToHeader_name hreplyTo]
    decide
  · rw [transactionHeader_name htransaction]
    decide
  · intro heq
    rw [heq] at hfree
    exact hfree (by decide)

theorem propertyHeaders_avoid_receipt {properties : List (ByteString × ByteString)}
    (h : propertyHeaders m = .ok properties) (hnone : m.properties.find headerReceiptRequired = none) :
    ∀ header ∈ properties, header.1 ≠ headerReceiptRequired := by
  intro header hheader heq
  have hentry : (header.1, some header.2) ∈ m.properties.entries := by
    rw [← propertyHeaders_eq_ok.mp h]
    exact mem_map_of_mem hheader
  rw [heq, ← OrderedMap.find_eq_some, hnone] at hentry
  cases hentry

/-- The frame asks for a receipt with the id of the command. -/
def AsksReceipt (base : BaseCommand) (frame : StompFrame) : Prop :=
  frame.command ≠ [] ∧ frame.command ≠ connect ∧ ∃ ignore : Bool, frame.properties.find headerReceiptRequired
    = some ((if ignore then ignored else []) ++ Long.toString base.commandId)

theorem asksReceipt_newFrame {base : BaseCommand} {command : ByteString} (ignore : Bool)
    (hresponse : base.responseRequired = true)
    (hne : command ≠ []) (hconnect : command ≠ connect)
    (havoids : ∀ header ∈ headers, header.1 ≠ headerReceiptRequired) :
    AsksReceipt base (newFrame command (receiptHeader base ignore ++ headers)) := by
  have hcommand : (newFrame command (receiptHeader base ignore ++ headers)).command = command :=
    command_setProperties _ _
  refine ⟨?_, ?_, ignore, find_receipt command ignore hresponse havoids⟩
  · rwa [hcommand]
  · rwa [hcommand]

theorem asksReceipt_message (h : marshalMessage helper m = .ok frame) (hresponse : m.responseRequired = true)
    (hnone : m.properties.find headerReceiptRequired = none) : AsksReceipt m.toBaseCommand frame := by
  obtain ⟨standard, hstandard, properties, hproperties, hbody⟩ := marshalMessage_eq_ok.mp h
  obtain ⟨hcommand, hfind⟩ := setMessageBody_frame hbody
  have hasks : AsksReceipt m.toBaseCommand (messageFrame m standard properties) := by
    refine asksReceipt_newFrame false hresponse (by decide) (by decide) ?_
    intro header hheader
    rcases mem_append.mp hheader with hheader | hheader
    · exact standardHeaders_avoid_receipt hstandard header hheader
    · exact propertyHeaders_avoid_receipt hproperties hnone header hheader
  unfold AsksReceipt at hasks ⊢
  rwa [hcommand, hfind headerReceiptRequired (by decide)]

theorem asksReceipt_ack {ack : StompAck} (h : marshalAck ack = .ok frame)
    (hresponse : ack.responseRequired = true) : AsksReceipt ack.toBaseCommand frame := by
  obtain ⟨transactionId, htransaction, hframe⟩ := except_bind_eq_ok.mp h
  cases hframe
  refine asksReceipt_newFrame true hresponse (by decide) (by decide) ?_
  intro header hheader
  rcases mem_cons.mp hheader with rfl | hheader
  · show headerMessageId ≠ _
    decide
  · rw [Option.mem_toList] at hheader
    cases hheader
    rw [transactionHeader_name htransaction]
    decide

theorem asksReceipt_transaction {info : StompTransactionInfo}
    (h : marshalTransactionInfo info = .ok frame) (hresponse : info.responseRequired = true)
    (htype : info.type = .begin ∨ info.type = .rollback ∨ info.type = .commitOnePhase) :
    AsksReceipt info.toBaseCommand frame := by
  obtain ⟨text, -, hframe⟩ := except_bind_eq_ok.mp h
  cases hframe
  have hcommand : transactionCommand info.type ≠ [] ∧ transactionCommand info.type ≠ connect := by
    rcases htype with heq | heq | heq <;> rw [heq] <;> decide
  refine asksReceipt_newFrame false hresponse hcommand.1 hcommand.2 ?_
  intro header hheader
  rw [mem_singleton.mp hheader]
  show headerTransactionId ≠ _
  decide

theorem flagHeader_name {name : ByteString} {flag : Bool} {header : ByteString × ByteString}
    (h : flagHeader name flag = some header) : header.1 = name := by
  unfold flagHeader at h
  split_ifs at h
  cases h
  rfl

theorem asksReceipt_consumer {info : StompConsumerInfo}
    (h : format.marshalConsumerInfo info = .ok frame) (hresponse : info.responseRequired = true) :
    AsksReceipt info.toBaseCommand frame := by
  obtain ⟨destination, -, hframe⟩ := except_bind_eq_ok.mp h
  split_ifs at hframe
  cases hframe
  refine asksReceipt_newFrame false hresponse (by decide) (by decide) ?_
  intro header hheader
  have hset : ∀ {name text : ByteString}, name ≠ headerReceiptRequired → some (name, text) = some header →
      header.1 ≠ headerReceiptRequired := by
    rintro name text hname ⟨⟩
    exact hname
  have htext : ∀ {name text : ByteString}, name ≠ headerReceiptRequired →
      textHeader name text = some header → header.1 ≠ headerReceiptRequired := by
    intro name text hname hheader
    rwa [textHeader_name hheader]
  have hflag : ∀ {name : ByteString} {flag : Bool}, name ≠ headerReceiptRequired →
      flagHeader name flag = some header → header.1 ≠ headerReceiptRequired := by
    intro name flag hname hheader
    rwa [flagHeader_name hheader]
  simp only [reduceOption_mem_iff, mem_cons, not_mem_nil, or_false, eq_comm (a := some header)] at hheader
  rcases hheader with h | h | h | h | h | h | h | h | h | h | h | h | h
  · exact hset (by decide) h
  · exact hset (by decide) h
  · exact htext (by decide) h
  · exact htext (by decide) h
  · exact htext (by decide) h
  · exact hset (by decide) h
  · exact hflag (by decide) h
  · exact hset (by decide) h
  · exact hflag (by decide) h
  · exact hset (by decide) h
  · exact hset (by decide) h
  · exact hset (by decide) h
  · exact hflag (by decide) h

theorem asksReceipt_of_frame {format' : StompWireFormat}
    (h : frameOf command format = .ok (some frame) format') (hresponse : command.base.responseRequired = true)
    (hexpressible : Expressible command) :
    AsksReceipt command.base frame ∨
      frame.command = connect ∧ format'.connectResponseId = command.base.commandId ∧ command.base.commandId ≠ -1 := by
  have hmade : ∀ {made' : Except Failure StompFrame}, made made' format = .ok (some frame) format' →
      made' = .ok frame := by
    intro made' hmade'
    obtain ⟨frame', hframe', ⟨⟩, -⟩ := made_eq_ok.mp hmade'
    exact hframe'
  cases command with
  | message m => exact .inl (asksReceipt_message (hmade h) hresponse hexpressible)
  | removeInfo info =>
    left
    obtain ⟨base, objectId⟩ := info
    cases objectId with
    | consumer id =>
      cases h
      refine asksReceipt_newFrame false hresponse (by decide) (by decide) ?_
      intro header hheader
      rw [mem_singleton.mp hheader]
      show headerId ≠ _
      decide
    | _ => cases h
  | shutdownInfo base =>
    cases h
    have hasks : AsksReceipt base (newFrame disconnect (receiptHeader base false ++ [])) :=
      asksReceipt_newFrame false hresponse (by decide) (by decide) fun header hheader => absurd hheader not_mem_nil
    rw [append_nil] at hasks
    exact .inl hasks
  | messageAck ack => exact .inl (asksReceipt_ack (hmade h) hresponse)
  | connectionInfo info =>
    cases h
    exact .inr ⟨command_setProperties _ _, rfl, hexpressible⟩
  | transactionInfo info => exact .inl (asksReceipt_transaction (hmade h) hresponse hexpressible)
  | consumerInfo info => exact .inl (asksReceipt_consumer (hmade h) hresponse)
  | removeSubscriptionInfo info =>
    cases h
    left
    refine asksReceipt_newFrame true hresponse (by decide) (by decide) ?_
    intro header hheader
    rcases mem_cons.mp hheader with rfl | hheader
    · show headerId ≠ _
      decide
    · rcases mem_cons.mp hheader with rfl | hheader
      · show headerSubscriptionName ≠ _
        decide
      · rw [mem_singleton.mp hheader]
        show headerOldSubscriptionName ≠ _
        decide
  | other base => cases h

/-! ### Commands that have no frame -/

theorem transactionHeader_isOk {transactionId : Option (TransactionId ByteString)} :
    (∃ header, transactionHeader transactionId = .ok header) ↔
      ∀ id, transactionId = some id → ∃ x, id = .local x := by
  cases transactionId with
  | none => exact ⟨fun _ _ hsome => absurd hsome (by simp), fun _ => ⟨none, rfl⟩⟩
  | some id =>
    cases id with
    | «local» x =>
      refine ⟨fun _ id hid => ?_, fun _ => ⟨_, rfl⟩⟩
      cases hid
      exact ⟨x, rfl⟩
    | xa formatId globalTransactionId branchQualifier =>
      refine ⟨?_, fun h => ?_⟩
      · rintro ⟨header, ⟨⟩⟩
      · obtain ⟨x, hx⟩ := h _ rfl
        cases hx

theorem replyToHeader_isOk {replyTo : Option Destination} : (∃ header, helper.replyToHeader replyTo = .ok header) ↔
      ∀ destination, replyTo = some destination → ∃ text, helper.convertDestination (some destination) = .ok text := by
  cases replyTo with
  | none => exact ⟨fun _ _ hsome => absurd hsome (by simp), fun _ => ⟨none, rfl⟩⟩
  | some replyTo =>
    constructor
    · rintro ⟨header, h⟩ destination ⟨⟩
      obtain ⟨text, htext, -⟩ := except_bind_eq_ok.mp h
      exact ⟨text, htext⟩
    · intro h
      obtain ⟨text, htext⟩ := h replyTo rfl
      exact ⟨_, except_bind_eq_ok.mpr ⟨text, htext, rfl⟩⟩

theorem propertyHeaders_isOk :
    (∃ headers, propertyHeaders m = .ok headers) ↔ ∀ property ∈ m.properties.entries, property.2.isSome := by
  simp only [propertyHeaders_eq_ok]
  generalize m.properties.entries = entries
  constructor
  · rintro ⟨headers, rfl⟩ property hproperty
    obtain ⟨header, -, rfl⟩ := mem_map.mp hproperty
    rfl
  · intro h
    refine ⟨entries.map fun property => (property.1, property.2.getD []), ?_⟩
    rw [map_map]
    refine (map_congr_left fun property hproperty => ?_).trans (map_id entries)
    obtain ⟨name, text⟩ := property
    obtain ⟨text, rfl⟩ := Option.isSome_iff_exists.mp (h _ hproperty)
    rfl

theorem convertible_message :
    Convertible format (.message m) ↔ ∃ frame, marshalMessage format.helper m = .ok frame := by
  simp only [marshalMessage_eq_ok]
  constructor
  · rintro ⟨⟨destination, hdestination⟩, hreplyTo, htransaction, hproperties, hbody⟩
    obtain ⟨replyTo, hreplyTo⟩ := replyToHeader_isOk.mpr hreplyTo
    obtain ⟨transactionId, htransaction⟩ := transactionHeader_isOk.mpr htransaction
    obtain ⟨properties, hproperties⟩ := propertyHeaders_isOk.mpr hproperties
    have hstandard := standardHeaders_eq_ok.mpr
      ⟨destination, hdestination, replyTo, hreplyTo, transactionId, htransaction, rfl⟩
    cases hm : m.body with
    | text text => exact ⟨_, _, hstandard, properties, hproperties, rfl⟩
    | bytes body => exact ⟨_, _, hstandard, properties, hproperties, rfl⟩
    | other => exact absurd hm hbody
  · rintro ⟨frame, standard, hstandard, properties, hproperties, hframe⟩
    obtain ⟨destination, hdestination, replyTo, hreplyTo, transactionId, htransaction, -⟩ :=
      standardHeaders_eq_ok.mp hstandard
    refine ⟨⟨destination, hdestination⟩, replyToHeader_isOk.mp ⟨replyTo, hreplyTo⟩,
      transactionHeader_isOk.mp ⟨transactionId, htransaction⟩, propertyHeaders_isOk.mp ⟨properties, hproperties⟩, ?_⟩
    intro hother
    rw [hother] at hframe
    cases hframe

theorem convertible_consumer {info : StompConsumerInfo} :
    Convertible format (.consumerInfo info) ↔ ∃ frame, format.marshalConsumerInfo info = .ok frame := by
  unfold marshalConsumerInfo
  constructor
  · rintro ⟨⟨destination, hdestination⟩, hname⟩
    refine ⟨_, except_bind_eq_ok.mpr ⟨destination, hdestination, if_neg ?_⟩⟩
    rintro ⟨hne, hdiffers⟩
    exact hname.elim hne hdiffers
  · rintro ⟨frame, h⟩
    obtain ⟨destination, hdestination, hframe⟩ := except_bind_eq_ok.mp h
    split_ifs at hframe with hname
    refine ⟨⟨destination, hdestination⟩, ?_⟩
    by_contra hboth
    exact hname (not_or.mp hboth)

theorem convertible_ack {ack : StompAck} :
    Convertible format (.messageAck ack) ↔ ∃ frame, marshalAck ack = .ok frame := by
  unfold marshalAck
  refine transactionHeader_isOk.symm.trans ⟨?_, ?_⟩
  · rintro ⟨header, hheader⟩
    exact ⟨_, except_bind_eq_ok.mpr ⟨header, hheader, rfl⟩⟩
  · rintro ⟨frame, h⟩
    obtain ⟨header, hheader, -⟩ := except_bind_eq_ok.mp h
    exact ⟨header, hheader⟩

theorem convertible_transaction {info : StompTransactionInfo} :
    Convertible format (.transactionInfo info) ↔ ∃ frame, marshalTransactionInfo info = .ok frame := by
  obtain ⟨base, transactionId, type⟩ := info
  cases transactionId with
  | «local» x => exact ⟨fun _ => ⟨_, rfl⟩, fun _ => ⟨x, rfl⟩⟩
  | xa =>
    constructor
    · rintro ⟨x, ⟨⟩⟩
    · rintro ⟨frame, ⟨⟩⟩

theorem convertible_iff :
    Convertible format command ↔ ∃ frame format', frameOf command format = .ok frame format' := by
  have hmade : ∀ {made' : Except Failure StompFrame},
      (∃ frame, made' = .ok frame) ↔ ∃ frame format', made made' format = .ok frame format' := by
    intro made'
    simp only [made_eq_ok]
    constructor
    · rintro ⟨frame, hframe⟩
      exact ⟨some frame, format, frame, hframe, rfl, rfl⟩
    · rintro ⟨-, -, frame, hframe, -⟩
      exact ⟨frame, hframe⟩
  cases command with
  | message m => exact convertible_message.trans hmade
  | messageAck ack => exact convertible_ack.trans hmade
  | transactionInfo info => exact convertible_transaction.trans hmade
  | consumerInfo info => exact convertible_consumer.trans hmade
  | removeInfo info => exact iff_of_true trivial ⟨_, _, rfl⟩
  | shutdownInfo base => exact iff_of_true trivial ⟨_, _, rfl⟩
  | connectionInfo info => exact iff_of_true trivial ⟨_, _, rfl⟩
  | removeSubscriptionInfo info => exact iff_of_true trivial ⟨_, _, rfl⟩
  | other base => exact iff_of_true trivial ⟨_, _, rfl⟩

theorem marshal_refused (h : ¬Convertible line.format command) :
    ∃ e line', marshal command line = .error e line' ∧ line'.out = line.out ∧ line'.responses = line.responses := by
  cases hframe : frameOf command line.format with
  | ok frame format => exact absurd (convertible_iff.mpr ⟨frame, format, hframe⟩) h
  | error e format =>
    refine ⟨catchExceptionConvert e, { line with format := format }, mapError_error ?_, rfl, rfl⟩
    show transmit command line (frameOf command line.format) = _
    rw [hframe, transmit]

/-- A command that needs a response and can be turned into a frame is answered at once, or its frame lets
the answer of the broker find it; any other command is refused, and nothing is written. -/
theorem request_correlates (line : Line) (command : StompCommand) (hresponse : command.base.responseRequired = true)
    (hlow : -2147483648 ≤ command.base.commandId) (hhigh : command.base.commandId < 2147483648)
    (hlistening : line.listening = true) (hexpressible : Expressible command)
    (hfits : ∀ frame format, frameOf command line.format = .ok (some frame) format → frame.Fits) :
    (Convertible line.format command → Correlates command line) ∧
      (¬Convertible line.format command → ∃ e line', marshal command line = .error e line' ∧
        line'.out = line.out ∧ line'.responses = line.responses) := by
  refine ⟨fun hconvertible => ?_, marshal_refused⟩
  obtain ⟨frame, format, hframe⟩ := convertible_iff.mp hconvertible
  cases frame with
  | none => exact correlates_of_none hframe hresponse hlistening
  | some frame =>
    have hfits := hfits frame format hframe
    rcases asksReceipt_of_frame hframe hresponse hexpressible with ⟨hne, hconnect, ignore, hreceipt⟩ | ⟨hconnect, hid, hne⟩
    · exact correlates_of_receipt ignore hframe hfits hne hconnect hreceipt hlow hhigh
    · exact correlates_of_connect hframe hfits hconnect hid hne

theorem fits_newFrame {command : ByteString} (hcommand : command.length < 2147483648)
    (hheaders : ∀ header ∈ headers, header.1.length < 2147483648 ∧ header.2.length < 2147483648) :
    (newFrame command headers).Fits := by
  have hentries : ∀ e ∈ (newFrame command headers).properties.entries, e ∈ headers := by
    intro e he
    rcases mem_setProperties he with hfresh | hset
    · cases hfresh
    · exact hset
  have hframe : (newFrame command headers).command = command ∧ (newFrame command headers).body = [] := by
    exact ⟨command_setProperties _ _, body_setProperties _ _⟩
  refine ⟨?_, fun e he => (hheaders e (hentries e he)).1, fun e he => (hheaders e (hentries e he)).2, ?_⟩
  · rwa [hframe.1]
  · rw [hframe.2]
    decide

/-- Starting a transaction on a new connection. -/
def beginFirst : StompTransactionInfo :=
  { commandId := 3, responseRequired := true, transactionId := .local ⟨ascii "ID:host-1:1", 1⟩, type := .begin }

def newLine : Line := { format := { helper := { parseQuery := fun _ => .ok () } } }

theorem begin_correlates : Correlates (.transactionInfo beginFirst) newLine := by
  have hfits : ∀ frame format, frameOf (.transactionInfo beginFirst) newLine.format = .ok (some frame) format →
      frame.Fits := by
    rintro frame format ⟨⟩
    refine fits_newFrame (by decide) ?_
    intro header hheader
    rcases mem_cons.mp hheader with rfl | hheader
    · exact ⟨by decide, lt_of_le_of_lt (length_toString_le (i := 3) (k := 0) (by decide)) (by decide)⟩
    · have hvalue := length_toString_le (i := 1) (k := 0) (by decide)
      rw [mem_singleton.mp hheader]
      refine ⟨by decide, ?_⟩
      simp only [length_append]
      have hid : (ascii "ID:host-1:1").length = 11 := by decide
      simp only [hid, length_singleton]
      omega
  exact (request_correlates newLine (.transactionInfo beginFirst) rfl (by decide) (by decide) rfl (.inl rfl) hfits).1
    ⟨_, rfl⟩

/-- A map message, which there is no frame for. -/
def mapMessage : StompMessage := { commandId := 4, responseRequired := true, destination := none, body := .other }

/-- A message that is neither a text nor a bytes message is refused with an exception. -/
theorem mapMessage_not_correlated : (StompCommand.message mapMessage).base.responseRequired = true ∧
    ¬Correlates (.message mapMessage) newLine := by
  refine ⟨rfl, ?_⟩
  rintro ⟨line', hmarshal, -⟩
  cases hmarshal

end StompWireFormat

end ActiveMQCpp.Stomp
