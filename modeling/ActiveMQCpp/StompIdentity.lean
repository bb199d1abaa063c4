import ActiveMQCpp.StompHelper

/-! Destinations, consumer ids and transaction ids are converted to texts and back. The ids that
`IdGenerator` makes have three segments between colons, which one of the two readers counts on. -/

namespace ActiveMQCpp.Stomp

open Codec Decaf MachineInt State ActiveMQDestination List Long StringTokenizer

variable {kernel : IdGeneratorKernel} {generator : IdGenerator}
variable {state : IdGeneratorKernel × IdGenerator} {text : ByteString}

/-! ### The generator of connection ids -/

structure IdGeneratorKernel where
  uniqueStub : ByteString
  instanceCount : Int
  hostname : ByteString

def IdGeneratorKernel.new (host : Option (ByteString × Int)) (currentTimeMillis : Int) : IdGeneratorKernel :=
  match host with
  | some (hostname, port) =>
    ⟨[45] ++ Long.toString port ++ [45] ++ Long.toString currentTimeMillis ++ [45], 0, hostname⟩
  | none => ⟨ascii "-1-" ++ Long.toString currentTimeMillis ++ [45], 0, ascii "localhost"⟩

structure IdGenerator where
  start : ByteString := []
  seed : ByteString := []
  sequence : Int := 0

namespace IdGenerator

def newSeed (kernel : IdGeneratorKernel) (generator : IdGenerator) : ByteString :=
  (if generator.start = [] then ascii "ID:" ++ kernel.hostname else generator.start) ++ kernel.uniqueStub ++
    Long.toString kernel.instanceCount ++ [58]

def generateId : StateM (IdGeneratorKernel × IdGenerator) ByteString := do
  let (kernel, generator) ← get
  let fresh := generator.seed = []
  let seed := if fresh then newSeed kernel generator else generator.seed
  set (if fresh then { kernel with instanceCount := kernel.instanceCount + 1 } else kernel,
    { generator with seed := seed, sequence := generator.sequence + 1 })
  pure (seed ++ Long.toString generator.sequence)

end IdGenerator

/-- The text is made of so many segments between colons, none of them empty. -/
def Segments (n : Nat) (text : ByteString) : Prop :=
  ∃ parts : List ByteString, parts.length = n ∧ (∀ part ∈ parts, part ≠ [] ∧ 58 ∉ part) ∧ text = [58].intercalate parts

/-- A value of the type `long long`. -/
def IsLong (i : Int) : Prop := -9223372036854775808 ≤ i ∧ i < 9223372036854775808

theorem toString_spec (i : Int) : Long.toString i ≠ [] ∧ 58 ∉ Long.toString i := by
  have hdigits : 58 ∉ digits i.natAbs := by
    intro hmem
    exact absurd (mem_digits hmem).2 (by decide)
  rw [Long.toString]
  split_ifs
  · refine ⟨cons_ne_nil _ _, ?_⟩
    rw [mem_cons, not_or]
    exact ⟨by decide, hdigits⟩
  · exact ⟨digits_ne_nil _, hdigits⟩

/-- The states of the generator that connections take their ids from: it has no start of its own, the host
name holds no colon, and other generators may count in between. -/
inductive IdGenerator.Reaches : IdGeneratorKernel × IdGenerator → Prop where
  | new (host : Option (ByteString × Int)) (currentTimeMillis : Int) (hhost : ∀ h ∈ host, 58 ∉ h.1) :
      Reaches (IdGeneratorKernel.new host currentTimeMillis, {})
  | count {kernel : IdGeneratorKernel} {generator : IdGenerator} (n : Int) (h : Reaches (kernel, generator)) :
      Reaches ({ kernel with instanceCount := n }, generator)
  | generate {state : IdGeneratorKernel × IdGenerator} (h : Reaches state) : Reaches (generateId state).2

/-- A seed is `ID` and one segment more. -/
structure IdGenerator.Seeded (state : IdGeneratorKernel × IdGenerator) : Prop where
  start_nil : state.2.start = []
  host : 58 ∉ state.1.hostname ++ state.1.uniqueStub
  seed : state.2.seed = [] ∨ ∃ part, part ≠ [] ∧ 58 ∉ part ∧ state.2.seed = ascii "ID" ++ 58 :: (part ++ [58])

theorem IdGenerator.generateId_fresh (h : generator.seed = []) :
    generateId (kernel, generator) = (newSeed kernel generator ++ Long.toString generator.sequence,
      { kernel with instanceCount := kernel.instanceCount + 1 },
      { generator with seed := newSeed kernel generator, sequence := generator.sequence + 1 }) := by
  show ((if generator.seed = [] then newSeed kernel generator else generator.seed) ++ _, if generator.seed = [] then _ else _,
    IdGenerator.mk _ (if generator.seed = [] then newSeed kernel generator else generator.seed) _) = _
  rw [if_pos h, if_pos h]

theorem IdGenerator.generateId_seeded (h : generator.seed ≠ []) :
    generateId (kernel, generator) = (generator.seed ++ Long.toString generator.sequence, kernel,
      { generator with sequence := generator.sequence + 1 }) := by
  show ((if generator.seed = [] then newSeed kernel generator else generator.seed) ++ _, if generator.seed = [] then _ else _,
    IdGenerator.mk _ (if generator.seed = [] then newSeed kernel generator else generator.seed) _) = _
  rw [if_neg h, if_neg h]

theorem IdGenerator.newSeed_eq (hstart : generator.start = []) (hhost : 58 ∉ kernel.hostname ++ kernel.uniqueStub) :
    ∃ part, part ≠ [] ∧ 58 ∉ part ∧ newSeed kernel generator = ascii "ID" ++ 58 :: (part ++ [58]) := by
  refine ⟨kernel.hostname ++ kernel.uniqueStub ++ Long.toString kernel.instanceCount, ?_, ?_, ?_⟩
  · exact List.append_ne_nil_of_right_ne_nil _ (toString_spec _).1
  · rw [List.mem_append, not_or]
    exact ⟨hhost, (toString_spec _).2⟩
  · rw [newSeed, if_pos hstart]
    show ascii "ID" ++ [58] ++ kernel.hostname ++ _ ++ _ ++ _ = _
    simp only [List.append_assoc, List.cons_append, List.nil_append]

theorem IdGenerator.Reaches.seeded (h : Reaches state) : Seeded state := by
  induction h with
  | new host currentTimeMillis hhost =>
    refine ⟨rfl, ?_, .inl rfl⟩
    have hstub := (toString_spec currentTimeMillis).2
    cases host with
    | none =>
      simp only [IdGeneratorKernel.new, List.mem_append, not_or]
      exact ⟨by decide, ⟨by decide, hstub⟩, by decide⟩
    | some h =>
      simp only [IdGeneratorKernel.new, List.mem_append, not_or]
      exact ⟨hhost h rfl, ⟨⟨⟨by decide, (toString_spec _).2⟩, by decide⟩, hstub⟩, by decide⟩
  | count n h ih => exact ⟨ih.start_nil, ih.host, ih.seed⟩
  | @generate state h ih =>
    obtain ⟨kernel, generator⟩ := state
    by_cases hfresh : generator.seed = []
    · rw [generateId_fresh hfresh]
      exact ⟨ih.start_nil, ih.host, .inr (newSeed_eq ih.start_nil ih.host)⟩
    · rw [generateId_seeded hfresh]
      exact ⟨ih.start_nil, ih.host, ih.seed⟩

theorem IdGenerator.Reaches.segments (h : Reaches state) : Segments 3 (generateId state).1 := by
  have hseeded := h.seeded
  obtain ⟨kernel, generator⟩ := state
  have hid : ∃ part, part ≠ [] ∧ 58 ∉ part ∧
      (generateId (kernel, generator)).1 = ascii "ID" ++ 58 :: (part ++ [58]) ++ Long.toString generator.sequence := by
    by_cases hfresh : generator.seed = []
    · obtain ⟨part, hne, hcolon, heq⟩ := newSeed_eq hseeded.start_nil hseeded.host
      refine ⟨part, hne, hcolon, ?_⟩
      rw [generateId_fresh hfresh, heq]
    · obtain ⟨part, hne, hcolon, heq⟩ := hseeded.seed.resolve_left hfresh
      refine ⟨part, hne, hcolon, ?_⟩
      rw [generateId_seeded hfresh, heq]
  obtain ⟨part, hne, hcolon, heq⟩ := hid
  refine ⟨[ascii "ID", part, Long.toString generator.sequence], rfl, ?_, ?_⟩
  · simp only [List.mem_cons, List.not_mem_nil, or_false, forall_eq_or_imp, forall_eq]
    exact ⟨by decide, ⟨hne, hcolon⟩, toString_spec _⟩
  · rw [heq]
    simp [List.intercalate]

/-! ### Consumer ids and transaction ids -/

theorem tokens_append (text rest : ByteString) : (new (text ++ 58 :: rest) 58).tokens
      = (new text 58).tokens ++ (new rest 58).tokens := by
  simp only [StringTokenizer.new, List.splitOn_append_cons_self, List.filter_append]

theorem tokens_segment (h : text ≠ [] ∧ 58 ∉ text) : (new text 58).tokens = [text] := by
  simp only [StringTokenizer.new, List.splitOn_eq_singleton h.2]
  simp [h.1]

theorem mem_splitOn {part : ByteString} {delim : UInt8} (h : part ∈ text.splitOn delim) : delim ∉ part := by
  induction text generalizing part with
  | nil =>
    rw [mem_singleton.mp h]
    exact not_mem_nil
  | cons c text ih =>
    rw [splitOn_cons_eq_if_modifyHead] at h
    split_ifs at h with hc
    · rcases mem_cons.mp h with rfl | h
      · exact not_mem_nil
      · exact ih h
    · obtain ⟨first, rest, hsplit⟩ := exists_cons_of_ne_nil (splitOn_ne_nil delim text)
      rw [hsplit, modifyHead_cons] at h
      rcases mem_cons.mp h with rfl | h
      · rw [mem_cons, not_or]
        refine ⟨fun heq => hc (by rw [heq]; exact BEq.rfl), ih ?_⟩
        rw [hsplit]
        exact mem_cons_self
      · apply ih
        rw [hsplit]
        exact mem_cons_of_mem _ h

theorem mem_tokens {text token : ByteString} (h : token ∈ (new text 58).tokens) : token ≠ [] ∧ 58 ∉ token := by
  obtain ⟨hsplit, hne⟩ := mem_filter.mp h
  exact ⟨of_decide_eq_true hne, mem_splitOn hsplit⟩

theorem tokens_segments {parts : List ByteString} (hparts : ∀ part ∈ parts, part ≠ [] ∧ 58 ∉ part) (hne : parts ≠ []) :
    (StringTokenizer.new ([58].intercalate parts) 58).tokens = parts := by
  rw [StringTokenizer.new, List.splitOn_intercalate _ (fun part h => (hparts part h).2) hne]
  simp only [filter_eq_self, decide_eq_true_eq]
  exact fun part h => (hparts part h).1

namespace StompHelper

variable {text name : ByteString} {helper : StompHelper} {type : DestinationType} {destination : Destination}
variable {tokens : List ByteString} {start : ByteString}

theorem consumerTokens_connectionId {id id' : ConsumerId ByteString}
    (h : consumerTokens id tokens = .ok id') : id'.connectionId = id.connectionId := by
  fun_induction consumerTokens id tokens with
  | case1 id =>
    cases h
    rfl
  | case2 id text =>
    obtain ⟨value, -, hok⟩ := except_bind_eq_ok.mp h
    cases hok
    rfl
  | case3 id text next rest ih =>
    obtain ⟨sessionId, -, hok⟩ := except_bind_eq_ok.mp h
    exact ih sessionId hok

theorem consumerIdOf_tokens (hne : text ≠ []) {id : ConsumerId ByteString} :
    consumerIdOf text = .ok (some id) ↔ ∃ first second third rest,
      (new text 58).tokens = first :: second :: third :: rest ∧
        consumerTokens ⟨first ++ [58] ++ second ++ [58] ++ third, 0, 0⟩ rest = .ok id := by
  rw [consumerIdOf, if_neg hne]
  generalize new text 58 = tokenizer
  obtain ⟨tokens⟩ := tokenizer
  match tokens with
  | [] => exact ⟨nofun, nofun⟩
  | [first] => exact ⟨nofun, nofun⟩
  | [first, second] => exact ⟨nofun, nofun⟩
  | first :: second :: third :: rest =>
    show (consumerTokens _ rest >>= fun id => Except.ok (some id)) = _ ↔ _
    rw [except_bind_eq_ok]
    constructor
    · rintro ⟨id', hid, hok⟩
      cases hok
      exact ⟨first, second, third, rest, rfl, hid⟩
    · rintro ⟨_, _, _, _, heq, hid⟩
      cases heq
      exact ⟨id, hid, rfl⟩

theorem transactionTokens_connectionId {id id' : LocalTransactionId ByteString}
    (h : transactionTokens id tokens = .ok id') : id'.connectionId = id.connectionId := by
  induction tokens generalizing id with
  | nil =>
    cases h
    rfl
  | cons text rest ih =>
    obtain ⟨value, -, hok⟩ := except_bind_eq_ok.mp h
    exact (ih hok).trans rfl

theorem transactionIdOf_tokens (hne : text ≠ []) {id : LocalTransactionId ByteString} :
    transactionIdOf text = .ok (some (.local id)) ↔ ∃ first second rest,
      (new text 58).tokens = first :: second :: rest ∧
        transactionTokens ⟨first ++ [58] ++ second, 0⟩ rest = .ok id := by
  rw [transactionIdOf, if_neg hne]
  generalize new text 58 = tokenizer
  obtain ⟨tokens⟩ := tokenizer
  match tokens with
  | [] => exact ⟨nofun, nofun⟩
  | [first] => exact ⟨nofun, nofun⟩
  | first :: second :: rest =>
    show (transactionTokens _ rest >>= fun id => Except.ok (some (TransactionId.local id))) = _ ↔ _
    rw [except_bind_eq_ok]
    constructor
    · rintro ⟨id', hid, hok⟩
      cases hok
      exact ⟨first, second, rest, rfl, hid⟩
    · rintro ⟨_, _, _, heq, hid⟩
      cases heq
      exact ⟨id, hid, rfl⟩

theorem consumerId_restored_iff {id : ConsumerId ByteString} (hsession : IsLong id.sessionId) (hvalue : IsLong id.value) :
    consumerIdOf (convertConsumerId id) = .ok (some id) ↔ Segments 3 id.connectionId := by
  have htext : convertConsumerId id
      = id.connectionId ++ 58 :: (Long.toString id.sessionId ++ 58 :: Long.toString id.value) := by
    simp only [convertConsumerId, append_assoc, cons_append, nil_append]
  have htokens : (new (convertConsumerId id) 58).tokens
      = (StringTokenizer.new id.connectionId 58).tokens ++ [Long.toString id.sessionId, Long.toString id.value] := by
    rw [htext, tokens_append, tokens_append, tokens_segment (toString_spec _), tokens_segment (toString_spec _)]
    rfl
  have hne : convertConsumerId id ≠ [] := by
    rw [htext]
    exact append_ne_nil_of_right_ne_nil _ (cons_ne_nil _ _)
  rw [consumerIdOf_tokens hne]
  constructor
  · rintro ⟨first, second, third, rest, heq, hid⟩
    refine ⟨[first, second, third], rfl, ?_, ?_⟩
    · intro part hpart
      apply @mem_tokens (convertConsumerId id)
      rw [heq]
      exact mem_append_left rest hpart
    · rw [consumerTokens_connectionId hid]
      simp [List.intercalate]
  · rintro ⟨parts, hlength, hparts, hconnection⟩
    obtain ⟨first, second, third, rfl⟩ := length_eq_three.mp hlength
    rw [htokens, hconnection, tokens_segments hparts (cons_ne_nil _ _)]
    refine ⟨first, second, third, [toString id.sessionId, toString id.value], rfl, ?_⟩
    simp only [consumerTokens, parseLong_toString hsession.1 hsession.2, parseLong_toString hvalue.1 hvalue.2]
    have hjoined : first ++ [58] ++ second ++ [58] ++ third = id.connectionId := by
      rw [hconnection]
      simp [List.intercalate]
    rw [hjoined]
    rfl

theorem transactionId_restored_iff {id : LocalTransactionId ByteString} (hvalue : IsLong id.value) :
    (convertTransactionId (.local id) >>= transactionIdOf) = .ok (some (.local id)) ↔ Segments 2 id.connectionId := by
  show transactionIdOf (id.connectionId ++ [58] ++ Long.toString id.value) = _ ↔ _
  have htokens : (new (id.connectionId ++ 58 :: toString id.value) 58).tokens
      = (StringTokenizer.new id.connectionId 58).tokens ++ [Long.toString id.value] := by
    rw [tokens_append, tokens_segment (toString_spec _)]
  rw [append_assoc, singleton_append,
    transactionIdOf_tokens (append_ne_nil_of_right_ne_nil _ (cons_ne_nil _ _))]
  constructor
  · rintro ⟨first, second, rest, heq, hid⟩
    refine ⟨[first, second], rfl, ?_, ?_⟩
    · intro part hpart
      apply @mem_tokens (id.connectionId ++ 58 :: toString id.value)
      rw [heq]
      exact mem_append_left rest hpart
    · rw [transactionTokens_connectionId hid]
      simp [List.intercalate]
  · rintro ⟨parts, hlength, hparts, hconnection⟩
    obtain ⟨first, second, rfl⟩ := length_eq_two.mp hlength
    rw [htokens, hconnection, tokens_segments hparts (cons_ne_nil _ _)]
    refine ⟨first, second, [toString id.value], rfl, ?_⟩
    simp only [transactionTokens, parseLong_toString hvalue.1 hvalue.2]
    have hjoined : first ++ [58] ++ second = id.connectionId := by
      rw [hconnection]
      simp [List.intercalate]
    rw [hjoined]
    rfl

/-! ### Destinations -/

/-- None of the configured prefixes starts with another. -/
def PrefixFree (helper : StompHelper) : Prop :=
  [helper.queuePrefix, helper.topicPrefix, helper.tempTopicPrefix, helper.tempQueuePrefix].Pairwise
    fun p q => ¬p <+: q ∧ ¬q <+: p

def prefixOf (helper : StompHelper) : DestinationType → ByteString
  | .queue => helper.queuePrefix
  | .topic => helper.topicPrefix
  | .tempTopic => helper.tempTopicPrefix
  | .tempQueue => helper.tempQueuePrefix

/-- A temporary destination of another client, which is written without a prefix. -/
def IsRemote (destination : Destination) : Prop :=
  destination.type = .tempTopic ∧ remoteTempTopic <+: destination.physicalName ∨
    destination.type = .tempQueue ∧ remoteTempQueue <+: destination.physicalName

/-- A name that the constructors take as it is. -/
def IsPlainName (name : ByteString) : Prop :=
  63 ∉ name ∧ ¬queueQualifiedPrefix <+: name ∧ ¬topicQualifiedPrefix <+: name ∧ ¬tempQueueQualifiedPrefix <+: name ∧
    ¬tempTopicQualifiedPrefix <+: name

/-- The text of a destination is converted back to the destination. -/
def Restores (helper : StompHelper) (destination : Destination) : Prop :=
  (helper.convertDestination (some destination) >>= helper.destinationOf) = .ok (some destination)

theorem startsWith_iff : startsWith start text = true ↔ start <+: text :=
  isPrefixOf_iff_prefix

theorem new_eq_ok (h : ActiveMQDestination.new helper type name = .ok destination) :
    63 ∉ name ∧ destination = ⟨name, type⟩ ∨ destination.physicalName.length < name.length := by
  rw [ActiveMQDestination.new] at h
  split at h
  · next hnone =>
      cases h
      refine .inl ⟨fun hmem => ?_, rfl⟩
      have := List.findIdx?_eq_none_iff.mp hnone 63 hmem
      simp at this
  · next pos hsome =>
      obtain ⟨-, -, hok⟩ := except_bind_eq_ok.mp h
      cases hok
      obtain ⟨hpos, -⟩ := List.findIdx?_eq_some_iff_getElem.mp hsome
      rw [length_take]
      exact .inr (by omega)

theorem new_length_le (h : new helper type name = .ok destination) :
    destination.physicalName.length ≤ name.length := by
  rcases new_eq_ok h with ⟨-, rfl⟩ | hlt
  · exact le_refl _
  · omega

theorem new_drop_length_lt (hne : start ≠ []) (hstart : startsWith start name = true)
    (h : new helper type (name.drop start.length) = .ok destination) :
    destination.physicalName.length < name.length := by
  have hle := new_length_le h
  have hlength := (startsWith_iff.mp hstart).length_le
  have hpos := length_pos_iff.mpr hne
  rw [length_drop] at hle
  omega

theorem createDestination_spec (h : createDestination helper type name = .ok destination) :
    IsPlainName name ∧ destination = ⟨name, type⟩ ∨ destination.physicalName.length < name.length := by
  rw [createDestination] at h
  split_ifs at h with hqueue htopic htempQueue htempTopic
  · exact .inr (new_drop_length_lt (by decide) hqueue h)
  · exact .inr (new_drop_length_lt (by decide) htopic h)
  · exact .inr (new_drop_length_lt (by decide) htempQueue h)
  · exact .inr (new_drop_length_lt (by decide) htempTopic h)
  · rcases new_eq_ok h with ⟨hquestion, rfl⟩ | hlt
    · rw [startsWith_iff] at hqueue htopic htempQueue htempTopic
      exact .inl ⟨⟨hquestion, hqueue, htopic, htempQueue, htempTopic⟩, rfl⟩
    · exact .inr hlt

theorem createDestination_length_le (h : createDestination helper type name = .ok destination) :
    destination.physicalName.length ≤ name.length := by
  rcases createDestination_spec h with ⟨-, rfl⟩ | hlt
  · exact le_refl _
  · omega

theorem createDestination_eq_ok : createDestination helper type name = .ok ⟨name, type⟩ ↔ IsPlainName name := by
  constructor
  · intro h
    rcases createDestination_spec h with ⟨hplain, -⟩ | hlt
    · exact hplain
    · exact absurd hlt (lt_irrefl _)
  · rintro ⟨hquestion, hqueue, htopic, htempQueue, htempTopic⟩
    rw [← startsWith_iff] at hqueue htopic htempQueue htempTopic
    rw [createDestination, if_neg hqueue, if_neg htopic, if_neg htempQueue, if_neg htempTopic, ActiveMQDestination.new]
    have hnone : name.findIdx? (· = 63) = none := by
      rw [List.findIdx?_eq_none_iff]
      intro c hc
      exact decide_eq_false fun heq => hquestion (heq ▸ hc)
    rw [hnone]

theorem not_startsWith {p q : ByteString} (h : ¬p <+: q ∧ ¬q <+: p) (name : ByteString) : ¬startsWith p (q ++ name) = true := by
  intro hp
  rcases prefix_or_prefix_of_prefix (startsWith_iff.mp hp) (prefix_append q name) with hpq | hqp
  · exact h.1 hpq
  · exact h.2 hqp

theorem PrefixFree.ne_nil (h : helper.PrefixFree) (type : DestinationType) : helper.prefixOf type ≠ [] := by
  simp only [PrefixFree, pairwise_cons, mem_cons, not_mem_nil, or_false, forall_eq_or_imp,
    forall_eq] at h
  obtain ⟨⟨hqt, -, -⟩, ⟨htt, htq⟩, -⟩ := h
  have hne : ∀ {p q : ByteString}, ¬p <+: q → p ≠ [] := by
    rintro p q h rfl
    exact h nil_prefix
  cases type with
  | queue => exact hne hqt.1
  | topic => exact hne hqt.2
  | tempTopic => exact hne htt.2
  | tempQueue => exact hne htq.2

theorem map_some_eq_ok {α ε : Type} {x : Except ε α} {a : α} : x.map some = .ok (some a) ↔ x = .ok a := by
  cases x with
  | ok b => simp [Except.map]
  | error e => simp [Except.map]

theorem destinationOf_prefix (hfree : helper.PrefixFree) (type : DestinationType) (name : ByteString) :
    helper.destinationOf (helper.prefixOf type ++ name) = (createDestination helper type name).map some := by
  have hself : ∀ p : ByteString, startsWith p (p ++ name) = true := fun p => startsWith_iff.mpr (prefix_append p name)
  have hne : helper.prefixOf type ++ name ≠ [] := append_ne_nil_of_left_ne_nil (hfree.ne_nil type) _
  rw [destinationOf, if_neg hne]
  simp only [PrefixFree, pairwise_cons, mem_cons, not_mem_nil, or_false, forall_eq_or_imp,
    forall_eq] at hfree
  obtain ⟨⟨hqt, hqtt, hqtq⟩, ⟨httt, httq⟩, htq, -⟩ := hfree
  cases type with
  | queue =>
    rw [prefixOf, if_pos (hself _), drop_left]
    rfl
  | topic =>
    rw [prefixOf, if_neg (not_startsWith hqt name), if_pos (hself _), drop_left]
    rfl
  | tempTopic =>
    rw [prefixOf, if_neg (not_startsWith hqtt name), if_neg (not_startsWith httt name), if_pos (hself _),
      drop_left]
    rfl
  | tempQueue =>
    rw [prefixOf, if_neg (not_startsWith hqtq name), if_neg (not_startsWith httq name),
      if_neg (not_startsWith htq name), if_pos (hself _), drop_left]
    rfl

theorem destinationOf_length_lt (hfree : helper.PrefixFree) (h : helper.destinationOf text = .ok (some destination)) :
    destination.physicalName.length < text.length := by
  have hdrop : ∀ (type type' : DestinationType), startsWith (helper.prefixOf type) text = true →
      createDestination helper type' (text.drop (helper.prefixOf type).length) = .ok destination →
      destination.physicalName.length < text.length := by
    intro type type' hstart hok
    have hle := createDestination_length_le hok
    have hlength := (startsWith_iff.mp hstart).length_le
    have hpos := length_pos_iff.mpr (hfree.ne_nil type)
    rw [length_drop] at hle
    omega
  rw [destinationOf] at h
  split_ifs at h with hnil hqueue htopic htempTopic htempQueue hremoteTopic hremoteQueue
  · cases h
  all_goals
    obtain ⟨result, hok, hsome⟩ := except_bind_eq_ok.mp h
    cases hsome
  · exact hdrop .queue .queue hqueue hok
  · exact hdrop .topic .topic htopic hok
  · exact hdrop .tempTopic .tempTopic htempTopic hok
  · exact hdrop .tempQueue .tempQueue htempQueue hok
  all_goals exact lt_of_le_of_lt (createDestination_length_le hok) (length_pos_iff.mpr hnil)

theorem restores_iff (hfree : helper.PrefixFree) (hsingle : isComposite destination = false) :
    helper.Restores destination ↔ IsPlainName destination.physicalName ∧ ¬IsRemote destination := by
  have hconvert : helper.convertDestination (some destination) = .ok (helper.doConvertDestination destination) := by
    rw [convertDestination, if_neg (by rw [hsingle]; exact Bool.false_ne_true)]
  rw [Restores, hconvert]
  show helper.destinationOf (helper.doConvertDestination destination) = _ ↔ _
  obtain ⟨name, type⟩ := destination
  by_cases hremote : IsRemote ⟨name, type⟩
  · have htext : helper.doConvertDestination ⟨name, type⟩ = name := by
      rcases hremote with ⟨rfl, hstart⟩ | ⟨rfl, hstart⟩
      · exact if_pos (startsWith_iff.mpr hstart)
      · exact if_pos (startsWith_iff.mpr hstart)
    rw [htext]
    exact ⟨fun h => absurd (destinationOf_length_lt hfree h) (lt_irrefl _), fun h => absurd hremote h.2⟩
  · have htext : helper.doConvertDestination ⟨name, type⟩ = helper.prefixOf type ++ name := by
      cases type with
      | queue => rfl
      | topic => rfl
      | tempTopic => exact if_neg fun h => hremote (.inl ⟨rfl, startsWith_iff.mp h⟩)
      | tempQueue => exact if_neg fun h => hremote (.inr ⟨rfl, startsWith_iff.mp h⟩)
    rw [htext, destinationOf_prefix hfree, map_some_eq_ok, createDestination_eq_ok]
    exact ⟨fun h => ⟨h, hremote⟩, fun h => h.1⟩

/-! ### All the conversions -/

def RestoresConsumerId (id : ConsumerId ByteString) : Prop := consumerIdOf (convertConsumerId id) = .ok (some id)

def RestoresTransactionId (id : LocalTransactionId ByteString) : Prop :=
  (convertTransactionId (.local id) >>= transactionIdOf) = .ok (some (.local id))

theorem segments_unique {m n : Nat} (hm : Segments (m + 1) text) (hn : Segments (n + 1) text) : m = n := by
  obtain ⟨parts, hlength, hparts, rfl⟩ := hm
  obtain ⟨parts', hlength', hparts', heq⟩ := hn
  have hne : ∀ {k : Nat} {ps : List ByteString}, ps.length = k + 1 → ps ≠ [] := by
    rintro k _ h rfl
    cases h
  have htokens := tokens_segments hparts (hne hlength)
  rw [heq, tokens_segments hparts' (hne hlength')] at htokens
  rw [htokens] at hlength'
  omega

/-- What comes back from its text: the destinations with a plain name that are not remote, the ids of
consumers whose connection id has three segments, as the generated ones have, and the ids of transactions
whose connection id has two. -/
theorem identities_restored_iff (helper : StompHelper) (destination : Destination)
    (consumerId : ConsumerId ByteString) (transactionId : LocalTransactionId ByteString)
    (state : IdGeneratorKernel × IdGenerator) :
    (helper.PrefixFree → isComposite destination = false →
      (helper.Restores destination ↔ IsPlainName destination.physicalName ∧ ¬IsRemote destination)) ∧
    (IsLong consumerId.sessionId → IsLong consumerId.value →
      (RestoresConsumerId consumerId ↔ Segments 3 consumerId.connectionId)) ∧
    (IsLong transactionId.value →
      (RestoresTransactionId transactionId ↔ Segments 2 transactionId.connectionId)) ∧
    (IdGenerator.Reaches state →
      Segments 3 (IdGenerator.generateId state).1 ∧ ¬Segments 2 (IdGenerator.generateId state).1) := by
  refine ⟨fun hfree => restores_iff hfree, consumerId_restored_iff, transactionId_restored_iff, ?_⟩
  intro h
  refine ⟨h.segments, fun htwo => ?_⟩
  have hcount := segments_unique h.segments htwo
  omega

def defaultHelper : StompHelper := { parseQuery := fun _ => .ok () }

def someConnectionId : ByteString :=
  (IdGenerator.generateId (IdGeneratorKernel.new (some (ascii "host", 61616)) 1700000000000, {})).1

theorem some_identities_restored :
    defaultHelper.Restores ⟨ascii "FOO", .queue⟩ ∧ RestoresConsumerId ⟨someConnectionId, 1, 2⟩ ∧
      RestoresTransactionId ⟨ascii "a:b", 7⟩ := by
  obtain ⟨hdestinations, hconsumers, htransactions, hgenerated⟩ :=
    identities_restored_iff defaultHelper ⟨ascii "FOO", .queue⟩ ⟨someConnectionId, 1, 2⟩ ⟨ascii "a:b", 7⟩
      (IdGeneratorKernel.new (some (ascii "host", 61616)) 1700000000000, {})
  refine ⟨?_, ?_, ?_⟩
  · refine (hdestinations ?_ ?_).mpr ⟨?_, ?_⟩
    · rw [PrefixFree]
      decide
    · decide
    · rw [IsPlainName]
      decide
    · rintro (⟨htype, -⟩ | ⟨htype, -⟩) <;> cases htype
  · refine (hconsumers ⟨by decide, by decide⟩ ⟨by decide, by decide⟩).mpr ?_
    refine (hgenerated (.new _ _ ?_)).1
    intro host hhost
    cases hhost
    decide
  · refine (htransactions ⟨by decide, by decide⟩).mpr ⟨[ascii "a", ascii "b"], rfl, ?_, by decide⟩
    decide

/-- A remote temporary queue, a composite queue and a transaction id with a generated connection id. -/
theorem identities_not_restored :
    ¬defaultHelper.Restores ⟨ascii "/remote-temp-queue/a", .tempQueue⟩ ∧
    ¬defaultHelper.Restores ⟨ascii "A,B", .queue⟩ ∧
    ¬RestoresTransactionId ⟨ascii "ID:host-61616-1700000000000-0:0", 5⟩ := by
  refine ⟨?_, ?_, ?_⟩
  · rw [Restores]
    decide +kernel
  · rw [Restores]
    decide +kernel
  · intro h
    have htwo := (transactionId_restored_iff ⟨by decide, by decide⟩).mp h
    have hthree : Segments 3 (ascii "ID:host-61616-1700000000000-0:0") :=
      ⟨[ascii "ID", ascii "host-61616-1700000000000-0", ascii "0"], rfl, by decide, by decide⟩
    exact absurd (segments_unique htwo hthree) (by decide)

end StompHelper

end ActiveMQCpp.Stomp
