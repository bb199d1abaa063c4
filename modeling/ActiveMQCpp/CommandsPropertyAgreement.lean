import ActiveMQCpp.CommandsMessageProperties
import ActiveMQCpp.LibPreserves
import ActiveMQCpp.LibRuns

/-! The setters of message properties against their getters, through any sequence of sets: when the value of a property
is the one that was set, and when a reserved one has the same value in the message and in the map. -/

namespace ActiveMQCpp.Commands

open Codec MachineInt Decaf Wire Util ReservedProperty

variable {name : ByteString} {m m' : PropertyMessage} {r : ReservedProperty}

/-- A value with the type that its setter and its getter are named after. -/
inductive PropertyValue where
  | boolean (value : Bool)
  | byte (value : UInt8)
  | double (bits : BitVec 64)
  | float (bits : BitVec 32)
  | int (value : BitVec 32)
  | long (value : BitVec 64)
  | short (value : BitVec 16)
  | string (value : ByteString)
  deriving DecidableEq

inductive PropertyType where
  | boolean
  | byte
  | double
  | float
  | int
  | long
  | short
  | string
  deriving DecidableEq

namespace PropertyValue

def type : PropertyValue → PropertyType
  | boolean _ => .boolean
  | byte _ => .byte
  | double _ => .double
  | float _ => .float
  | int _ => .int
  | long _ => .long
  | short _ => .short
  | string _ => .string

open ActiveMQMessageTemplate in
def set (name : ByteString) : PropertyValue → PropertyMessage.Setter
  | boolean value => setBooleanProperty name value
  | byte value => setByteProperty name value
  | double value => setDoubleProperty name value
  | float value => setFloatProperty name value
  | int value => setIntProperty name value
  | long value => setLongProperty name value
  | short value => setShortProperty name value
  | string value => setStringProperty name value

end PropertyValue

open ActiveMQMessageTemplate in
def PropertyType.get (C : FloatConversions) (name : ByteString) (m : PropertyMessage) :
    PropertyType → Except Failure PropertyValue
  | boolean => (getBooleanProperty name m).map .boolean
  | byte => (getByteProperty name m).map .byte
  | double => (getDoubleProperty C name m).map .double
  | float => (getFloatProperty C name m).map .float
  | int => (getIntProperty name m).map .int
  | long => (getLongProperty name m).map .long
  | short => (getShortProperty name m).map .short
  | string => (getStringProperty C name m).map .string

/-! ### The law -/

def numberOf : PrimitiveValueNode → Option Int
  | .byte value => some value.toNat
  | .short value => some value.toInt
  | .integer value => some value.toInt
  | .long value => some value.toInt
  | .string text => (Integer.parseInt text).toOption
  | _ => none

def flagOf : PrimitiveValueNode → Option Bool
  | .boolean value => some value
  | .string text => some (Boolean.parseBoolean text)
  | _ => none

def textOf : PrimitiveValueNode → Option ByteString
  | .string text => some text
  | _ => none

/-- What the node stands for is what the message has for the reserved property. -/
def ReservedProperty.Matches (m : PropertyMessage) (node : PrimitiveValueNode) : ReservedProperty → Prop
  | deliveryCount => numberOf node = some m.redeliveryCounter.toInt
  | groupID => textOf node = some m.groupID
  | groupSeq => numberOf node = some m.groupSequence.toInt
  | groupFirstForConsumer => flagOf node = some m.jMSXGroupFirstForConsumer

/-- The map holds nothing else under the reserved names than the message does. -/
def PropertyMessage.Agrees (m : PropertyMessage) : Prop :=
  ∀ reserved node, m.properties.find (ReservedProperty.name reserved) = some node → reserved.Matches m node

/-- The message has the same value for the reserved property as before. -/
def ReservedProperty.Same (m m' : PropertyMessage) : ReservedProperty → Prop
  | deliveryCount => m'.redeliveryCounter = m.redeliveryCounter
  | groupID => m'.groupID = m.groupID
  | groupSeq => m'.groupSequence = m.groupSequence
  | groupFirstForConsumer => m'.jMSXGroupFirstForConsumer = m.jMSXGroupFirstForConsumer

/-- The fields of the message and the entries of the map but those for one name are as before. -/
structure PropertyMessage.Untouched (name : ByteString) (m m' : PropertyMessage) : Prop where
  reserved : ∀ r : ReservedProperty, r.name ≠ name → r.Same m m'
  readOnlyProperties : m'.readOnlyProperties = m.readOnlyProperties
  entries : ∀ name' ≠ name, m'.properties.find name' = m.properties.find name'

/-- So is every other property, with every type it can be read with. -/
structure PropertyMessage.SameBut (C : FloatConversions) (name : ByteString) (m m' : PropertyMessage) : Prop
    extends Untouched name m m' where
  values : ∀ name' ≠ name, ∀ type : PropertyType, type.get C name' m' = type.get C name' m

structure PropertySet where
  name : ByteString
  value : PropertyValue

namespace PropertySet

def Faithful (C : FloatConversions) (m : PropertyMessage) (call : PropertySet) : Prop :=
  match call.value.set call.name m with
  | .ok () m' => call.value.type.get C call.name m' = .ok call.value ∧ PropertyMessage.SameBut C call.name m m' ∧ m'.Agrees
  | .error _ m' => m' = m

def step (m : PropertyMessage) (call : PropertySet) : Option PropertyMessage :=
  some (stateOf (call.value.set call.name m))

/-- A number that a reserved property with this field can be set to. A `long` does not reach the field. -/
def Countable (field : BitVec 32) : PropertyValue → Prop
  | .short _ => False
  | .long value => value = field.signExtend 64
  | .string text => ∀ n, Integer.parseInt text = .ok n → Integer.toString n = text
  | _ => True

/-- A value that the flag can be set to. A `bool` does not reach the map, a `byte` and a `double` not the field. -/
def Flaggable (m : PropertyMessage) : PropertyValue → Prop
  | .boolean value =>
    m.properties.find ReservedProperty.groupFirstForConsumer.name = none ∨ value = m.jMSXGroupFirstForConsumer
  | .byte _ | .double _ => False
  | .string text => text = ascii "true" ∨ text = ascii "false"
  | _ => True

/-- The message refuses the call, or the name is not reserved, or the value is one for the reserved property. -/
def Settable (m : PropertyMessage) (call : PropertySet) : Prop :=
  call.name = [] ∨ m.readOnlyProperties = true ∨
  match ReservedProperty.ofName? call.name with
  | none => True
  | some .deliveryCount => Countable m.redeliveryCounter call.value
  | some .groupID => call.value.type ≠ .long
  | some .groupSeq => Countable m.groupSequence call.value
  | some .groupFirstForConsumer => Flaggable m call.value

end PropertySet

/-! ### What a setter leaves alone -/

namespace PropertyMessage

theorem Untouched.refl (name : ByteString) (m : PropertyMessage) : m.Untouched name m :=
  ⟨fun r _ => by cases r <;> rfl, rfl, fun _ _ => rfl⟩

theorem Untouched.trans {name : ByteString} {m m' m'' : PropertyMessage} (h : m.Untouched name m')
    (h' : m'.Untouched name m'') : m.Untouched name m'' := by
  refine ⟨?_, h'.readOnlyProperties.trans h.readOnlyProperties, ?_⟩
  · intro r hr
    have hfirst := h.reserved r hr
    have hsecond := h'.reserved r hr
    cases r <;> exact Eq.trans hsecond hfirst
  · intro name' hname
    exact (h'.entries name' hname).trans (h.entries name' hname)

instance (name : ByteString) : Std.Refl (Untouched name) := ⟨Untouched.refl name⟩

instance (name : ByteString) : IsTrans PropertyMessage (Untouched name) := ⟨fun _ _ _ => Untouched.trans⟩

theorem untouched_of_field {r : ReservedProperty} {m m' : PropertyMessage} (hreserved : ∀ r' ≠ r, r'.Same m m')
    (hproperties : m'.properties = m.properties) (hreadOnly : m'.readOnlyProperties = m.readOnlyProperties) :
    m.Untouched r.name m' := by
  refine ⟨?_, hreadOnly, ?_⟩
  · intro r' hr'
    apply hreserved
    rintro rfl
    exact hr' rfl
  · intro name' _
    rw [hproperties]

end PropertyMessage

open PropertyMessage MessagePropertyInterceptor

theorem moves_setRedeliveryCounter (value : BitVec 32) :
    Moves (Untouched deliveryCount.name) (setRedeliveryCounter value) :=
  moves_modify fun _ => untouched_of_field (fun r hr => by cases r <;> first | rfl | exact absurd rfl hr) rfl rfl

theorem moves_setGroupID (value : ByteString) : Moves (Untouched groupID.name) (setGroupID value) :=
  moves_modify fun _ => untouched_of_field (fun r hr => by cases r <;> first | rfl | exact absurd rfl hr) rfl rfl

theorem moves_setGroupSequence (value : BitVec 32) : Moves (Untouched groupSeq.name) (setGroupSequence value) :=
  moves_modify fun _ => untouched_of_field (fun r hr => by cases r <;> first | rfl | exact absurd rfl hr) rfl rfl

theorem moves_setJMSXGroupFirstForConsumer (value : Bool) :
    Moves (Untouched groupFirstForConsumer.name) (setJMSXGroupFirstForConsumer value) :=
  moves_modify fun _ => untouched_of_field (fun r hr => by cases r <;> first | rfl | exact absurd rfl hr) rfl rfl

theorem moves_store (node : PrimitiveValueNode) : Moves (Untouched name) (store fun map => map.insert name node) := by
  apply moves_modify
  intro m
  refine ⟨fun r _ => by cases r <;> rfl, rfl, ?_⟩
  intro name' hname
  show (m.properties.insert name node).find name' = m.properties.find name'
  rw [OrderedMap.find_insert, if_neg hname]

theorem moves_parsed {value : ByteString} {set : BitVec 32 → Setter} (hset : ∀ n, Moves (Untouched name) (set n)) :
    Moves (Untouched name) (MessagePropertyInterceptor.parsed value set) := by
  rw [MessagePropertyInterceptor.parsed]
  cases Integer.parseInt value with
  | ok n => exact hset _
  | error e => exact moves_throw e

theorem moves_intercepted {refused : List ReservedProperty} {intercept : ReservedProperty → Setter}
    {node : PrimitiveValueNode} (hintercept : ∀ r, Moves (Untouched r.name) (intercept r)) :
    Moves (Untouched name) (MessagePropertyInterceptor.setProperty refused intercept (fun map => map.insert name node) name) := by
  rw [MessagePropertyInterceptor.setProperty]
  cases hname : ofName? name with
  | none => exact moves_store node
  | some r =>
    obtain rfl := ofName?_eq_some.mp hname
    exact (moves_throw _).ite ((hintercept r).bind fun _ => moves_store node)

namespace PropertyValue

/-- What the setter calls after its checks. -/
def intercepted (name : ByteString) : PropertyValue → Setter
  | boolean value => setBooleanProperty name value
  | byte value => setByteProperty name value
  | double value => setDoubleProperty name value
  | float value => setFloatProperty name value
  | int value => setIntProperty name value
  | long value => setLongProperty name value
  | short value => setShortProperty name value
  | string value => setStringProperty name value

def node : PropertyValue → PrimitiveValueNode
  | boolean value => .boolean value
  | byte value => .byte value
  | double bits => .double bits
  | float bits => .float bits
  | int value => .integer value
  | long value => .long value
  | short value => .short value
  | string value => .string value

theorem set_eq (name : ByteString) (value : PropertyValue) :
    value.set name = ActiveMQMessageTemplate.setProperty name (value.intercepted name) := by
  cases value <;> rfl

theorem moves_intercepted (name : ByteString) (value : PropertyValue) :
    Moves (Untouched name) (value.intercepted name) := by
  cases value with
  | boolean value =>
    show Moves _ (setBooleanProperty name value)
    unfold setBooleanProperty
    cases hname : ofName? name with
    | none => exact moves_store _
    | some r =>
      obtain rfl := ofName?_eq_some.mp hname
      cases r with
      | groupFirstForConsumer => exact moves_setJMSXGroupFirstForConsumer value
      | _ => exact moves_throw _
  | byte value => exact Commands.moves_intercepted fun _ => moves_pure _
  | double bits => exact Commands.moves_intercepted fun _ => moves_pure _
  | float bits => exact Commands.moves_intercepted fun _ => moves_pure _
  | int value =>
    apply Commands.moves_intercepted
    intro r
    cases r with
    | deliveryCount => exact moves_setRedeliveryCounter value
    | groupSeq => exact moves_setGroupSequence value
    | _ => exact moves_pure _
  | long value => exact Commands.moves_intercepted fun _ => moves_pure _
  | short value =>
    apply Commands.moves_intercepted
    intro r
    cases r with
    | deliveryCount => exact moves_setRedeliveryCounter _
    | groupSeq => exact moves_setGroupSequence _
    | _ => exact moves_pure _
  | string value =>
    apply Commands.moves_intercepted
    intro r
    cases r with
    | deliveryCount => exact moves_parsed moves_setRedeliveryCounter
    | groupID => exact moves_setGroupID value
    | groupSeq => exact moves_parsed moves_setGroupSequence
    | groupFirstForConsumer => exact moves_setJMSXGroupFirstForConsumer _

theorem set_cases (name : ByteString) (value : PropertyValue) (m : PropertyMessage) :
    (name = [] ∨ m.readOnlyProperties = true) ∧ (∃ e, value.set name m = .error e m) ∨
    name ≠ [] ∧ m.readOnlyProperties = false ∧
      value.set name m = mapError catchAllThrowCMSException (value.intercepted name) m := by
  rw [set_eq, ActiveMQMessageTemplate.setProperty]
  by_cases hname : name = []
  · rw [if_pos hname]
    exact .inl ⟨.inl hname, _, rfl⟩
  · rw [if_neg hname]
    cases hreadOnly : m.readOnlyProperties with
    | true =>
      have hfail : ActiveMQMessageTemplate.failIfReadOnlyProperties m = .error ActiveMQMessageTemplate.readOnly m := by
        rw [ActiveMQMessageTemplate.failIfReadOnlyProperties, bind_ok (get_run m), hreadOnly]
        rfl
      exact .inl ⟨.inr rfl, _, bind_error hfail⟩
    | false =>
      have hpass : ActiveMQMessageTemplate.failIfReadOnlyProperties m = .ok () m := by
        rw [ActiveMQMessageTemplate.failIfReadOnlyProperties, bind_ok (get_run m), hreadOnly]
        rfl
      exact .inr ⟨hname, rfl, bind_ok hpass⟩

theorem set_of_unrefused {name : ByteString} {value : PropertyValue} {m : PropertyMessage} (hname : name ≠ [])
    (hreadOnly : m.readOnlyProperties = false) :
    value.set name m = mapError catchAllThrowCMSException (value.intercepted name) m := by
  rcases set_cases name value m with ⟨hrefused, -⟩ | ⟨-, -, hset⟩
  · rcases hrefused with hnil | htrue
    · exact absurd hnil hname
    · rw [hreadOnly] at htrue
      cases htrue
  · exact hset

theorem set_reserved {r : ReservedProperty} {value : PropertyValue} {m m' : PropertyMessage}
    (hreadOnly : m.readOnlyProperties = false) (h : value.intercepted r.name m = .ok () m') :
    value.set r.name m = .ok () m' :=
  (set_of_unrefused r.name_ne_nil hreadOnly).trans (mapError_eq_ok.mpr h)

theorem untouched_set (name : ByteString) (value : PropertyValue) (m : PropertyMessage) :
    m.Untouched name (stateOf (value.set name m)) := by
  rcases set_cases name value m with ⟨-, e, herror⟩ | ⟨-, -, hset⟩
  · rw [herror]
    exact Untouched.refl name m
  · have hmoves := moves_intercepted name value m
    rw [hset, mapError]
    cases hrun : value.intercepted name m <;> rw [hrun] at hmoves <;> exact hmoves

end PropertyValue

/-! ### The getters -/

theorem getProperty_congr {α : Type} {field : ReservedProperty → Option (PropertyMessage → α)}
    {read : ByteString → PrimitiveMap → Except Failure α} {name' : ByteString}
    (h : m.Untouched name m') (hname : name' ≠ name)
    (hfield : ∀ r value, field r = some value → r.Same m m' → value m' = value m)
    (hread : read name' m'.properties = read name' m.properties) :
    MessagePropertyInterceptor.getProperty field read name' m' = MessagePropertyInterceptor.getProperty field read name' m := by
  rw [MessagePropertyInterceptor.getProperty, MessagePropertyInterceptor.getProperty]
  cases hreserved : ofName? name' with
  | none => exact hread
  | some r =>
    obtain rfl := ofName?_eq_some.mp hreserved
    dsimp only
    cases hvalue : field r with
    | none => rfl
    | some value => exact congrArg Except.ok (hfield r value hvalue (h.reserved r hname))

theorem PropertyMessage.Untouched.sameBut (C : FloatConversions) (h : m.Untouched name m') : m.SameBut C name m' := by
  refine ⟨h, ?_⟩
  intro name' hname type
  have hget : PrimitiveMap.get name' m'.properties = PrimitiveMap.get name' m.properties := by
    rw [PrimitiveMap.get, PrimitiveMap.get, h.entries name' hname]
  have hread : ∀ {α : Type} (convert : PrimitiveValueNode → Except Failure α),
      (PrimitiveMap.get name' m'.properties >>= convert) = (PrimitiveMap.get name' m.properties >>= convert) := by
    intro α convert
    rw [hget]
  have hcongr : ∀ {α : Type} {field : ReservedProperty → Option (PropertyMessage → α)}
      {read : ByteString → PrimitiveMap → Except Failure α} (f : α → PropertyValue),
      (∀ r value, field r = some value → r.Same m m' → value m' = value m) →
      read name' m'.properties = read name' m.properties →
      (Except.mapError ActiveMQMessageTemplate.catchGet (MessagePropertyInterceptor.getProperty field read name' m')).map f
        = (Except.mapError ActiveMQMessageTemplate.catchGet (MessagePropertyInterceptor.getProperty field read name' m)).map f := by
    intro α field read f hfield hread
    rw [getProperty_congr h hname hfield hread]
  cases type with
  | boolean =>
    refine hcongr PropertyValue.boolean ?_ (hread _)
    intro r value hvalue hsame
    cases r <;> cases hvalue
    exact hsame
  | byte => exact hcongr PropertyValue.byte (fun _ _ hvalue => by cases hvalue) (hread _)
  | double => exact hcongr PropertyValue.double (fun _ _ hvalue => by cases hvalue) (hread _)
  | float => exact hcongr PropertyValue.float (fun _ _ hvalue => by cases hvalue) (hread _)
  | int =>
    refine hcongr PropertyValue.int ?_ (hread _)
    intro r value hvalue hsame
    cases r <;> cases hvalue <;> exact hsame
  | long =>
    refine hcongr PropertyValue.long ?_ (hread _)
    intro r value hvalue hsame
    cases r <;> cases hvalue <;> exact congrArg (BitVec.signExtend 64) hsame
  | short => exact hcongr PropertyValue.short (fun _ _ hvalue => by cases hvalue) (hread _)
  | string =>
    refine hcongr PropertyValue.string ?_ (hread _)
    intro r value hvalue hsame
    cases r <;> cases hvalue
    · exact congrArg (fun n => Integer.toString (BitVec.toInt n)) hsame
    · exact hsame
    · exact congrArg (fun n => Integer.toString (BitVec.toInt n)) hsame
    · exact congrArg Boolean.toString hsame

/-! ### One set -/

theorem PropertyMessage.Agrees.congr (hm : m.Agrees)
    (h : m.Untouched name m') (hname : r.name ≠ name) {node : PrimitiveValueNode}
    (hnode : m'.properties.find r.name = some node) : r.Matches m' node := by
  rw [h.entries r.name hname] at hnode
  have hmatches := hm r node hnode
  have hsame := h.reserved r hname
  cases r
  · exact hmatches.trans (congrArg (fun n => some (BitVec.toInt n)) hsame.symm)
  · exact hmatches.trans (congrArg some hsame.symm)
  · exact hmatches.trans (congrArg (fun n => some (BitVec.toInt n)) hsame.symm)
  · exact hmatches.trans (congrArg some hsame.symm)

/-- After a set of a reserved property only its own field and entry can differ. -/
theorem agrees_iff_of_untouched (hm : m.Agrees) (h : m.Untouched r.name m') :
    m'.Agrees ↔ ∀ node, m'.properties.find r.name = some node → r.Matches m' node := by
  constructor
  · intro hagrees node hnode
    exact hagrees r node hnode
  · intro hself r' node hnode
    by_cases hr : r' = r
    · exact hr ▸ hself node (hr ▸ hnode)
    · exact hm.congr h (fun hname => hr (name_injective hname)) hnode

namespace PropertySet

variable (C : FloatConversions) {m m' : PropertyMessage} {call : PropertySet}

theorem faithful_of_error {e : Failure} (h : call.value.set call.name m = .error e m) : call.Faithful C m := by
  rw [Faithful, h]

theorem faithful_iff_of_ok (h : call.value.set call.name m = .ok () m') :
    call.Faithful C m ↔ call.value.type.get C call.name m' = .ok call.value ∧ m'.Agrees := by
  have huntouched := call.value.untouched_set call.name m
  rw [h] at huntouched
  rw [Faithful, h]
  constructor
  · rintro ⟨hget, -, hagrees⟩
    exact ⟨hget, hagrees⟩
  · rintro ⟨hget, hagrees⟩
    exact ⟨hget, huntouched.sameBut C, hagrees⟩

theorem faithful_of_refused {e : Failure} (hname : call.name ≠ []) (hreadOnly : m.readOnlyProperties = false)
    (h : call.value.intercepted call.name m = .error e m) : call.Faithful C m :=
  faithful_of_error C ((PropertyValue.set_of_unrefused hname hreadOnly).trans (mapError_error h))

theorem faithful_iff_of_stored (hname : call.name ≠ []) (hreadOnly : m.readOnlyProperties = false)
    (h : call.value.intercepted call.name m = .ok () m') :
    call.Faithful C m ↔ call.value.type.get C call.name m' = .ok call.value ∧ m'.Agrees :=
  faithful_iff_of_ok C ((PropertyValue.set_of_unrefused hname hreadOnly).trans (mapError_eq_ok.mpr h))

end PropertySet

/-! ### Names that are not reserved -/

theorem PropertyValue.intercepted_of_not_reserved (hname : ofName? name = none)
    (value : PropertyValue) : value.intercepted name = store fun map => map.insert name value.node := by
  have hset : ∀ (refused : List ReservedProperty) (intercept : ReservedProperty → Setter) (write : PrimitiveMap → PrimitiveMap),
      MessagePropertyInterceptor.setProperty refused intercept write name = store write := by
    intro refused intercept write
    rw [MessagePropertyInterceptor.setProperty, hname]
  cases value with
  | boolean value =>
    show setBooleanProperty name value = _
    unfold setBooleanProperty
    rw [hname]
    rfl
  | _ => exact hset _ _ _

theorem PropertyValue.get_of_not_reserved (C : FloatConversions) (hname : ofName? name = none) (value : PropertyValue)
    (hnode : m.properties.find name = some value.node) : value.type.get C name m = .ok value := by
  have hget : PrimitiveMap.get name m.properties = .ok value.node := by rw [PrimitiveMap.get, hnode]
  have hread : ∀ {α : Type} (field : ReservedProperty → Option (PropertyMessage → α))
      (convert : PrimitiveValueNode → Except Failure α) (f : α → PropertyValue) (a : α), convert value.node = .ok a →
      (Except.mapError ActiveMQMessageTemplate.catchGet (MessagePropertyInterceptor.getProperty field
        (fun key map => PrimitiveMap.get key map >>= convert) name m)).map f = .ok (f a) := by
    intro α field convert f a hconvert
    rw [MessagePropertyInterceptor.getProperty, hname]
    show (Except.mapError _ (PrimitiveMap.get name m.properties >>= convert)).map f = _
    rw [hget]
    show (Except.mapError _ (convert value.node)).map f = _
    rw [hconvert]
    rfl
  cases value with
  | boolean value => exact hread _ PrimitiveValueConverter.convertBool .boolean value rfl
  | byte value => exact hread _ PrimitiveValueConverter.convertByte .byte value rfl
  | double bits => exact hread _ (PrimitiveValueConverter.convertDouble C) .double bits rfl
  | float bits => exact hread _ (PrimitiveValueConverter.convertFloat C) .float bits rfl
  | int value => exact hread _ PrimitiveValueConverter.convertInt .int value rfl
  | long value => exact hread _ PrimitiveValueConverter.convertLong .long value rfl
  | short value => exact hread _ PrimitiveValueConverter.convertShort .short value rfl
  | string value => exact hread _ (PrimitiveValueConverter.convertString C) .string value rfl

theorem PropertySet.faithful_of_not_reserved (C : FloatConversions) (hm : m.Agrees)
    {call : PropertySet} (hname : call.name ≠ []) (hreadOnly : m.readOnlyProperties = false)
    (hreserved : ofName? call.name = none) : call.Faithful C m := by
  have hrun : call.value.intercepted call.name m
      = .ok () { m with properties := m.properties.insert call.name call.value.node } := by
    rw [PropertyValue.intercepted_of_not_reserved hreserved]
    rfl
  have huntouched := call.value.moves_intercepted call.name m
  rw [hrun] at huntouched
  refine (faithful_iff_of_stored C hname hreadOnly hrun).mpr ⟨?_, ?_⟩
  · apply PropertyValue.get_of_not_reserved C hreserved
    show (m.properties.insert call.name call.value.node).find call.name = _
    rw [OrderedMap.find_insert, if_pos rfl]
  · intro r node hnode
    refine hm.congr huntouched ?_ hnode
    intro heq
    rw [ofName?_eq_some.mpr heq] at hreserved
    cases hreserved

/-! ### The reserved names -/

theorem MessagePropertyInterceptor.setProperty_reserved (refused : List ReservedProperty)
    (intercept : ReservedProperty → Setter) (write : PrimitiveMap → PrimitiveMap) (r : ReservedProperty) :
    MessagePropertyInterceptor.setProperty refused intercept write r.name =
      if r ∈ refused then throw cannotConvert else intercept r >>= fun _ => store write := by
  rw [MessagePropertyInterceptor.setProperty, ofName?_name]

theorem get_reserved {α : Type} (field : ReservedProperty → Option (PropertyMessage → α))
    (read : ByteString → PrimitiveMap → Except Failure α) (f : α → PropertyValue) (r : ReservedProperty)
    (m : PropertyMessage) :
    (Except.mapError ActiveMQMessageTemplate.catchGet (MessagePropertyInterceptor.getProperty field read r.name m)).map f =
      match field r with
      | some value => .ok (f (value m))
      | none => .error (ActiveMQMessageTemplate.catchGet cannotConvert) := by
  rw [MessagePropertyInterceptor.getProperty, ofName?_name]
  dsimp only
  cases field r <;> rfl

/-- The types that a reserved property cannot be set with. -/
def ReservedProperty.refuses : ReservedProperty → PropertyType → Bool
  | groupID, type => type ∉ [.long, .string]
  | groupFirstForConsumer, type => type ∈ [.float, .int, .long, .short]
  | _, type => type ∈ [.boolean, .byte, .double, .float]

theorem intercepted_refused {value : PropertyValue} (h : r.refuses value.type = true)
    (m : PropertyMessage) : value.intercepted r.name m = .error cannotConvert m := by
  cases value with
  | boolean value =>
    rw [PropertyValue.intercepted, setBooleanProperty, ofName?_name]
    cases r <;> first | rfl | cases h
  | byte value =>
    rw [PropertyValue.intercepted, setByteProperty, MessagePropertyInterceptor.setProperty_reserved]
    cases r <;> first | rfl | cases h
  | double bits =>
    rw [PropertyValue.intercepted, setDoubleProperty, MessagePropertyInterceptor.setProperty_reserved]
    cases r <;> first | rfl | cases h
  | float bits =>
    rw [PropertyValue.intercepted, setFloatProperty, MessagePropertyInterceptor.setProperty_reserved]
    cases r <;> rfl
  | int value =>
    rw [PropertyValue.intercepted, setIntProperty, MessagePropertyInterceptor.setProperty_reserved]
    cases r <;> first | rfl | cases h
  | long value =>
    rw [PropertyValue.intercepted, setLongProperty, MessagePropertyInterceptor.setProperty_reserved]
    cases r <;> first | rfl | cases h
  | short value =>
    rw [PropertyValue.intercepted, setShortProperty, MessagePropertyInterceptor.setProperty_reserved]
    cases r <;> first | rfl | cases h
  | string value => cases r <;> cases h

theorem PropertySet.faithful_of_refuses (C : FloatConversions) {value : PropertyValue}
    (hreadOnly : m.readOnlyProperties = false) (h : r.refuses value.type = true) :
    (PropertySet.mk r.name value).Faithful C m :=
  faithful_of_refused C r.name_ne_nil hreadOnly (intercepted_refused h m)

namespace PropertyMessage

def stored (m : PropertyMessage) (name : ByteString) (node : PrimitiveValueNode) : PropertyMessage :=
  { m with properties := m.properties.insert name node }

theorem find_stored (m : PropertyMessage) (name : ByteString) (node : PrimitiveValueNode) :
    (m.stored name node).properties.find name = some node := by
  rw [stored, OrderedMap.find_insert, if_pos rfl]

def counter (m : PropertyMessage) : ReservedProperty → BitVec 32
  | .groupSeq => m.groupSequence
  | _ => m.redeliveryCounter

def withCounter (m : PropertyMessage) (value : BitVec 32) : ReservedProperty → PropertyMessage
  | .groupSeq => { m with groupSequence := value }
  | _ => { m with redeliveryCounter := value }

end PropertyMessage

def ReservedProperty.IsCounter (r : ReservedProperty) : Prop := r = deliveryCount ∨ r = groupSeq

section Counter

variable {r : ReservedProperty} {m : PropertyMessage}

theorem counter_stored (hr : r.IsCounter) (value : BitVec 32) (node : PrimitiveValueNode) :
    ((m.withCounter value r).stored r.name node).counter r = value := by
  rcases hr with rfl | rfl <;> rfl

theorem matches_counter (hr : r.IsCounter) (node : PrimitiveValueNode) :
    r.Matches m node ↔ numberOf node = some (m.counter r).toInt := by
  rcases hr with rfl | rfl <;> exact Iff.rfl

theorem intercepted_int (hr : r.IsCounter) (value : BitVec 32) :
    (PropertyValue.int value).intercepted r.name m = .ok () ((m.withCounter value r).stored r.name (.integer value)) := by
  show setIntProperty r.name value m = _
  rw [setIntProperty, MessagePropertyInterceptor.setProperty_reserved]
  rcases hr with rfl | rfl <;> rfl

theorem intercepted_short (hr : r.IsCounter) (value : BitVec 16) : (PropertyValue.short value).intercepted r.name m =
      .ok () ((m.withCounter (value.signExtend 32) r).stored r.name (.short value)) := by
  show setShortProperty r.name value m = _
  rw [setShortProperty, MessagePropertyInterceptor.setProperty_reserved]
  rcases hr with rfl | rfl <;> rfl

theorem intercepted_long (hr : r.IsCounter) (value : BitVec 64) :
    (PropertyValue.long value).intercepted r.name m = .ok () (m.stored r.name (.long value)) := by
  show setLongProperty r.name value m = _
  rw [setLongProperty, MessagePropertyInterceptor.setProperty_reserved]
  rcases hr with rfl | rfl <;> rfl

theorem intercepted_string_ok (hr : r.IsCounter) {text : ByteString} {n : Int} (hparse : Integer.parseInt text = .ok n) :
    (PropertyValue.string text).intercepted r.name m =
      .ok () ((m.withCounter (BitVec.ofInt 32 n) r).stored r.name (.string text)) := by
  show setStringProperty r.name text m = _
  rw [setStringProperty, MessagePropertyInterceptor.setProperty_reserved]
  rcases hr with rfl | rfl <;> simp only [MessagePropertyInterceptor.parsed, hparse] <;> rfl

theorem intercepted_string_error (hr : r.IsCounter) {text : ByteString} {e : Failure}
    (hparse : Integer.parseInt text = .error e) :
    (PropertyValue.string text).intercepted r.name m = .error e m := by
  show setStringProperty r.name text m = _
  rw [setStringProperty, MessagePropertyInterceptor.setProperty_reserved]
  rcases hr with rfl | rfl <;> simp only [MessagePropertyInterceptor.parsed, hparse] <;> rfl

variable (C : FloatConversions)

theorem get_counter_int (hr : r.IsCounter) : PropertyType.int.get C r.name m = .ok (.int (m.counter r)) := by
  apply (get_reserved _ _ _ r m).trans
  rcases hr with rfl | rfl <;> rfl

theorem get_counter_long (hr : r.IsCounter) :
    PropertyType.long.get C r.name m = .ok (.long ((m.counter r).signExtend 64)) := by
  apply (get_reserved _ _ _ r m).trans
  rcases hr with rfl | rfl <;> rfl

theorem get_counter_string (hr : r.IsCounter) :
    PropertyType.string.get C r.name m = .ok (.string (Integer.toString (m.counter r).toInt)) := by
  apply (get_reserved _ _ _ r m).trans
  rcases hr with rfl | rfl <;> rfl

/-- No reserved property can be read as a `short`, a `byte` or a `double`. -/
theorem get_reserved_refused {type : PropertyType} (htype : type = .short ∨ type = .byte ∨ type = .double) :
    type.get C r.name m = .error (ActiveMQMessageTemplate.catchGet cannotConvert) := by
  rcases htype with rfl | rfl | rfl <;> exact get_reserved _ _ _ r m

theorem stored_agrees_iff (hr : r.IsCounter) (hm : m.Agrees) {m' : PropertyMessage} (h : m.Untouched r.name m')
    {node : PrimitiveValueNode} (hnode : m'.properties.find r.name = some node) :
    m'.Agrees ↔ numberOf node = some (m'.counter r).toInt := by
  rw [agrees_iff_of_untouched hm h, hnode]
  constructor
  · intro hself
    exact (matches_counter hr node).mp (hself node rfl)
  · intro hnumber node' hnode'
    cases hnode'
    exact (matches_counter hr node).mpr hnumber

/-- A counter keeps the law with a `long` it has already, with a text that is a numeral in the form it is written in,
and with every `int`. -/
theorem PropertySet.faithful_counter_iff (hr : r.IsCounter) (hm : m.Agrees) (hreadOnly : m.readOnlyProperties = false)
    (value : PropertyValue) :
    (PropertySet.mk r.name value).Faithful C m ↔ PropertySet.Countable (m.counter r) value := by
  have hname : r.name ≠ [] := r.name_ne_nil
  have hstored : ∀ {value : PropertyValue} {m' : PropertyMessage} {node : PrimitiveValueNode},
      value.intercepted r.name m = .ok () m' → m'.properties.find r.name = some node →
      ((PropertySet.mk r.name value).Faithful C m ↔
        value.type.get C r.name m' = .ok value ∧ numberOf node = some (m'.counter r).toInt) := by
    intro value m' node h hnode
    have huntouched : m.Untouched r.name m' := by
      have hmoves := value.moves_intercepted r.name m
      rwa [h] at hmoves
    rw [faithful_iff_of_stored C hname hreadOnly h, stored_agrees_iff hr hm huntouched hnode]
  cases value with
  | int value =>
    rw [hstored (intercepted_int hr value) (find_stored _ _ _), PropertyValue.type, get_counter_int C hr,
      counter_stored hr]
    exact iff_of_true ⟨rfl, rfl⟩ trivial
  | short value =>
    rw [hstored (intercepted_short hr value) (find_stored _ _ _), PropertyValue.type,
      get_reserved_refused C (.inl rfl)]
    exact iff_of_false (fun h => by cases h.1) id
  | long value =>
    have hcounter : (m.stored r.name (.long value)).counter r = m.counter r := by rcases hr with rfl | rfl <;> rfl
    rw [hstored (intercepted_long hr value) (find_stored _ _ _), PropertyValue.type, get_counter_long C hr, hcounter]
    constructor
    · rintro ⟨hget, -⟩
      injection hget with hget
      injection hget with hget
      exact hget.symm
    · rintro rfl
      refine ⟨rfl, congrArg some ?_⟩
      exact BitVec.toInt_signExtend_of_le (by decide)
  | string text =>
    cases hparse : Integer.parseInt text with
    | error e =>
      refine iff_of_true (faithful_of_refused C hname hreadOnly (intercepted_string_error hr hparse)) ?_
      intro n hn
      rw [hparse] at hn
      cases hn
    | ok n =>
      have hrange := Integer.parseInt_range hparse
      have hback : (BitVec.ofInt 32 n).toInt = n := by
        rw [BitVec.toInt_ofInt, Int.bmod_eq_of_le (by norm_num; omega) (by norm_num; omega)]
      rw [hstored (intercepted_string_ok hr hparse) (find_stored _ _ _), PropertyValue.type, get_counter_string C hr,
        counter_stored hr, hback, numberOf, hparse]
      constructor
      · rintro ⟨hget, -⟩ n' hn'
        cases hparse.symm.trans hn'
        injection hget with hget
        injection hget
      · intro htext
        exact ⟨by rw [htext n hparse], rfl⟩
  | _ =>
    refine iff_of_true (faithful_of_refuses C hreadOnly ?_) trivial
    rcases hr with rfl | rfl <;> rfl

end Counter

namespace PropertySet

variable (C : FloatConversions) {m : PropertyMessage}

theorem faithful_reserved_iff {r : ReservedProperty} {value : PropertyValue} {m' : PropertyMessage} (hm : m.Agrees)
    (hreadOnly : m.readOnlyProperties = false) (h : value.intercepted r.name m = .ok () m') :
    (PropertySet.mk r.name value).Faithful C m ↔ value.type.get C r.name m' = .ok value ∧
      ∀ node, m'.properties.find r.name = some node → r.Matches m' node := by
  have huntouched : m.Untouched r.name m' := by
    have hmoves := value.moves_intercepted r.name m
    rwa [h] at hmoves
  rw [faithful_iff_of_stored C r.name_ne_nil hreadOnly h, agrees_iff_of_untouched hm huntouched]

theorem faithful_groupID_iff (hm : m.Agrees) (hreadOnly : m.readOnlyProperties = false) (value : PropertyValue) :
    (PropertySet.mk groupID.name value).Faithful C m ↔ value.type ≠ .long := by
  cases value with
  | string text =>
    have hrun : (PropertyValue.string text).intercepted groupID.name m
        = .ok () (({ m with groupID := text }).stored groupID.name (.string text)) := by
      rw [PropertyValue.intercepted, setStringProperty, MessagePropertyInterceptor.setProperty_reserved]
      rfl
    rw [faithful_reserved_iff C hm hreadOnly hrun]
    have hget : ∀ m' : PropertyMessage, PropertyType.string.get C groupID.name m'
        = .ok (.string m'.groupID) := by
      intro m'
      rw [PropertyType.get, ActiveMQMessageTemplate.getStringProperty, getStringProperty, get_reserved]
    refine iff_of_true ⟨hget _, ?_⟩ (by simp [PropertyValue.type])
    intro node hnode
    rw [find_stored] at hnode
    cases hnode
    rfl
  | long value =>
    have hrun : (PropertyValue.long value).intercepted groupID.name m
        = .ok () (m.stored groupID.name (.long value)) := by
      rw [PropertyValue.intercepted, setLongProperty, MessagePropertyInterceptor.setProperty_reserved]
      rfl
    rw [faithful_reserved_iff C hm hreadOnly hrun]
    refine iff_of_false ?_ (fun h => h rfl)
    rintro ⟨hget, -⟩
    rw [PropertyValue.type, PropertyType.get, ActiveMQMessageTemplate.getLongProperty, getLongProperty,
      get_reserved] at hget
    cases hget
  | _ => exact iff_of_true (faithful_of_refuses C hreadOnly rfl) (by simp [PropertyValue.type])

theorem toString_parseBoolean_eq_iff {text : ByteString} :
    Boolean.toString (Boolean.parseBoolean text) = text ↔ text = ascii "true" ∨ text = ascii "false" := by
  constructor
  · intro h
    cases hflag : Boolean.parseBoolean text with
    | true => exact .inl (by rw [← h, hflag]; rfl)
    | false => exact .inr (by rw [← h, hflag]; rfl)
  · rintro (rfl | rfl)
    · exact congrArg Boolean.toString (Boolean.parseBoolean_toString true)
    · exact congrArg Boolean.toString (Boolean.parseBoolean_toString false)

theorem intercepted_flag_boolean (value : Bool) (m : PropertyMessage) :
    (PropertyValue.boolean value).intercepted groupFirstForConsumer.name m =
      .ok () { m with jMSXGroupFirstForConsumer := value } := by
  rw [PropertyValue.intercepted, setBooleanProperty, ofName?_name]
  rfl

theorem intercepted_flag_string (text : ByteString) (m : PropertyMessage) :
    (PropertyValue.string text).intercepted groupFirstForConsumer.name m =
      .ok () (({ m with jMSXGroupFirstForConsumer := Boolean.parseBoolean text }).stored
        groupFirstForConsumer.name (.string text)) := by
  rw [PropertyValue.intercepted, setStringProperty, MessagePropertyInterceptor.setProperty_reserved]
  rfl

theorem faithful_flag_iff (hm : m.Agrees) (hreadOnly : m.readOnlyProperties = false) (value : PropertyValue) :
    (PropertySet.mk groupFirstForConsumer.name value).Faithful C m ↔ Flaggable m value := by
  cases value with
  | boolean value =>
    have hget : PropertyType.boolean.get C groupFirstForConsumer.name
        { m with jMSXGroupFirstForConsumer := value } = .ok (.boolean value) := by
      rw [PropertyType.get, ActiveMQMessageTemplate.getBooleanProperty, getBooleanProperty, get_reserved]
    rw [faithful_reserved_iff C hm hreadOnly (intercepted_flag_boolean value m), PropertyValue.type, hget]
    show _ ∧ (∀ node, m.properties.find groupFirstForConsumer.name = some node → flagOf node = some value)
      ↔ m.properties.find groupFirstForConsumer.name = none ∨ value = m.jMSXGroupFirstForConsumer
    have hold := hm .groupFirstForConsumer
    cases hentry : m.properties.find groupFirstForConsumer.name with
    | none => exact iff_of_true ⟨rfl, nofun⟩ (.inl rfl)
    | some node =>
      have hflag : flagOf node = some m.jMSXGroupFirstForConsumer := hold node hentry
      constructor
      · rintro ⟨-, hself⟩
        exact .inr (Option.some.inj ((hself node rfl).symm.trans hflag))
      · rintro (hnone | rfl)
        · cases hnone
        · refine ⟨rfl, ?_⟩
          rintro node' ⟨⟩
          exact hflag
  | string text =>
    have hget : ∀ m' : PropertyMessage, PropertyType.string.get C groupFirstForConsumer.name m'
        = .ok (.string (Boolean.toString m'.jMSXGroupFirstForConsumer)) := by
      intro m'
      rw [PropertyType.get, ActiveMQMessageTemplate.getStringProperty, getStringProperty, get_reserved]
    rw [faithful_reserved_iff C hm hreadOnly (intercepted_flag_string text m), PropertyValue.type, hget]
    refine Iff.trans ?_ toString_parseBoolean_eq_iff
    constructor
    · rintro ⟨hback, -⟩
      injection hback with hback
      injection hback
    · intro hback
      refine ⟨congrArg (fun text => Except.ok (PropertyValue.string text)) hback, ?_⟩
      intro node hnode
      rw [find_stored] at hnode
      cases hnode
      rfl
  | byte value =>
    have hrun : (PropertyValue.byte value).intercepted groupFirstForConsumer.name m
        = .ok () (m.stored groupFirstForConsumer.name (.byte value)) := by
      rw [PropertyValue.intercepted, setByteProperty, MessagePropertyInterceptor.setProperty_reserved]
      rfl
    rw [faithful_reserved_iff C hm hreadOnly hrun, PropertyValue.type, get_reserved_refused C (.inr (.inl rfl))]
    exact iff_of_false (fun h => by cases h.1) id
  | double bits =>
    have hrun : (PropertyValue.double bits).intercepted groupFirstForConsumer.name m
        = .ok () (m.stored groupFirstForConsumer.name (.double bits)) := by
      rw [PropertyValue.intercepted, setDoubleProperty, MessagePropertyInterceptor.setProperty_reserved]
      rfl
    rw [faithful_reserved_iff C hm hreadOnly hrun, PropertyValue.type, get_reserved_refused C (.inr (.inr rfl))]
    exact iff_of_false (fun h => by cases h.1) id
  | _ => exact iff_of_true (faithful_of_refuses C hreadOnly rfl) trivial

/-! ### Sequences of sets -/

theorem faithful_iff (hm : m.Agrees) (call : PropertySet) : call.Faithful C m ↔ call.Settable m := by
  rcases call.value.set_cases call.name m with ⟨hrefused, e, herror⟩ | ⟨hname, hreadOnly, -⟩
  · exact iff_of_true (faithful_of_error C herror) (or_assoc.mp (.inl hrefused))
  · have hreserved : call.Settable m ↔ _ :=
      (or_iff_right hname).trans (or_iff_right (by rw [hreadOnly]; exact Bool.false_ne_true))
    rw [hreserved]
    obtain ⟨name, value⟩ := call
    dsimp only at hname ⊢
    cases hofName : ofName? name with
    | none => exact iff_of_true (faithful_of_not_reserved C hm hname hreadOnly hofName) trivial
    | some r =>
      obtain rfl := ofName?_eq_some.mp hofName
      cases r with
      | deliveryCount => exact faithful_counter_iff C (.inl rfl) hm hreadOnly value
      | groupID => exact faithful_groupID_iff C hm hreadOnly value
      | groupSeq => exact faithful_counter_iff C (.inr rfl) hm hreadOnly value
      | groupFirstForConsumer => exact faithful_flag_iff C hm hreadOnly value

theorem Faithful.agrees {C : FloatConversions} {call : PropertySet} (hm : m.Agrees) (h : call.Faithful C m) :
    (stateOf (call.value.set call.name m)).Agrees := by
  unfold Faithful at h
  cases hset : call.value.set call.name m with
  | ok u m' =>
    rw [hset] at h
    exact h.2.2
  | error e m' =>
    rw [hset] at h
    rw [h]
    exact hm

/-- From a message that agrees with its map, exactly the settable properties are read back as they were set, leave all
others alone and keep the message and the map agreeing, in any sequence of sets. -/
theorem sets_faithful_iff (hm : m.Agrees) (calls : List PropertySet) :
    Runs.Always step (fun m call => call.Faithful C m) m calls ↔ Runs.Always step (fun m call => call.Settable m) m calls := by
  have hiff : ∀ m call, PropertyMessage.Agrees m → (Faithful C m call ↔ Settable m call) :=
    fun m call hm => faithful_iff C hm call
  refine Runs.always_congr hiff ?_ hm calls
  intro m call m' hm hsettable hstep
  cases hstep
  exact ((faithful_iff C hm call).mpr hsettable).agrees hm

end PropertySet

/-- Conversions that no set and no read of an integer or a text uses. -/
def noFloatConversions : FloatConversions where
  parseFloat _ := .error .undefined
  parseDouble _ := .error .undefined
  floatToString _ := []
  doubleToString _ := []
  floatToDouble _ := 0

theorem PropertyMessage.agrees_new : ({} : PropertyMessage).Agrees := nofun

open PropertySet in
/-- A group, a count and a property that is not reserved. -/
theorem sets_faithful_group : Runs.Always step (fun m call => call.Faithful noFloatConversions m) {}
    [⟨ReservedProperty.groupID.name, .string [103]⟩, ⟨ReservedProperty.groupSeq.name, .int 7⟩, ⟨[97], .long 5⟩] := by
  refine (sets_faithful_iff noFloatConversions PropertyMessage.agrees_new _).mpr (Runs.Always.of_forall ?_ _)
  intro m call hcall
  refine .inr (.inr ?_)
  simp only [List.mem_cons, List.not_mem_nil, or_false] at hcall
  rcases hcall with rfl | rfl | rfl
  · rw [ReservedProperty.ofName?_name]
    simp [PropertyValue.type]
  · rw [ReservedProperty.ofName?_name]
    trivial
  · rw [show ReservedProperty.ofName? [97] = none by decide +kernel]
    trivial

/-- A `long` is set and read back as 0, and the map holds it; a `short` is set and cannot be read; a flag that is set
leaves another one in the map. -/
theorem reserved_values_disagree :
    (∃ m, (PropertyValue.long 5).set ReservedProperty.deliveryCount.name {} = .ok () m ∧
      PropertyType.long.get noFloatConversions ReservedProperty.deliveryCount.name m = .ok (.long 0) ∧ ¬ m.Agrees) ∧
    (∃ m e, (PropertyValue.short 5).set ReservedProperty.groupSeq.name {} = .ok () m ∧
      PropertyType.short.get noFloatConversions ReservedProperty.groupSeq.name m = .error e) ∧
    (∃ m m', (PropertyValue.string (ascii "true")).set ReservedProperty.groupFirstForConsumer.name {} = .ok () m ∧
      (PropertyValue.boolean false).set ReservedProperty.groupFirstForConsumer.name m = .ok () m' ∧ ¬ m'.Agrees) := by
  refine ⟨⟨_, PropertyValue.set_reserved rfl (intercepted_long (.inl rfl) 5), get_counter_long _ (.inl rfl), ?_⟩,
    ⟨_, _, PropertyValue.set_reserved rfl (intercepted_short (.inr rfl) 5), get_reserved_refused _ (.inl rfl)⟩,
    ⟨_, _, PropertyValue.set_reserved rfl (PropertySet.intercepted_flag_string _ _),
      PropertyValue.set_reserved rfl (PropertySet.intercepted_flag_boolean _ _), ?_⟩⟩
  · intro hagrees
    have hmatches := hagrees .deliveryCount _ (find_stored _ _ _)
    exact absurd (Option.some.inj hmatches) (by decide)
  · intro hagrees
    have hmatches := hagrees .groupFirstForConsumer _ (find_stored _ _ _)
    have htrue : Boolean.parseBoolean (ascii "true") = true := Boolean.parseBoolean_toString true
    have hfalse := Option.some.inj hmatches
    rw [htrue] at hfalse
    cases hfalse

end ActiveMQCpp.Commands
