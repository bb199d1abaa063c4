import ActiveMQCpp.UtilPrimitiveMap

/-! The properties of a message. `MessagePropertyInterceptor` keeps the reserved ones in fields of the message, and each
of its setters and getters has a list of its own of the reserved names it takes. -/

namespace ActiveMQCpp.Commands

open Codec MachineInt Decaf Wire Util

/-- The fields of `Message` that its properties depend on. -/
structure PropertyMessage where
  redeliveryCounter : BitVec 32 := 0
  groupID : ByteString := []
  groupSequence : BitVec 32 := 0
  jMSXGroupFirstForConsumer : Bool := false
  properties : PrimitiveMap := OrderedMap.empty
  readOnlyProperties : Bool := false

namespace PropertyMessage

abbrev Setter := EStateM Failure PropertyMessage Unit

def setRedeliveryCounter (value : BitVec 32) : Setter := modify fun m => { m with redeliveryCounter := value }

def setGroupID (value : ByteString) : Setter := modify fun m => { m with groupID := value }

def setGroupSequence (value : BitVec 32) : Setter := modify fun m => { m with groupSequence := value }

def setJMSXGroupFirstForConsumer (value : Bool) : Setter :=
  modify fun m => { m with jMSXGroupFirstForConsumer := value }

end PropertyMessage

open PropertyMessage

inductive ReservedProperty where
  | deliveryCount
  | groupID
  | groupSeq
  | groupFirstForConsumer
  deriving DecidableEq

namespace ReservedProperty

def name : ReservedProperty → ByteString
  | deliveryCount => ascii "JMSXDeliveryCount"
  | groupID => ascii "JMSXGroupID"
  | groupSeq => ascii "JMSXGroupSeq"
  | groupFirstForConsumer => ascii "JMSXGroupFirstForConsumer"

/-- The comparisons of a name with the reserved ones. -/
def ofName? (name : ByteString) : Option ReservedProperty :=
  [deliveryCount, groupID, groupSeq, groupFirstForConsumer].find? fun reserved => reserved.name = name

theorem ofName?_name (reserved : ReservedProperty) : ofName? reserved.name = some reserved := by
  cases reserved <;> decide +kernel

theorem name_ne_nil (reserved : ReservedProperty) : reserved.name ≠ [] := by
  cases reserved <;> decide +kernel

theorem ofName?_eq_some {name : ByteString} {reserved : ReservedProperty} :
    ofName? name = some reserved ↔ reserved.name = name := by
  constructor
  · intro h
    unfold ofName? at h
    have hname := List.find?_some h
    exact of_decide_eq_true hname
  · rintro rfl
    exact ofName?_name reserved

theorem name_injective : Function.Injective name := by
  intro r r' h
  exact Option.some.inj ((ofName?_name r).symm.trans ((congrArg ofName? h).trans (ofName?_name r')))

end ReservedProperty

/-! ### `MessagePropertyInterceptor` -/

namespace MessagePropertyInterceptor

open ReservedProperty

/-- The interceptor throws an `ActiveMQException`, an `Exception` with another name. -/
def cannotConvert : Failure := .thrown .exception "Cannot Convert Reserved Property to this Type."

/-- The getters: what is reserved is a field of the message, or refused where `field` has none. -/
def getProperty {α : Type} (field : ReservedProperty → Option (PropertyMessage → α))
    (read : ByteString → PrimitiveMap → Except Failure α) (name : ByteString) (message : PropertyMessage) :
    Except Failure α :=
  match ofName? name with
  | some reserved =>
    match field reserved with
    | some value => .ok (value message)
    | none => .error cannotConvert
  | none => read name message.properties

def getBooleanProperty : ByteString → PropertyMessage → Except Failure Bool :=
  getProperty (fun
    | .groupFirstForConsumer => some jMSXGroupFirstForConsumer
    | _ => none) PrimitiveMap.getBool

def getByteProperty : ByteString → PropertyMessage → Except Failure UInt8 :=
  getProperty (fun _ => none) PrimitiveMap.getByte

def getDoubleProperty (C : FloatConversions) : ByteString → PropertyMessage → Except Failure (BitVec 64) :=
  getProperty (fun _ => none) (PrimitiveMap.getDouble C)

def getFloatProperty (C : FloatConversions) : ByteString → PropertyMessage → Except Failure (BitVec 32) :=
  getProperty (fun _ => none) (PrimitiveMap.getFloat C)

def getIntProperty : ByteString → PropertyMessage → Except Failure (BitVec 32) :=
  getProperty (fun
    | .deliveryCount => some redeliveryCounter
    | .groupSeq => some groupSequence
    | _ => none) PrimitiveMap.getInt

def getLongProperty : ByteString → PropertyMessage → Except Failure (BitVec 64) :=
  getProperty (fun
    | .deliveryCount => some fun message => message.redeliveryCounter.signExtend 64
    | .groupSeq => some fun message => message.groupSequence.signExtend 64
    | _ => none) PrimitiveMap.getLong

def getShortProperty : ByteString → PropertyMessage → Except Failure (BitVec 16) :=
  getProperty (fun _ => none) PrimitiveMap.getShort

def getStringProperty (C : FloatConversions) : ByteString → PropertyMessage → Except Failure ByteString :=
  getProperty (fun
    | .deliveryCount => some fun message => Integer.toString message.redeliveryCounter.toInt
    | .groupID => some PropertyMessage.groupID
    | .groupSeq => some fun message => Integer.toString message.groupSequence.toInt
    | .groupFirstForConsumer => some fun message => Boolean.toString message.jMSXGroupFirstForConsumer)
    (PrimitiveMap.getString C)

def store (write : PrimitiveMap → PrimitiveMap) : Setter := modify fun m => { m with properties := write m.properties }

/-- The setters: some reserved names are refused, some are set in the message, and every value goes to the map too. -/
def setProperty (refused : List ReservedProperty) (intercept : ReservedProperty → Setter)
    (write : PrimitiveMap → PrimitiveMap) (name : ByteString) : Setter :=
  match ofName? name with
  | some reserved => do
    if reserved ∈ refused then throw cannotConvert
    else
      intercept reserved
      store write
  | none => store write

/-- The one setter that leaves the map alone when it sets a field. -/
def setBooleanProperty (name : ByteString) (value : Bool) : Setter :=
  match ofName? name with
  | some .groupFirstForConsumer => setJMSXGroupFirstForConsumer value
  | some _ => throw cannotConvert
  | none => store (PrimitiveMap.setBool name · value)

def setByteProperty (name : ByteString) (value : UInt8) : Setter :=
  setProperty [.deliveryCount, .groupID, .groupSeq] (fun _ => pure ()) (PrimitiveMap.setByte name · value) name

def setDoubleProperty (name : ByteString) (value : BitVec 64) : Setter :=
  setProperty [.deliveryCount, .groupID, .groupSeq] (fun _ => pure ()) (PrimitiveMap.setDouble name · value) name

def setFloatProperty (name : ByteString) (value : BitVec 32) : Setter :=
  setProperty [.deliveryCount, .groupID, .groupSeq, .groupFirstForConsumer] (fun _ => pure ())
    (PrimitiveMap.setFloat name · value) name

def setIntProperty (name : ByteString) (value : BitVec 32) : Setter :=
  setProperty [.groupID, .groupFirstForConsumer] (fun
    | .deliveryCount => setRedeliveryCounter value
    | .groupSeq => setGroupSequence value
    | _ => pure ()) (PrimitiveMap.setInt name · value) name

def setLongProperty (name : ByteString) (value : BitVec 64) : Setter :=
  setProperty [.groupFirstForConsumer] (fun _ => pure ()) (PrimitiveMap.setLong name · value) name

def setShortProperty (name : ByteString) (value : BitVec 16) : Setter :=
  setProperty [.groupID, .groupFirstForConsumer] (fun
    | .deliveryCount => setRedeliveryCounter (value.signExtend 32)
    | .groupSeq => setGroupSequence (value.signExtend 32)
    | _ => pure ()) (PrimitiveMap.setShort name · value) name

/-- `Integer::parseInt`, before the field is set to what it returns. -/
def parsed (value : ByteString) (set : BitVec 32 → Setter) : Setter :=
  match Integer.parseInt value with
  | .ok n => set (BitVec.ofInt 32 n)
  | .error e => throw e

def setStringProperty (name value : ByteString) : Setter :=
  setProperty [] (fun
    | .groupID => setGroupID value
    | .deliveryCount => parsed value setRedeliveryCounter
    | .groupSeq => parsed value setGroupSequence
    | .groupFirstForConsumer => setJMSXGroupFirstForConsumer (Boolean.parseBoolean value))
    (PrimitiveMap.setString name · value) name

end MessagePropertyInterceptor

/-! ### `ActiveMQMessageTemplate` -/

namespace ActiveMQMessageTemplate

/-- The `catch` clauses of the getters. -/
def catchGet : Failure → Failure
  | .thrown .unsupportedOperationException message => .thrown (.cms .messageFormatException) message
  | e => catchAllThrowCMSException e

def getBooleanProperty (name : ByteString) (message : PropertyMessage) : Except Failure Bool :=
  Except.mapError catchGet (MessagePropertyInterceptor.getBooleanProperty name message)

def getByteProperty (name : ByteString) (message : PropertyMessage) : Except Failure UInt8 :=
  Except.mapError catchGet (MessagePropertyInterceptor.getByteProperty name message)

def getDoubleProperty (C : FloatConversions) (name : ByteString) (message : PropertyMessage) :
    Except Failure (BitVec 64) :=
  Except.mapError catchGet (MessagePropertyInterceptor.getDoubleProperty C name message)

def getFloatProperty (C : FloatConversions) (name : ByteString) (message : PropertyMessage) :
    Except Failure (BitVec 32) :=
  Except.mapError catchGet (MessagePropertyInterceptor.getFloatProperty C name message)

def getIntProperty (name : ByteString) (message : PropertyMessage) : Except Failure (BitVec 32) :=
  Except.mapError catchGet (MessagePropertyInterceptor.getIntProperty name message)

def getLongProperty (name : ByteString) (message : PropertyMessage) : Except Failure (BitVec 64) :=
  Except.mapError catchGet (MessagePropertyInterceptor.getLongProperty name message)

def getShortProperty (name : ByteString) (message : PropertyMessage) : Except Failure (BitVec 16) :=
  Except.mapError catchGet (MessagePropertyInterceptor.getShortProperty name message)

def getStringProperty (C : FloatConversions) (name : ByteString) (message : PropertyMessage) :
    Except Failure ByteString :=
  Except.mapError catchGet (MessagePropertyInterceptor.getStringProperty C name message)

def emptyName : Failure := .thrown (.cms .cmsException) "Message Property names must not be empty"

def readOnly : Failure := .thrown (.cms .messageNotWriteableException) "Message Properties are Read-Only."

def failIfReadOnlyProperties : Setter := do
  if (← get).readOnlyProperties then throw readOnly

/-- What all setters check before they call the interceptor. -/
def setProperty (name : ByteString) (intercepted : Setter) : Setter := do
  if name = [] then throw emptyName
  failIfReadOnlyProperties
  mapError catchAllThrowCMSException intercepted

def setBooleanProperty (name : ByteString) (value : Bool) : Setter :=
  setProperty name (MessagePropertyInterceptor.setBooleanProperty name value)

def setByteProperty (name : ByteString) (value : UInt8) : Setter :=
  setProperty name (MessagePropertyInterceptor.setByteProperty name value)

def setDoubleProperty (name : ByteString) (value : BitVec 64) : Setter :=
  setProperty name (MessagePropertyInterceptor.setDoubleProperty name value)

def setFloatProperty (name : ByteString) (value : BitVec 32) : Setter :=
  setProperty name (MessagePropertyInterceptor.setFloatProperty name value)

def setIntProperty (name : ByteString) (value : BitVec 32) : Setter :=
  setProperty name (MessagePropertyInterceptor.setIntProperty name value)

def setLongProperty (name : ByteString) (value : BitVec 64) : Setter :=
  setProperty name (MessagePropertyInterceptor.setLongProperty name value)

def setShortProperty (name : ByteString) (value : BitVec 16) : Setter :=
  setProperty name (MessagePropertyInterceptor.setShortProperty name value)

def setStringProperty (name value : ByteString) : Setter :=
  setProperty name (MessagePropertyInterceptor.setStringProperty name value)

end ActiveMQMessageTemplate

end ActiveMQCpp.Commands
