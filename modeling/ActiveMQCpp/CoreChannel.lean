import Mathlib.Data.Fintype.Basic
import Mathlib.Tactic.FinCases

/-! Dispatched messages and the channels in which a consumer keeps those it has not consumed. -/

namespace ActiveMQCpp.Core

structure Message (μ : Type) where
  messageId : μ
  brokerSequenceId : Int := 0
  priority : Nat := 4
  redeliveryCounter : Int := 0
  hasRedeliveryDelay : Bool := false

/-- A dispatch is told from others by `ref`, as an object is by its address. Its own redelivery counter is what
the broker has set, and is not the one of its message. -/
structure MessageDispatch (μ : Type) where
  ref : Nat
  message : Message μ
  redeliveryCounter : Int := 0
  rollbackCause : String := ""

variable {μ : Type}

/-- The redelivery counter of a message, once more than before. -/
def Message.redelivered (message : Message μ) : Message μ :=
  { message with redeliveryCounter := message.redeliveryCounter + 1 }

def MessageDispatch.redelivered (dispatch : MessageDispatch μ) : MessageDispatch μ :=
  { dispatch with message := dispatch.message.redelivered }

/-! ### Channels -/

/-- What a channel holds: `FifoMessageDispatchChannel` has one list, `SimplePriorityMessageDispatchChannel` has
one for each priority. -/
inductive Channels (μ : Type) where
  | fifo (channel : List (MessageDispatch μ))
  | priority (channels : Fin 10 → List (MessageDispatch μ))

structure MessageDispatchChannel (μ : Type) where
  closed : Bool := false
  running : Bool := false
  held : Channels μ := .fifo []

def getChannel (dispatch : MessageDispatch μ) : Fin 10 :=
  ⟨min dispatch.message.priority 9, by omega⟩

def enqueue (dispatch : MessageDispatch μ) (c : MessageDispatchChannel μ) : MessageDispatchChannel μ :=
  match c.held with
  | .fifo channel => { c with held := .fifo (channel ++ [dispatch]) }
  | .priority channels =>
    { c with held := .priority (Function.update channels (getChannel dispatch)
        (channels (getChannel dispatch) ++ [dispatch])) }

def enqueueFirst (dispatch : MessageDispatch μ) (c : MessageDispatchChannel μ) : MessageDispatchChannel μ :=
  match c.held with
  | .fifo channel => { c with held := .fifo (dispatch :: channel) }
  | .priority channels =>
    { c with held := .priority (Function.update channels (getChannel dispatch)
        (dispatch :: channels (getChannel dispatch))) }

def MessageDispatchChannel.start (c : MessageDispatchChannel μ) : MessageDispatchChannel μ :=
  if c.closed then c else { c with running := true }

theorem start_held (c : MessageDispatchChannel μ) : c.start.held = c.held := by
  rw [MessageDispatchChannel.start]
  split_ifs <;> rfl

def MessageDispatchChannel.stop (c : MessageDispatchChannel μ) : MessageDispatchChannel μ :=
  { c with running := false }

/-- The messages in the order in which they are removed, the highest priority first. -/
def Channels.messages : Channels μ → List (MessageDispatch μ)
  | .fifo channel => channel
  | .priority channels => (List.finRange 10).reverse.flatMap channels

def Channels.clear : Channels μ → Channels μ
  | .fifo _ => .fifo []
  | .priority _ => .priority fun _ => []

def removeAll (c : MessageDispatchChannel μ) : List (MessageDispatch μ) × MessageDispatchChannel μ :=
  (c.held.messages, { c with held := c.held.clear })

/-! ### Messages that come back -/

/-- Messages ahead of those in the channel, the first of them in front; in a priority channel each of them is
ahead of the messages of its own priority. -/
def putBack (messages : List (MessageDispatch μ)) : Channels μ → Channels μ
  | .fifo channel => .fifo (messages ++ channel)
  | .priority channels => .priority fun i => messages.filter (fun d => getChannel d = i) ++ channels i

theorem enqueueFirst_eq (d : MessageDispatch μ) (c : MessageDispatchChannel μ) :
    enqueueFirst d c = { c with held := putBack [d] c.held } := by
  rw [enqueueFirst]
  cases c.held with
  | fifo channel => rfl
  | priority channels =>
    have hlanes : Function.update channels (getChannel d) (d :: channels (getChannel d))
        = fun i => [d].filter (fun e => getChannel e = i) ++ channels i := by
      funext i
      by_cases hi : getChannel d = i
      · subst hi
        simp
      · rw [Function.update_of_ne (Ne.symm hi)]
        simp [hi]
    simp only [putBack, hlanes]

theorem putBack_append (l l' : List (MessageDispatch μ)) (c : Channels μ) :
    putBack (l ++ l') c = putBack l (putBack l' c) := by
  cases c with
  | fifo channel => simp only [putBack, List.append_assoc]
  | priority channels => simp only [putBack, List.filter_append, List.append_assoc]

theorem putBack_nil (c : Channels μ) : putBack [] c = c := by
  cases c <;> rfl

theorem foldl_enqueueFirst (l : List (MessageDispatch μ)) (c : MessageDispatchChannel μ) :
    l.foldl (fun c d => enqueueFirst d c) c = { c with held := putBack l.reverse c.held } := by
  induction l generalizing c with
  | nil => rw [List.foldl_nil, List.reverse_nil, putBack_nil]
  | cons d l ih => rw [List.foldl_cons, ih, enqueueFirst_eq, List.reverse_cons, putBack_append]

theorem lane_perm (d : MessageDispatch μ) :
    ((List.finRange 10).reverse.flatMap fun i => if getChannel d = i then [d] else []) = [d] := by
  generalize getChannel d = k
  fin_cases k <;> rfl

theorem lanes_perm (l : List (MessageDispatch μ)) :
    ((List.finRange 10).reverse.flatMap fun i => l.filter fun d => getChannel d = i).Perm l := by
  induction l with
  | nil =>
    have hnil : ((List.finRange 10).reverse.flatMap fun i =>
        ([] : List (MessageDispatch μ)).filter fun d => getChannel d = i) = [] :=
      List.flatMap_eq_nil_iff.mpr fun _ _ => rfl
    rw [hnil]
  | cons d l ih =>
    have hcons : ∀ i, (d :: l).filter (fun e => getChannel e = i)
        = (if getChannel d = i then [d] else []) ++ l.filter fun e => getChannel e = i := by
      intro i
      by_cases hi : getChannel d = i <;> simp [hi]
    simp only [hcons]
    refine (List.flatMap_append_perm _ _ _).symm.trans ?_
    rw [lane_perm]
    exact ih.cons d

theorem putBack_messages (l : List (MessageDispatch μ)) (c : Channels μ) :
    (putBack l c).messages.Perm (l ++ c.messages) := by
  cases c with
  | fifo channel => exact .refl _
  | priority channels => exact (List.flatMap_append_perm _ _ _).symm.trans ((lanes_perm l).append_right _)

end ActiveMQCpp.Core
