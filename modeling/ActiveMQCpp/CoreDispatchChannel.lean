import ActiveMQCpp.CoreChannel
import ActiveMQCpp.LibLanes
import ActiveMQCpp.LibMachineInt
import ActiveMQCpp.LibRefinement

/-! `FifoMessageDispatchChannel` and `SimplePriorityMessageDispatchChannel`. They differ in what they keep the
messages in; the second has a list for each priority and counts the messages of all of them in `enqueued`. -/

namespace ActiveMQCpp.Core.Dispatch

open Lanes MachineInt Refinement Runs List

variable {σ τ δ : Type}

/-! ### What the channels share -/

/-- What a channel keeps its messages in. -/
structure Store (σ δ : Type) where
  addLast : δ → σ → σ
  addFirst : δ → σ → σ
  isEmpty : σ → Bool
  removeFirst : σ → Option δ × σ
  getFirst : σ → Option δ
  removeAll : σ → List δ × σ
  clear : σ → σ
  size : σ → Int

structure Channel (σ : Type) where
  closed : Bool := false
  running : Bool := false
  store : σ

inductive Op (δ : Type) where
  | enqueue (dispatch : δ)
  | enqueueFirst (dispatch : δ)
  | dequeue (timeout : Int)
  | dequeueNoWait
  | peek
  | removeAll
  | clear
  | start
  | stop
  | close

inductive Result (δ : Type) where
  | done
  | waits
  | one (dispatch : Option δ)
  | all (dispatches : List δ)
  deriving DecidableEq

/-- The result of a call, and what `size` and `isEmpty` say after it. -/
structure Answer (δ : Type) where
  result : Result δ
  size : Int
  isEmpty : Bool
  deriving DecidableEq

namespace Channel

variable (S : Store σ δ)

/-- `closed || !running || isEmpty()`. -/
def silent (c : Channel σ) : Bool := c.closed || !c.running || S.isEmpty c.store

def dequeueNoWait (c : Channel σ) : Option δ × Channel σ :=
  if c.silent S then (none, c)
  else ((S.removeFirst c.store).1, { c with store := (S.removeFirst c.store).2 })

/-- A call that blocks without limit does not leave its loop before the channel is closed or has something to
give; every other call leaves after at most one wait. -/
def dequeue (timeout : Int) (c : Channel σ) : Result δ × Channel σ :=
  if timeout = -1 ∧ c.closed = false ∧ (S.isEmpty c.store ∨ c.running = false) then (.waits, c)
  else (.one (c.dequeueNoWait S).1, (c.dequeueNoWait S).2)

def peek (c : Channel σ) : Option δ := if c.silent S then none else S.getFirst c.store

def perform (c : Channel σ) : Op δ → Result δ × Channel σ
  | .enqueue d => (.done, { c with store := S.addLast d c.store })
  | .enqueueFirst d => (.done, { c with store := S.addFirst d c.store })
  | .dequeue timeout => c.dequeue S timeout
  | .dequeueNoWait => (.one (c.dequeueNoWait S).1, (c.dequeueNoWait S).2)
  | .peek => (.one (c.peek S), c)
  | .removeAll => (.all (S.removeAll c.store).1, { c with store := (S.removeAll c.store).2 })
  | .clear => (.done, { c with store := S.clear c.store })
  | .start => (.done, if c.closed then c else { c with running := true })
  | .stop => (.done, { c with running := false })
  | .close => (.done, if c.closed then c else { c with running := false, closed := true })

def step (c : Channel σ) (op : Op δ) : Answer δ × Channel σ :=
  (⟨(c.perform S op).1, S.size (c.perform S op).2.store, S.isEmpty (c.perform S op).2.store⟩, (c.perform S op).2)

end Channel

/-! ### The two channels -/

/-- A single list, which is a `LinkedList`. -/
def fifo : Store (List δ) δ where
  addLast d channel := channel ++ [d]
  addFirst d channel := d :: channel
  isEmpty channel := channel.isEmpty
  removeFirst channel := (channel.head?, channel.tail)
  getFirst channel := channel.head?
  removeAll channel := (channel, [])
  clear _ := []
  size channel := toInt32 channel.length

structure Priorities (δ : Type) where
  channels : Fin 10 → List δ := fun _ => []
  enqueued : Int := 0

/-- `for (int i = MAX_PRIORITIES - 1; i >= 0; --i)`. -/
def descending : List (Fin 10) := (List.finRange 10).reverse

section

variable (priority : δ → Option UInt8)

/-- The priority of a dispatch without a message is `DEFAULT_MSG_PRIORITY`; the maximum with 0 is not used. -/
def getChannel (d : δ) : Fin 10 :=
  match priority d with
  | none => 4
  | some p => ⟨min p.toNat 9, by omega⟩

namespace Priorities

def addLast (d : δ) (s : Priorities δ) : Priorities δ :=
  { channels := Function.update s.channels (getChannel priority d) (s.channels (getChannel priority d) ++ [d])
    enqueued := toInt32 (s.enqueued + 1) }

def addFirst (d : δ) (s : Priorities δ) : Priorities δ :=
  { channels := Function.update s.channels (getChannel priority d) (d :: s.channels (getChannel priority d))
    enqueued := toInt32 (s.enqueued + 1) }

def highest (s : Priorities δ) : Option (Fin 10) := descending.find? fun i => !(s.channels i).isEmpty

def removeFirst (s : Priorities δ) : Option δ × Priorities δ :=
  if s.enqueued > 0 then
    match s.highest with
    | none => (none, s)
    | some i =>
      ((s.channels i).head?,
        { channels := Function.update s.channels i (s.channels i).tail, enqueued := toInt32 (s.enqueued - 1) })
  else (none, s)

def getFirst (s : Priorities δ) : Option δ :=
  if s.enqueued > 0 then s.highest.bind fun i => (s.channels i).head? else none

def takeChannel (acc : List δ × Priorities δ) (i : Fin 10) : List δ × Priorities δ :=
  (acc.1 ++ acc.2.channels i,
    { channels := Function.update acc.2.channels i []
      enqueued := toInt32 (acc.2.enqueued - toInt32 (acc.2.channels i).length) })

def removeAll (s : Priorities δ) : List δ × Priorities δ := descending.foldl takeChannel ([], s)

/-- The lists are cleared; the counter is not. -/
def clear (s : Priorities δ) : Priorities δ := { s with channels := fun _ => [] }

def messages (s : Priorities δ) : List δ := gather descending s.channels

end Priorities

def simplePriority : Store (Priorities δ) δ where
  addLast := Priorities.addLast priority
  addFirst := Priorities.addFirst priority
  isEmpty s := s.enqueued = 0
  removeFirst := Priorities.removeFirst
  getFirst := Priorities.getFirst
  removeAll := Priorities.removeAll
  clear := Priorities.clear
  size s := s.enqueued

end

/-! ### The queue they stand for -/

def queue {κ : Type} [LinearOrder κ] (key : δ → κ) : Store (List δ) δ where
  addLast := insertLast key
  addFirst := insertFirst key
  isEmpty l := l.isEmpty
  removeFirst l := (l.head?, l.tail)
  getFirst l := l.head?
  removeAll l := (l, [])
  clear _ := []
  size l := l.length

/-! ### One store in place of another -/

/-- Related stores do the same, as long as a message is added only where it fits and only an empty store is
cleared. -/
structure Simulates (S : Store σ δ) (T : Store τ δ) (rel : σ → τ → Prop) (fits : σ → δ → Prop) : Prop where
  size {s t} (h : rel s t) : S.size s = T.size t
  isEmpty {s t} (h : rel s t) : S.isEmpty s = T.isEmpty t
  addLast {s t d} (h : rel s t) (hfits : fits s d) : rel (S.addLast d s) (T.addLast d t)
  addFirst {s t d} (h : rel s t) (hfits : fits s d) : rel (S.addFirst d s) (T.addFirst d t)
  removeFirst {s t} (h : rel s t) (hsome : S.isEmpty s = false) :
    (S.removeFirst s).1 = (T.removeFirst t).1 ∧ rel (S.removeFirst s).2 (T.removeFirst t).2
  getFirst {s t} (h : rel s t) (hsome : S.isEmpty s = false) : S.getFirst s = T.getFirst t
  removeAll {s t} (h : rel s t) : (S.removeAll s).1 = (T.removeAll t).1 ∧ rel (S.removeAll s).2 (T.removeAll t).2
  clear {s t} (h : rel s t) (hnone : S.isEmpty s = true) : rel (S.clear s) (T.clear t)

/-- The operation adds only what fits and clears only what is empty. -/
def Channel.Permits (S : Store σ δ) (fits : σ → δ → Prop) (c : Channel σ) : Op δ → Prop
  | .enqueue d => fits c.store d
  | .enqueueFirst d => fits c.store d
  | .clear => S.isEmpty c.store = true
  | _ => True

structure Channel.Related (rel : σ → τ → Prop) (c : Channel σ) (c' : Channel τ) : Prop where
  closed : c.closed = c'.closed
  running : c.running = c'.running
  store : rel c.store c'.store

namespace Simulates

variable {S : Store σ δ} {T : Store τ δ} {rel : σ → τ → Prop} {fits : σ → δ → Prop} {c : Channel σ} {c' : Channel τ}

theorem silent (hST : Simulates S T rel fits) (h : Channel.Related rel c c') : c.silent S = c'.silent T := by
  rw [Channel.silent, Channel.silent, h.closed, h.running, hST.isEmpty h.store]

theorem dequeueNoWait (hST : Simulates S T rel fits) (h : Channel.Related rel c c') :
    (c.dequeueNoWait S).1 = (c'.dequeueNoWait T).1 ∧
      Channel.Related rel (c.dequeueNoWait S).2 (c'.dequeueNoWait T).2 := by
  rw [Channel.dequeueNoWait, Channel.dequeueNoWait, hST.silent h]
  cases hsilent : c'.silent T with
  | true => exact ⟨rfl, h⟩
  | false =>
    have hsome : S.isEmpty c.store = false := by
      rw [← hST.silent h, Channel.silent, Bool.or_eq_false_iff] at hsilent
      exact hsilent.2
    obtain ⟨hfirst, hrest⟩ := hST.removeFirst h.store hsome
    exact ⟨hfirst, h.closed, h.running, hrest⟩

theorem perform (hST : Simulates S T rel fits) (h : Channel.Related rel c c') {op : Op δ}
    (hpermits : c.Permits S fits op) :
    (c.perform S op).1 = (c'.perform T op).1 ∧ Channel.Related rel (c.perform S op).2 (c'.perform T op).2 := by
  cases op with
  | enqueue d => exact ⟨rfl, h.closed, h.running, hST.addLast h.store hpermits⟩
  | enqueueFirst d => exact ⟨rfl, h.closed, h.running, hST.addFirst h.store hpermits⟩
  | dequeue timeout =>
    obtain ⟨hfirst, hrest⟩ := hST.dequeueNoWait h
    simp only [Channel.perform, Channel.dequeue, h.closed, h.running, hST.isEmpty h.store]
    split_ifs
    · exact ⟨rfl, h⟩
    · exact ⟨congrArg Result.one hfirst, hrest⟩
  | dequeueNoWait =>
    obtain ⟨hfirst, hrest⟩ := hST.dequeueNoWait h
    exact ⟨congrArg Result.one hfirst, hrest⟩
  | peek =>
    refine ⟨congrArg Result.one ?_, h⟩
    rw [Channel.peek, Channel.peek, hST.silent h]
    cases hsilent : c'.silent T with
    | true => rfl
    | false =>
      rw [← hST.silent h, Channel.silent, Bool.or_eq_false_iff] at hsilent
      exact hST.getFirst h.store hsilent.2
  | removeAll =>
    obtain ⟨hall, hrest⟩ := hST.removeAll h.store
    exact ⟨congrArg Result.all hall, h.closed, h.running, hrest⟩
  | clear => exact ⟨rfl, h.closed, h.running, hST.clear h.store hpermits⟩
  | start =>
    refine ⟨rfl, ?_⟩
    simp only [Channel.perform, h.closed]
    split_ifs
    · exact h
    · exact ⟨rfl, rfl, h.store⟩
  | stop => exact ⟨rfl, h.closed, rfl, h.store⟩
  | close =>
    refine ⟨rfl, ?_⟩
    simp only [Channel.perform, h.closed]
    split_ifs
    · exact h
    · exact ⟨rfl, rfl, h.store⟩

theorem step (hST : Simulates S T rel fits) (h : Channel.Related rel c c') {op : Op δ}
    (hpermits : c.Permits S fits op) :
    (c.step S op).1 = (c'.step T op).1 ∧ Channel.Related rel (c.step S op).2 (c'.step T op).2 := by
  obtain ⟨hresult, hrel⟩ := hST.perform h hpermits
  refine ⟨?_, hrel⟩
  simp only [Channel.step, hresult, hST.size hrel.store, hST.isEmpty hrel.store]

end Simulates

/-! ### The priority channel as a queue -/

namespace Priorities

variable {priority : δ → Option UInt8} {s : Priorities δ} {l : List δ} {d : δ}

/-- The lists hold the queue, and the counter is its length. -/
structure Represents (priority : δ → Option UInt8) (s : Priorities δ) (l : List δ) : Prop where
  filed : Filed (getChannel priority) s.channels
  messages : s.messages = l
  enqueued : s.enqueued = l.length
  bounded : l.length < 2147483648

/-- There is room for one more in an `int`. -/
def Fits (s : Priorities δ) : Prop := s.messages.length < 2147483647

theorem mem_descending (i : Fin 10) : i ∈ descending := by
  rw [descending, mem_reverse]
  exact mem_finRange i

theorem pairwise_descending : descending.Pairwise (· > ·) := by decide

theorem Represents.count (h : Represents priority s l) (hfits : s.Fits) : toInt32 (s.enqueued + 1) = l.length + 1 := by
  rw [Fits, h.messages] at hfits
  rw [h.enqueued]
  exact toInt32_of_range (by omega) (by omega)

theorem Represents.addLast (h : Represents priority s l) (hfits : s.Fits) :
    Represents priority (s.addLast priority d) (insertLast (getChannel priority) d l) := by
  have hlength := (insertLast_perm (getChannel priority) d l).length_eq
  rw [length_cons] at hlength
  have hroom : l.length < 2147483647 := h.messages ▸ hfits
  refine ⟨h.filed.update ?_, ?_, ?_, by omega⟩
  · intro e he
    rcases mem_append.mp he with hold | hnew
    · exact h.filed _ e hold
    · rw [mem_singleton.mp hnew]
  · rw [← h.messages]
    exact gather_append pairwise_descending (mem_descending _) h.filed
  · rw [hlength]
    exact h.count hfits

theorem Represents.addFirst (h : Represents priority s l) (hfits : s.Fits) :
    Represents priority (s.addFirst priority d) (insertFirst (getChannel priority) d l) := by
  have hlength := (insertFirst_perm (getChannel priority) d l).length_eq
  rw [length_cons] at hlength
  have hroom : l.length < 2147483647 := h.messages ▸ hfits
  refine ⟨h.filed.update ?_, ?_, ?_, by omega⟩
  · intro e he
    rcases mem_cons.mp he with hnew | hold
    · rw [hnew]
    · exact h.filed _ e hold
  · rw [← h.messages]
    exact gather_cons pairwise_descending (mem_descending _) h.filed
  · rw [hlength]
    exact h.count hfits

theorem Represents.highest (h : Represents priority s (d :: l)) :
    ∃ i tail, s.highest = some i ∧ s.channels i = d :: tail ∧
      gather descending (Function.update s.channels i tail) = l := by
  cases hfind : s.highest with
  | none =>
    have hnil := h.messages.symm.trans (gather_of_find_none hfind)
    cases hnil
  | some i =>
    have hne : s.channels i ≠ [] := by simpa using List.find?_some hfind
    obtain ⟨first, tail, hlane⟩ := exists_cons_of_ne_nil hne
    have hgather := h.messages.symm.trans (gather_of_find (pairwise_descending.imp ne_of_gt) hfind hlane)
    obtain ⟨rfl, htail⟩ := List.cons.inj hgather
    exact ⟨i, tail, rfl, hlane, htail.symm⟩

theorem Represents.enqueued_pos (h : Represents priority s (d :: l)) : s.enqueued > 0 := by
  rw [h.enqueued, length_cons]
  omega

theorem Represents.removeFirst (h : Represents priority s (d :: l)) :
    s.removeFirst.1 = some d ∧ Represents priority s.removeFirst.2 l := by
  obtain ⟨i, tail, hhighest, hlane, hgather⟩ := h.highest
  have hbounded := h.bounded
  have henqueued := h.enqueued
  rw [length_cons] at hbounded henqueued
  rw [Priorities.removeFirst, if_pos h.enqueued_pos, hhighest]
  simp only [hlane, List.head?_cons, tail_cons, true_and]
  refine ⟨h.filed.update ?_, hgather, ?_, by omega⟩
  · intro e he
    exact h.filed i e (hlane ▸ mem_cons_of_mem _ he)
  · rw [henqueued]
    exact (toInt32_of_range (by omega) (by omega)).trans (by omega)

theorem Represents.getFirst (h : Represents priority s (d :: l)) : s.getFirst = some d := by
  obtain ⟨i, tail, hhighest, hlane, -⟩ := h.highest
  rw [Priorities.getFirst, if_pos h.enqueued_pos, hhighest, Option.bind_some, hlane, List.head?_cons]

theorem foldl_takeChannel {order : List (Fin 10)} (hnodup : order.Nodup) (acc : List δ)
    (hcount : (gather order s.channels).length ≤ s.enqueued) (hbounded : s.enqueued < 2147483648) :
    order.foldl takeChannel (acc, s) = (acc ++ gather order s.channels,
      { channels := fun i => if i ∈ order then [] else s.channels i
        enqueued := s.enqueued - (gather order s.channels).length }) := by
  induction order generalizing acc s with
  | nil => simp [gather]
  | cons k order ih =>
    obtain ⟨hnot, hrest⟩ := nodup_cons.mp hnodup
    have hgather : gather (k :: order) s.channels = s.channels k ++ gather order s.channels := rfl
    have hlater : gather order (Function.update s.channels k []) = gather order s.channels :=
      gather_update_of_not_mem hnot []
    rw [hgather, length_append] at hcount
    have hlen : toInt32 (s.channels k).length = (s.channels k).length :=
      toInt32_of_range (by omega) (by omega)
    have hleft : toInt32 (s.enqueued - toInt32 (s.channels k).length) = s.enqueued - (s.channels k).length := by
      rw [hlen]
      exact toInt32_of_range (by omega) (by omega)
    rw [foldl_cons, takeChannel, hleft, ih hrest, hlater, hgather, append_assoc, length_append]
    · have hchannels : (fun i => if i ∈ order then [] else Function.update s.channels k [] i)
          = fun i => if i ∈ k :: order then [] else s.channels i := by
        funext i
        by_cases hi : i = k
        · subst hi
          simp
        · rw [Function.update_of_ne hi]
          simp [hi]
      rw [hchannels, Nat.cast_add, Int.sub_sub]
    · show ((gather order (Function.update s.channels k [])).length : Int) ≤ s.enqueued - (s.channels k).length
      rw [hlater]
      omega
    · show s.enqueued - (s.channels k).length < 2147483648
      omega

theorem represents_nil (priority : δ → Option UInt8) : Represents priority ({} : Priorities δ) [] where
  filed k d hd := by cases hd
  messages := flatMap_eq_nil_iff.mpr fun _ _ => rfl
  enqueued := rfl
  bounded := Nat.zero_lt_succ _

theorem Represents.removeAll (h : Represents priority s l) :
    s.removeAll.1 = l ∧ Represents priority s.removeAll.2 [] := by
  have hgather : gather descending s.channels = l := h.messages
  have hbounded := h.bounded
  have hloop := foldl_takeChannel (pairwise_descending.imp ne_of_gt) []
    (by rw [hgather, h.enqueued]) (by rw [h.enqueued]; omega)
  have hchannels : (fun i => if i ∈ descending then [] else s.channels i) = fun _ => [] := by
    funext i
    rw [if_pos (mem_descending i)]
  rw [hgather, nil_append, h.enqueued, Int.sub_self, hchannels] at hloop
  rw [Priorities.removeAll, hloop]
  exact ⟨rfl, represents_nil priority⟩

theorem Represents.clear (h : Represents priority s []) : Represents priority s.clear [] :=
  ⟨(represents_nil priority).filed, (represents_nil priority).messages, h.enqueued, h.bounded⟩

end Priorities

theorem simplePriority_simulates (priority : δ → Option UInt8) :
    Simulates (simplePriority priority) (queue (getChannel priority)) (Priorities.Represents priority)
      (fun s _ => s.Fits) where
  size h := h.enqueued
  isEmpty {s l} h := by
    show decide (s.enqueued = 0) = l.isEmpty
    rw [h.enqueued]
    cases l with
    | nil => rfl
    | cons d l =>
      rw [length_cons, isEmpty_cons]
      exact decide_eq_false (by omega)
  addLast h hfits := h.addLast hfits
  addFirst h hfits := h.addFirst hfits
  removeFirst {s l} h hsome := by
    cases l with
    | nil => exact absurd h.enqueued (of_decide_eq_false hsome)
    | cons d l => exact h.removeFirst
  getFirst {s l} h hsome := by
    cases l with
    | nil => exact absurd h.enqueued (of_decide_eq_false hsome)
    | cons d l => exact h.getFirst
  removeAll h := h.removeAll
  clear {s l} h hnone := by
    have hnil : l = [] := by
      have hzero : s.enqueued = 0 := of_decide_eq_true hnone
      rw [h.enqueued] at hzero
      exact length_eq_zero_iff.mp (by omega)
    subst hnil
    exact h.clear

/-- With one priority only, the priority channel is a `FifoMessageDispatchChannel`. -/
theorem simplePriority_simulates_fifo (priority : δ → Option UInt8) (k : Fin 10) :
    Simulates (simplePriority priority) fifo
      (fun s l => Priorities.Represents priority s l ∧ ∀ d ∈ l, getChannel priority d = k)
      (fun s d => s.Fits ∧ getChannel priority d = k) where
  size {s l} h := by
    have hbounded := h.1.bounded
    have hsize : s.enqueued = toInt32 l.length := by rw [h.1.enqueued, toInt32_of_range (by omega) (by omega)]
    exact hsize
  isEmpty h := (simplePriority_simulates priority).isEmpty h.1
  addLast {s l d} h hfits := by
    have hend : insertLast (getChannel priority) d l = l ++ [d] := by
      have hall : ∀ e ∈ l, getChannel priority d ≤ getChannel priority e := by
        intro e he
        rw [h.2 e he, hfits.2]
      have happend := @insertLast_append _ _ _ _ _ l [] hall
      rwa [append_nil] at happend
    have hnew := h.1.addLast (d := d) hfits.1
    rw [hend] at hnew
    refine ⟨hnew, fun e he => ?_⟩
    rcases mem_append.mp he with hold | hnew
    · exact h.2 e hold
    · rw [mem_singleton.mp hnew]
      exact hfits.2
  addFirst {s l d} h hfits := by
    have hfront : insertFirst (getChannel priority) d l = d :: l := by
      refine insertFirst_of_le fun e he => ?_
      rw [h.2 e he, hfits.2]
    have hnew := h.1.addFirst (d := d) hfits.1
    rw [hfront] at hnew
    refine ⟨hnew, fun e he => ?_⟩
    rcases mem_cons.mp he with hnew | hold
    · rw [hnew]
      exact hfits.2
    · exact h.2 e hold
  removeFirst {s l} h hsome := by
    obtain ⟨hfirst, hrest⟩ := (simplePriority_simulates priority).removeFirst h.1 hsome
    exact ⟨hfirst, hrest, fun d hd => h.2 d (mem_of_mem_tail hd)⟩
  getFirst h hsome := (simplePriority_simulates priority).getFirst h.1 hsome
  removeAll h := by
    obtain ⟨hall, hrest⟩ := (simplePriority_simulates priority).removeAll h.1
    exact ⟨hall, hrest, fun d hd => by cases hd⟩
  clear h hnone := ⟨(simplePriority_simulates priority).clear h.1 hnone, fun d hd => by cases hd⟩

/-! ### Whole runs -/

def accepted (ops : List (Op δ)) : List δ :=
  ops.filterMap fun
    | .enqueue d => some d
    | .enqueueFirst d => some d
    | _ => none

/-- The messages that a result takes out of the channel; `peek` leaves its message where it is. -/
def taken : Op δ → Result δ → List δ
  | .peek, _ => []
  | _, .one (some d) => [d]
  | _, .all ds => ds
  | _, _ => []

def takenAll (ops : List (Op δ)) (answers : List (Answer δ)) : List δ :=
  (List.zipWith (fun op (answer : Answer δ) => taken op answer.result) ops answers).flatten

section

variable (priority : δ → Option UInt8)

def newSimplePriority : Channel (Priorities δ) := { store := {} }

abbrev stepPriority : Channel (Priorities δ) → Op δ → Answer δ × Channel (Priorities δ) :=
  Channel.step (simplePriority priority)

/-- Only an empty channel is cleared, and the counter does not overflow. -/
def Orderly (c : Channel (Priorities δ)) : Op δ → Prop
  | .enqueue _ => c.store.messages.length < 2147483647
  | .enqueueFirst _ => c.store.messages.length < 2147483647
  | .clear => c.store.messages = []
  | _ => True

/-- The channel answers the operations as a queue does, its messages are in the order of their priorities, no
message is lost or there twice, a channel that is running hands out one by one what `removeAll` would return,
a channel that is stopped or closed hands out nothing, and with one priority only it answers as a
`FifoMessageDispatchChannel` does. -/
structure Behaves (ops : List (Op δ)) : Prop where
  refines : answers (stepPriority priority) newSimplePriority ops =
    answers (Channel.step (queue (getChannel priority))) { store := [] } ops
  ordered : Ordered (getChannel priority) (after (stepPriority priority) newSimplePriority ops).store.messages
  conserves : (accepted ops).Perm (takenAll ops (answers (stepPriority priority) newSimplePriority ops) ++
    (after (stepPriority priority) newSimplePriority ops).store.messages)
  drains : ∀ c, c = after (stepPriority priority) newSimplePriority ops → c.closed = false → c.running = true →
    (answers (stepPriority priority) c (List.replicate c.store.messages.length .dequeueNoWait)).map Answer.result =
      c.store.removeAll.1.map fun d => .one (some d)
  silent : ∀ c, c = after (stepPriority priority) newSimplePriority ops → (c.closed = true ∨ c.running = false) →
    c.dequeueNoWait (simplePriority priority) = (none, c) ∧ c.peek (simplePriority priority) = none ∧
      ∀ timeout, c.dequeue (simplePriority priority) timeout = (.waits, c) ∨
        c.dequeue (simplePriority priority) timeout = (.one none, c)
  fifo : ∀ k, (∀ d ∈ accepted ops, getChannel priority d = k) →
    answers (stepPriority priority) newSimplePriority ops = answers (Channel.step fifo) { store := [] } ops

end

section

variable {priority : δ → Option UInt8} {c : Channel (Priorities δ)} {q : Channel (List δ)}
variable {κ : Type} {ops : List (Op δ)}

theorem permits_of_orderly {op : Op δ} (h : Channel.Related (Priorities.Represents priority) c q)
    (horderly : Orderly c op) : c.Permits (simplePriority priority) (fun s _ => s.Fits) op := by
  cases op with
  | enqueue d => exact horderly
  | enqueueFirst d => exact horderly
  | clear =>
    have hnil : q.store = [] := h.store.messages.symm.trans horderly
    have hzero := h.store.enqueued
    rw [hnil] at hzero
    exact decide_eq_true hzero
  | dequeue | dequeueNoWait | peek | removeAll | start | stop | close => trivial

/-- The answer is the one of the queue exactly if the operation is orderly. -/
theorem step_iff_orderly (op : Op δ) (h : Channel.Related (Priorities.Represents priority) c q) :
    ((stepPriority priority c op).1 = (q.step (queue (getChannel priority)) op).1 ↔ Orderly c op) ∧
      (Orderly c op → Channel.Related (Priorities.Represents priority) (stepPriority priority c op).2
        (q.step (queue (getChannel priority)) op).2) := by
  have hstep (horderly : Orderly c op) :=
    (simplePriority_simulates priority).step h (permits_of_orderly h horderly)
  refine ⟨⟨fun hanswer => ?_, fun horderly => (hstep horderly).1⟩, fun horderly => (hstep horderly).2⟩
  have hsize := congrArg Answer.size hanswer
  have hcount := h.store.enqueued
  have hbounded := h.store.bounded
  -- Only the operations that add or clear can leave the counter behind.
  cases op with
  | enqueue d =>
    have hlength := (insertLast_perm (getChannel priority) d q.store).length_eq
    change toInt32 (c.store.enqueued + 1) = (insertLast (getChannel priority) d q.store).length at hsize
    rw [hlength, hcount, length_cons] at hsize
    show c.store.messages.length < 2147483647
    rw [h.store.messages]
    have := toInt32_lt (q.store.length + 1)
    omega
  | enqueueFirst d =>
    have hlength := (insertFirst_perm (getChannel priority) d q.store).length_eq
    change toInt32 (c.store.enqueued + 1) = (insertFirst (getChannel priority) d q.store).length at hsize
    rw [hlength, hcount, length_cons] at hsize
    show c.store.messages.length < 2147483647
    rw [h.store.messages]
    have := toInt32_lt (q.store.length + 1)
    omega
  | clear =>
    change c.store.enqueued = 0 at hsize
    rw [hcount] at hsize
    exact h.store.messages.trans (length_eq_zero_iff.mp (by omega))
  | dequeue | dequeueNoWait | peek | removeAll | start | stop | close => trivial

theorem related_new : Channel.Related (Priorities.Represents priority) (newSimplePriority : Channel (Priorities δ))
    { store := [] } := ⟨rfl, rfl, Priorities.represents_nil priority⟩

theorem dequeueNoWait_queue [LinearOrder κ] (key : δ → κ) (q : Channel (List δ)) :
    q.dequeueNoWait (queue key) = (none, q) ∨
      ∃ d rest, q.store = d :: rest ∧ q.dequeueNoWait (queue key) = (some d, { q with store := rest }) := by
  rw [Channel.dequeueNoWait]
  cases hsilent : q.silent (queue key) with
  | true => exact .inl rfl
  | false =>
    rw [Channel.silent, Bool.or_eq_false_iff] at hsilent
    obtain ⟨d, rest, hstore⟩ := exists_cons_of_ne_nil (isEmpty_eq_false_iff.mp hsilent.2)
    refine .inr ⟨d, rest, hstore, ?_⟩
    show (q.store.head?, ({ q with store := q.store.tail } : Channel (List δ))) = _
    rw [hstore]
    rfl

theorem step_conserves [LinearOrder κ] (key : δ → κ) (q : Channel (List δ)) (op : Op δ)
    (hclear : op = .clear → q.store = []) :
    (accepted [op] ++ q.store).Perm
      (taken op (q.step (queue key) op).1.result ++ (q.step (queue key) op).2.store) := by
  have hdequeue : (q.store).Perm ((q.dequeueNoWait (queue key)).1.toList ++ (q.dequeueNoWait (queue key)).2.store) := by
    rcases dequeueNoWait_queue key q with hnone | ⟨d, rest, hstore, hsome⟩
    · rw [hnone]
      exact .refl _
    · rw [hsome, hstore]
      exact .refl _
  have htaken : ∀ (op : Op δ) (d : Option δ), op ≠ .peek → taken op (.one d) = d.toList := by
    intro op d hop
    cases d <;> cases op <;> first | rfl | exact absurd rfl hop
  cases op with
  | enqueue d => exact (insertLast_perm key d q.store).symm
  | enqueueFirst d => exact (insertFirst_perm key d q.store).symm
  | dequeue timeout =>
    simp only [Channel.step, Channel.perform, Channel.dequeue]
    split_ifs
    · exact .refl _
    · rw [htaken _ _ (fun h => by cases h)]
      exact hdequeue
  | dequeueNoWait =>
    simp only [Channel.step, Channel.perform]
    rw [htaken _ _ (fun h => by cases h)]
    exact hdequeue
  | removeAll => exact .of_eq (append_nil _).symm
  | clear =>
    rw [hclear rfl]
    exact .refl _
  | start | close =>
    simp only [Channel.step, Channel.perform]
    split_ifs <;> exact .refl _
  | peek | stop => exact .refl _

theorem conserves (h : Channel.Related (Priorities.Represents priority) c q)
    (hall : Always (moves (stepPriority priority)) Orderly c ops) :
    (accepted ops ++ q.store).Perm (takenAll ops (answers (Channel.step (queue (getChannel priority))) q ops) ++
      (after (Channel.step (queue (getChannel priority))) q ops).store) := by
  induction ops generalizing c q with
  | nil => exact .refl _
  | cons op ops ih =>
    obtain ⟨horderly, hrest⟩ := always_moves.mp hall
    have hclear : op = .clear → q.store = [] := by
      rintro rfl
      exact h.store.messages.symm.trans horderly
    have hone := step_conserves (getChannel priority) q op hclear
    have hlater := ih ((step_iff_orderly op h).2 horderly) hrest
    have hsplit : accepted (op :: ops) = accepted [op] ++ accepted ops := filterMap_append (l := [op])
    rw [hsplit, append_assoc]
    refine (perm_append_comm_assoc _ _ _).trans ?_
    refine (hone.append_left _).trans ?_
    refine (perm_append_comm_assoc _ _ _).trans ?_
    refine (hlater.append_left _).trans (.of_eq ?_)
    rw [← append_assoc]
    rfl

theorem answers_dequeueNoWait [LinearOrder κ] (key : δ → κ) (q : Channel (List δ)) (hopen : q.closed = false)
    (hrunning : q.running = true) :
    (answers (Channel.step (queue key)) q (List.replicate q.store.length .dequeueNoWait)).map Answer.result =
      q.store.map fun d => .one (some d) := by
  obtain ⟨closed, running, store⟩ := q
  change closed = false at hopen
  change running = true at hrunning
  subst hopen hrunning
  induction store with
  | nil => rfl
  | cons d store ih => exact congrArg (Result.one (some d) :: ·) ih

theorem silent_of_stopped (S : Store σ δ) {c : Channel σ} (h : c.closed = true ∨ c.running = false) :
    c.dequeueNoWait S = (none, c) ∧ c.peek S = none ∧
      ∀ timeout, c.dequeue S timeout = (.waits, c) ∨ c.dequeue S timeout = (.one none, c) := by
  have hsilent : c.silent S = true := by
    rw [Channel.silent]
    rcases h with hclosed | hstopped
    · rw [hclosed, Bool.true_or, Bool.true_or]
    · rw [hstopped, Bool.not_false, Bool.or_true, Bool.true_or]
  have hnone : c.dequeueNoWait S = (none, c) := by rw [Channel.dequeueNoWait, if_pos hsilent]
  refine ⟨hnone, by rw [Channel.peek, if_pos hsilent], fun timeout => ?_⟩
  rw [Channel.dequeue, hnone]
  split_ifs
  · exact .inl rfl
  · exact .inr rfl

theorem fifo_of_orderly (hall : Always (moves (stepPriority priority)) Orderly newSimplePriority ops) {k : Fin 10}
    (hk : ∀ d ∈ accepted ops, getChannel priority d = k) :
    answers (stepPriority priority) newSimplePriority ops = answers (Channel.step fifo) { store := [] } ops := by
  have hops : ∀ op ∈ ops, ∀ d ∈ accepted [op], getChannel priority d = k := by
    intro op hop d hd
    obtain ⟨op', hop', hadded⟩ := mem_filterMap.mp hd
    rw [mem_singleton] at hop'
    subst hop'
    exact hk d (mem_filterMap.mpr ⟨op', hop, hadded⟩)
  have hnew : Channel.Related (fun s l => Priorities.Represents priority s l ∧ ∀ d ∈ l, getChannel priority d = k)
      newSimplePriority { store := [] } :=
    ⟨rfl, rfl, Priorities.represents_nil priority, fun d hd => by cases hd⟩
  refine answers_eq (fun c q op h hcondition => ?_) hnew (hall.and_mem hops)
  obtain ⟨horderly, hequal⟩ := hcondition
  refine (simplePriority_simulates_fifo priority k).step h ?_
  have hpermits := permits_of_orderly ⟨h.closed, h.running, h.store.1⟩ horderly
  cases op with
  | enqueue d => exact ⟨hpermits, hequal d mem_cons_self⟩
  | enqueueFirst d => exact ⟨hpermits, hequal d mem_cons_self⟩
  | dequeue | dequeueNoWait | peek | removeAll | clear | start | stop | close => exact hpermits

theorem behaves_of_orderly
    (hall : Always (moves (stepPriority priority)) Orderly newSimplePriority ops) : Behaves priority ops := by
  have hstep : ∀ (c : Channel (Priorities δ)) q op, Channel.Related (Priorities.Represents priority) c q →
      Orderly c op → (stepPriority priority c op).1 = (q.step (queue (getChannel priority)) op).1 ∧
        Channel.Related (Priorities.Represents priority) (stepPriority priority c op).2
          (q.step (queue (getChannel priority)) op).2 :=
    fun c q op h horderly => ⟨(step_iff_orderly op h).1.mpr horderly, (step_iff_orderly op h).2 horderly⟩
  have hrel := rel_after (fun c q op h horderly => (hstep c q op h horderly).2) related_new hall
  have hanswers := answers_eq hstep related_new hall
  refine ⟨hanswers, ?_, ?_, ?_, ?_, ?_⟩
  · exact ordered_gather Priorities.pairwise_descending hrel.store.filed
  · have hperm := conserves related_new hall
    rw [append_nil] at hperm
    rw [hanswers, hrel.store.messages]
    exact hperm
  · rintro c rfl hopen hrunning
    have hpermitted (n : ℕ) (c : Channel (Priorities δ)) :
        Always (moves (stepPriority priority)) Orderly c (List.replicate n .dequeueNoWait) :=
      Always.of_forall (fun c op hop => eq_of_mem_replicate hop ▸ trivial) c
    rw [answers_eq hstep hrel (hpermitted _ _), hrel.store.messages, hrel.store.removeAll.1]
    exact answers_dequeueNoWait _ _ (hrel.closed ▸ hopen) (hrel.running ▸ hrunning)
  · rintro c rfl hsilent
    exact silent_of_stopped _ hsilent
  · intro k hk
    exact fifo_of_orderly hall hk

/-- The answers of the channel are right, in every respect, in exactly the runs whose operations are orderly. -/
theorem behaves_iff_orderly_run (priority : δ → Option UInt8) (ops : List (Op δ)) :
    Behaves priority ops ↔ Always (moves (stepPriority priority)) Orderly newSimplePriority ops :=
  ⟨fun h => (answers_eq_iff (fun _ _ op hrel => step_iff_orderly op hrel) related_new ops).mp h.refines,
    behaves_of_orderly⟩

end

/-- A message that is cleared away is still counted. -/
theorem cleared_message_counted :
    ¬Behaves (fun _ : Nat => none) [.enqueue 7, .clear] ∧
      (after (stepPriority fun _ : Nat => none) newSimplePriority [.enqueue 7, .clear]).store.enqueued = 1 := by
  refine ⟨fun h => ?_, rfl⟩
  have hanswers := h.refines
  simp only [answers, List.cons.injEq] at hanswers
  have hsize := congrArg Answer.size hanswers.2.1
  cases hsize

/-! ### The channel of a consumer -/

section

variable {μ : Type}

def priorityOf (d : MessageDispatch μ) : Option UInt8 := some (UInt8.ofNat d.message.priority)

theorem consumer_channel {c : MessageDispatchChannel μ} {s : Priorities (MessageDispatch μ)}
    (h : c.held = .priority s.channels) (d : MessageDispatch μ) (hbyte : d.message.priority < 256) :
    (Core.enqueue d c).held = .priority (s.addLast priorityOf d).channels ∧
      (Core.enqueueFirst d c).held = .priority (s.addFirst priorityOf d).channels ∧
      (Core.removeAll c).1 = s.messages := by
  have hlane : getChannel priorityOf d = Core.getChannel d := by
    refine Fin.ext ?_
    show min (UInt8.ofNat d.message.priority).toNat 9 = min d.message.priority 9
    rw [UInt8.toNat_ofNat_of_lt' hbyte]
  refine ⟨?_, ?_, ?_⟩
  · simp only [Core.enqueue, h, Priorities.addLast, hlane]
  · simp only [Core.enqueueFirst, h, Priorities.addFirst, hlane]
  · simp only [Core.removeAll, h]
    rfl

end

end ActiveMQCpp.Core.Dispatch
