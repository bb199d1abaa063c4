import ActiveMQCpp.CoreDelivery

/-! `waitForRedeliveries`: before it acknowledges, a consumer whose connection has failed over waits for the messages
that were delivered to it in the transaction to arrive again. -/

namespace ActiveMQCpp.Core

variable {μ : Type} [DecidableEq μ]

abbrev PreviouslyDelivered (μ : Type) : Type := Option (List (μ × Bool))

/-- What other threads do to them under the lock of the delivered messages. -/
inductive RedeliveryEvent (μ : Type) where
  /-- The message has arrived again. -/
  | received (messageId : μ)
  /-- The connection has failed over once more. -/
  | interrupted (messageIds : List μ)
  | cleared

def markReceived (messageId : μ) (entries : List (μ × Bool)) : List (μ × Bool) :=
  entries.map fun e => if e.1 = messageId then (e.1, true) else e

def putUnreceived (messageId : μ) (entries : List (μ × Bool)) : List (μ × Bool) :=
  entries.filter (·.1 ≠ messageId) ++ [(messageId, false)]

def RedeliveryEvent.apply (messages : PreviouslyDelivered μ) : RedeliveryEvent μ → PreviouslyDelivered μ
  | .received messageId => messages.map (markReceived messageId)
  | .interrupted messageIds => some (messageIds.foldr putUnreceived (messages.getD []))
  | .cleared => none

/-- One round of the loop: what happens before the messages are counted, whether the sleep is interrupted, and what the
clock shows at its end. -/
structure WaitRound (μ : Type) where
  events : List (RedeliveryEvent μ) := []
  interrupted : Bool := false
  now : Int

/-- How things stand when the function returns. -/
structure WaitEnd (μ : Type) where
  messages : PreviouslyDelivered μ
  interrupted : Bool
  now : Int

def WaitRound.counted (messages : PreviouslyDelivered μ) (round : WaitRound μ) : PreviouslyDelivered μ :=
  round.events.foldl RedeliveryEvent.apply messages

def numberNotReplayed : PreviouslyDelivered μ → Nat
  | none => 0
  | some entries => entries.countP (!·.2)

/-- The loop goes on while `expiry < now`. There is no result as long as it does. -/
def waitLoop (expiry : Int) (messages : PreviouslyDelivered μ) : List (WaitRound μ) → Option (WaitEnd μ)
  | [] => none
  | round :: rounds =>
    let counted := round.counted messages
    if numberNotReplayed counted > 0 then
      if round.interrupted then some ⟨counted, true, round.now⟩
      else if expiry < round.now then waitLoop expiry counted rounds
      else some ⟨counted, false, round.now⟩
    else some ⟨counted, false, round.now⟩

/-- `start` is the time of the call. -/
def waitForRedeliveries (failoverRedeliveryWaitPeriod start : Int) (messages : PreviouslyDelivered μ)
    (rounds : List (WaitRound μ)) : Option (WaitEnd μ) :=
  if failoverRedeliveryWaitPeriod > 0 ∧ messages ≠ none then
    waitLoop (start + failoverRedeliveryWaitPeriod) messages rounds
  else some ⟨messages, false, start⟩

structure RedeliveryWait (μ : Type) where
  failoverRedeliveryWaitPeriod : Int
  start : Int
  messages : PreviouslyDelivered μ
  rounds : List (WaitRound μ)
  positive : 0 < failoverRedeliveryWaitPeriod
  clock : (start :: rounds.map WaitRound.now).Pairwise (· ≤ ·)

namespace RedeliveryWait

def result (w : RedeliveryWait μ) : Option (WaitEnd μ) :=
  waitForRedeliveries w.failoverRedeliveryWaitPeriod w.start w.messages w.rounds

def expiry (w : RedeliveryWait μ) : Int := w.start + w.failoverRedeliveryWaitPeriod

end RedeliveryWait

def AllReceived (messages : PreviouslyDelivered μ) : Prop := ∀ entries ∈ messages, ∀ e ∈ entries, e.2 = true

omit [DecidableEq μ] in
theorem allReceived_iff {messages : PreviouslyDelivered μ} : AllReceived messages ↔ numberNotReplayed messages = 0 := by
  cases messages with
  | none => exact iff_of_true nofun rfl
  | some entries => simp [AllReceived, numberNotReplayed, List.countP_eq_zero]

/-! ### The end of the wait -/

/-- The wait ends rightly: every message has arrived again, the period is over, or the thread was interrupted. -/
def EndsRightly (expiry : Int) (result : WaitEnd μ) : Prop :=
  AllReceived result.messages ∨ expiry ≤ result.now ∨ result.interrupted = true

/-- After the deadline only the messages or an interrupt end the loop. -/
theorem waitLoop_late {expiry : Int} {rounds : List (WaitRound μ)} (hlate : ∀ round ∈ rounds, expiry < round.now)
    (messages : PreviouslyDelivered μ) : ∀ result ∈ waitLoop expiry messages rounds,
      AllReceived result.messages ∨ result.interrupted = true := by
  induction rounds generalizing messages with
  | nil => exact nofun
  | cons round rounds ih =>
    intro result hresult
    rw [waitLoop] at hresult
    split_ifs at hresult with hmissing hinterrupted hnow
    · cases hresult
      exact .inr rfl
    · exact ih (fun round hround => hlate round (List.mem_cons_of_mem _ hround)) _ result hresult
    · exact absurd (hlate round List.mem_cons_self) hnow
    · cases hresult
      exact .inl (allReceived_iff.mpr (Nat.eq_zero_of_not_pos hmissing))

/-- The first round ends rightly. -/
def FirstRoundDecides (w : RedeliveryWait μ) : Prop :=
  w.messages ≠ none → ∀ round ∈ w.rounds.head?,
    AllReceived (round.counted w.messages) ∨ round.interrupted = true ∨ w.expiry ≤ round.now

omit [DecidableEq μ] in
theorem RedeliveryWait.now_le (w : RedeliveryWait μ) {round : WaitRound μ} {rounds : List (WaitRound μ)}
    (hrounds : w.rounds = round :: rounds) : ∀ later ∈ rounds, round.now ≤ later.now := by
  have hclock := w.clock
  rw [hrounds, List.map_cons, List.pairwise_cons, List.pairwise_cons] at hclock
  exact fun later hlater => hclock.2.1 _ (List.mem_map_of_mem hlater)

def missingOne : RedeliveryWait Nat where
  failoverRedeliveryWaitPeriod := 4000
  start := 0
  messages := some [(7, false)]
  rounds := [{ now := 1000 }]
  positive := by decide
  clock := by decide

end ActiveMQCpp.Core
