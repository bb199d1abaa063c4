import Mathlib.Algebra.BigOperators.Group.List.Basic
import ActiveMQCpp.LibMachineInt
import ActiveMQCpp.LibRuns

/-! The window of a producer. Asynchronous sends are counted by the threads that send, after the message has
been written, and acknowledgements are discounted by the thread of the transport. -/

namespace ActiveMQCpp.Core

open MachineInt Runs

structure MemoryUsage where
  limit : Nat
  usage : Nat := 0

namespace MemoryUsage

def isFull (memory : MemoryUsage) : Bool := memory.usage ≥ memory.limit

def increaseUsage (memory : MemoryUsage) (value : Nat) : MemoryUsage :=
  if value = 0 then memory else { memory with usage := toUInt64 (memory.usage + value) }

def decreaseUsage (memory : MemoryUsage) (value : Nat) : MemoryUsage :=
  if value = 0 then memory
  else if value > memory.usage then { memory with usage := 0 }
  else { memory with usage := memory.usage - value }

end MemoryUsage

/-- Where the thread that holds the send mutex is: its message is written, and `enqueueUsage` has not yet, or
has already, waited for space. -/
inductive Sending where
  | idle
  | written (size : UInt32)
  | waited (size : UInt32)
  deriving DecidableEq

/-- A producer with a window. `ready` are the sizes of the messages of the threads that have waited for
space and do not hold the send mutex yet; `outstanding` the sizes of the messages that are written and not
yet acknowledged. -/
structure ProducerWindow where
  memoryUsage : MemoryUsage
  ready : List UInt32 := []
  sending : Sending := .idle
  outstanding : List UInt32 := []

namespace ProducerWindow

variable {memory : MemoryUsage}

def new (windowSize : UInt32) : ProducerWindow := { memoryUsage := { limit := windowSize.toNat } }

inductive Event where
  /-- `ActiveMQProducerKernel::send` returns from `waitForSpace`. -/
  | send (size : UInt32)
  /-- `ActiveMQSessionKernel::send` has the send mutex and writes the message. -/
  | oneway (size : UInt32)
  /-- The message is not written, for whatever reason. -/
  | abort (size : UInt32)
  | waitForSpace
  | increaseUsage
  /-- The transport delivers the acknowledgement of a message of this size. -/
  | producerAck (size : UInt32)
  deriving DecidableEq

/-- `ActiveMQProducerKernel::onProducerAck`; the size is an `int`. -/
def onProducerAck (p : ProducerWindow) (size : Int) : ProducerWindow :=
  { p with memoryUsage := p.memoryUsage.decreaseUsage (toUInt64 size) }

/-- A thread that waits does not move, and an acknowledgement is one of an outstanding message, whose size
is the `int` it carries. -/
def step (p : ProducerWindow) : Event → Option ProducerWindow
  | .send size => if p.memoryUsage.isFull then none else some { p with ready := size :: p.ready }
  | .oneway size =>
    if p.sending = .idle ∧ size ∈ p.ready then
      some { p with ready := p.ready.erase size, sending := .written size, outstanding := size :: p.outstanding }
    else none
  | .abort size =>
    if p.sending = .idle ∧ size ∈ p.ready then some { p with ready := p.ready.erase size } else none
  | .waitForSpace =>
    match p.sending with
    | .written size => if p.memoryUsage.isFull then none else some { p with sending := .waited size }
    | _ => none
  | .increaseUsage =>
    match p.sending with
    | .waited size => some { p with memoryUsage := p.memoryUsage.increaseUsage size.toNat, sending := .idle }
    | _ => none
  | .producerAck size =>
    if size ∈ p.outstanding ∧ size.toNat < 2147483648 then
      some { p.onProducerAck size.toNat with outstanding := p.outstanding.erase size }
    else none

/-- The sizes of the messages that are written and not acknowledged. -/
def total (p : ProducerWindow) : Nat := (p.outstanding.map UInt32.toNat).sum

/-- What is counted is what is outstanding, and a producer with nothing outstanding is not kept waiting. -/
def Accounted (p : ProducerWindow) : Prop :=
  p.memoryUsage.usage = p.total ∧ (p.outstanding = [] → p.memoryUsage.isFull = false)

def Counted (p : ProducerWindow) : Event → Prop
  | .producerAck size => size.toNat ≤ p.memoryUsage.usage
  | _ => True

/-! ### Steps -/

/-- The size of the message that is written and not yet counted. -/
def uncounted : Sending → Nat
  | .idle => 0
  | .written size => size.toNat
  | .waited size => size.toNat

/-- What is outstanding is counted or about to be, and a thread that has waited for space still has it. -/
structure Inv (windowSize : UInt32) (p : ProducerWindow) : Prop where
  covered : p.total ≤ p.memoryUsage.usage + uncounted p.sending
  bounded : p.memoryUsage.usage < p.memoryUsage.limit + 4294967296
  limit_eq : p.memoryUsage.limit = windowSize.toNat
  space : ∀ size, p.sending = .waited size → p.memoryUsage.usage < p.memoryUsage.limit

/-- What is counted, or about to be, beyond what is outstanding. -/
def excess (p : ProducerWindow) : Nat := p.memoryUsage.usage + uncounted p.sending - p.total

theorem isFull_eq_false : memory.isFull = false ↔ memory.usage < memory.limit := by
  rw [MemoryUsage.isFull, decide_eq_false_iff_not, ge_iff_le, not_le]

theorem total_cons (p : ProducerWindow) (size : UInt32) :
    ((size :: p.outstanding).map UInt32.toNat).sum = size.toNat + p.total := by
  rw [List.map_cons, List.sum_cons]
  rfl

theorem total_erase {p : ProducerWindow} {size : UInt32} (h : size ∈ p.outstanding) :
    size.toNat + ((p.outstanding.erase size).map UInt32.toNat).sum = p.total :=
  List.sum_map_erase UInt32.toNat h

theorem usage_increase {value : Nat} (h : memory.usage + value < 18446744073709551616) :
    (memory.increaseUsage value).usage = memory.usage + value ∧ (memory.increaseUsage value).limit = memory.limit := by
  unfold MemoryUsage.increaseUsage
  split_ifs with hzero
  · exact ⟨by omega, rfl⟩
  · exact ⟨toUInt64_of_lt h, rfl⟩

theorem usage_decrease (memory : MemoryUsage) (value : Nat) :
    (memory.decreaseUsage value).usage = memory.usage - value ∧ (memory.decreaseUsage value).limit = memory.limit := by
  unfold MemoryUsage.decreaseUsage
  split_ifs
  · exact ⟨by omega, rfl⟩
  · exact ⟨by show 0 = _; omega, rfl⟩
  · exact ⟨rfl, rfl⟩

theorem step_excess {windowSize : UInt32} (p : ProducerWindow) (e : Event) (p' : ProducerWindow)
    (hinv : Inv windowSize p) (h : p.step e = some p') :
    Inv windowSize p' ∧ (p.Counted e → p'.excess = p.excess) ∧ (¬p.Counted e → p.excess < p'.excess) := by
  obtain ⟨hcovered, hbounded, hlimit, hspace⟩ := hinv
  have hwindow := windowSize.toNat_lt
  cases e with
  | send size =>
    simp only [step] at h
    split_ifs at h
    cases h
    exact ⟨⟨hcovered, hbounded, hlimit, hspace⟩, fun _ => rfl, fun hnot => absurd trivial hnot⟩
  | oneway size =>
    simp only [step] at h
    split_ifs at h with hready
    cases h
    have htotal := total_cons p size
    rw [hready.1] at hcovered
    have hsum : (p.memoryUsage.usage + size.toNat) - (size.toNat + p.total) = p.memoryUsage.usage - p.total := by omega
    refine ⟨⟨?_, hbounded, hlimit, ?_⟩, fun _ => ?_, fun hnot => absurd trivial hnot⟩
    · show ((size :: p.outstanding).map UInt32.toNat).sum ≤ p.memoryUsage.usage + size.toNat
      rw [htotal]
      simp only [uncounted] at hcovered
      omega
    · rintro size' ⟨⟩
    · show p.memoryUsage.usage + size.toNat - ((size :: p.outstanding).map UInt32.toNat).sum = _
      rw [htotal, excess, hready.1, hsum]
      rfl
  | abort size =>
    simp only [step] at h
    split_ifs at h
    cases h
    exact ⟨⟨hcovered, hbounded, hlimit, hspace⟩, fun _ => rfl, fun hnot => absurd trivial hnot⟩
  | waitForSpace =>
    simp only [step] at h
    split at h
    · next size hsending =>
        split_ifs at h with hfull
        cases h
        rw [hsending] at hcovered
        refine ⟨⟨hcovered, hbounded, hlimit, fun _ _ => ?_⟩, fun _ => ?_, fun hnot => absurd trivial hnot⟩
        · exact isFull_eq_false.mp (Bool.eq_false_iff.mpr hfull)
        · rw [excess, excess, hsending]
          rfl
    · cases h
  | increaseUsage =>
    simp only [step] at h
    split at h
    · next size hsending =>
        cases h
        have husage := hspace size hsending
        have hsize := size.toNat_lt
        have hfits : p.memoryUsage.usage + size.toNat < 18446744073709551616 := by omega
        obtain ⟨hincrease, hlimitEq⟩ := usage_increase hfits
        rw [hsending] at hcovered
        simp only [uncounted] at hcovered
        refine ⟨⟨?_, ?_, ?_, ?_⟩, fun _ => ?_, fun hnot => absurd trivial hnot⟩
        · show p.total ≤ (p.memoryUsage.increaseUsage size.toNat).usage
          omega
        · show (p.memoryUsage.increaseUsage size.toNat).usage < (p.memoryUsage.increaseUsage size.toNat).limit + _
          omega
        · exact hlimitEq.trans hlimit
        · rintro size' ⟨⟩
        · show (p.memoryUsage.increaseUsage size.toNat).usage + 0 - p.total = _
          rw [excess, hsending, hincrease]
          rfl
    · cases h
  | producerAck size =>
    simp only [step] at h
    split_ifs at h with hmatch
    cases h
    have htotal := total_erase hmatch.1
    have hvalue : toUInt64 ((size.toNat : Nat) : Int) = size.toNat := toUInt64_of_lt (by omega)
    obtain ⟨hdecrease, hlimitEq⟩ := usage_decrease p.memoryUsage (toUInt64 size.toNat)
    have husage : (p.onProducerAck size.toNat).memoryUsage.usage = p.memoryUsage.usage - size.toNat :=
      hdecrease.trans (by rw [hvalue])
    have hlimit' : (p.onProducerAck size.toNat).memoryUsage.limit = p.memoryUsage.limit := hlimitEq
    refine ⟨⟨?_, ?_, ?_, fun size' hsending => ?_⟩, fun hcounted => ?_, fun hnot => ?_⟩
    · show ((p.outstanding.erase size).map UInt32.toNat).sum
        ≤ (p.onProducerAck size.toNat).memoryUsage.usage + uncounted p.sending
      omega
    · show (p.onProducerAck size.toNat).memoryUsage.usage < (p.onProducerAck size.toNat).memoryUsage.limit + _
      omega
    · exact hlimit'.trans hlimit
    · show (p.onProducerAck size.toNat).memoryUsage.usage < (p.onProducerAck size.toNat).memoryUsage.limit
      have := hspace size' hsending
      omega
    · have hle : size.toNat ≤ p.memoryUsage.usage := hcounted
      show (p.onProducerAck size.toNat).memoryUsage.usage + uncounted p.sending
        - ((p.outstanding.erase size).map UInt32.toNat).sum = p.memoryUsage.usage + uncounted p.sending - p.total
      omega
    · have hlt : ¬size.toNat ≤ p.memoryUsage.usage := hnot
      show p.memoryUsage.usage + uncounted p.sending - p.total < (p.onProducerAck size.toNat).memoryUsage.usage
        + uncounted p.sending - ((p.outstanding.erase size).map UInt32.toNat).sum
      omega

theorem inv_new (windowSize : UInt32) : Inv windowSize (new windowSize) where
  covered := le_refl 0
  bounded := by
    show 0 < windowSize.toNat + 4294967296
    omega
  limit_eq := rfl
  space := by rintro size ⟨⟩

/-- At every point of a run where no thread is between writing and counting, what is counted is what is
outstanding exactly when every acknowledgement so far found its own size counted. -/
theorem accounted_iff (windowSize : UInt32) (hwindow : 0 < windowSize.toNat) (events : List Event) (p : ProducerWindow)
    (hrun : run step (new windowSize) events = some p) (hquiescent : p.sending = .idle) :
    p.Accounted ↔ Always step Counted (new windowSize) events := by
  obtain ⟨hinv, -, hiff⟩ := measure_run step_excess (inv_new windowSize) hrun
  have hcovered := hinv.covered
  have hzero : p.excess = (new windowSize).excess ↔ p.memoryUsage.usage = p.total := by
    have hnew : (new windowSize).excess = 0 := rfl
    rw [hnew, excess]
    rw [hquiescent] at hcovered ⊢
    simp only [uncounted] at hcovered ⊢
    omega
  rw [← hiff, hzero, Accounted, and_iff_left_iff_imp]
  intro husage hnone
  rw [isFull_eq_false, husage, total, hnone, hinv.limit_eq]
  exact hwindow

def oneMessage : List Event := [.send 1024, .oneway 1024, .waitForSpace, .increaseUsage, .producerAck 1024]

theorem oneMessage_accounted : run step (new 1000) oneMessage = some (new 1000) ∧ (new 1000).Accounted := by
  have hrun : run step (new 1000) oneMessage = some (new 1000) := rfl
  refine ⟨hrun, (accounted_iff 1000 (by decide) oneMessage (new 1000) hrun rfl).mpr ?_⟩
  refine (always_cons rfl).mpr ⟨trivial, (always_cons rfl).mpr ⟨trivial, (always_cons rfl).mpr ⟨trivial,
    (always_cons rfl).mpr ⟨trivial, (always_cons rfl).mpr ⟨?_, trivial⟩⟩⟩⟩⟩
  exact Nat.le_refl 1024

/-- An acknowledgement between writing and counting leaves its size counted, and the producer waits for
space with nothing outstanding. -/
theorem early_ack_not_accounted : ∃ p, run step (new 1000)
    [.send 1024, .oneway 1024, .producerAck 1024, .waitForSpace, .increaseUsage] = some p ∧ p.sending = .idle ∧
      p.outstanding = [] ∧ p.memoryUsage.isFull = true ∧ ¬p.Accounted := by
  refine ⟨_, rfl, rfl, rfl, rfl, ?_⟩
  rintro ⟨husage, -⟩
  exact absurd husage (by decide)

end ProducerWindow

end ActiveMQCpp.Core
