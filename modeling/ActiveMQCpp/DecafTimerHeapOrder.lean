import ActiveMQCpp.DecafTimerTaskHeap
import ActiveMQCpp.LibRuns
import Mathlib.Data.List.Count

/-! The order of a `TimerTaskHeap` over its operations. The task that fills a hole only goes down; where it is due before
the parent of the hole it had to go up. -/

namespace ActiveMQCpp.Decaf.TimerTaskHeap

open Runs Heap

variable {κ : Type} {due : κ → Int}
variable {heap : List κ}

theorem byDue_weak : Heap.StrictWeak (byDue due) := by
  constructor
  · intro a b h
    simp only [byDue, decide_eq_true_eq, decide_eq_false_iff_not] at h ⊢
    omega
  · intro a b c hab hbc
    simp only [byDue, decide_eq_false_iff_not] at hab hbc ⊢
    omega

/-! ### Deleting the cancelled tasks -/

section Delete

variable (cancelled : κ → Bool)
variable {turns i : Nat} {heap : List κ} {task : κ}
variable {pos : Nat}

theorem deleteFrom_skip (htask : heap[i]? = some task) (hcancelled : cancelled task = false) :
    deleteFrom due cancelled (turns + 1) i heap = deleteFrom due cancelled turns (i + 1) heap := by
  rw [deleteFrom, htask]
  simp [hcancelled]

theorem deleteFrom_delete (htask : heap[i]? = some task) (hcancelled : cancelled task = true) :
    deleteFrom due cancelled (turns + 1) i heap =
      ((deleteFrom due cancelled turns i (remove due i heap)).1 + 1,
        (deleteFrom due cancelled turns i (remove due i heap)).2) := by
  rw [deleteFrom, htask]
  simp [hcancelled]

theorem deleteFrom_end (h : heap.length ≤ i) : deleteFrom due cancelled turns i heap = (0, heap) := by
  cases turns with
  | zero => rfl
  | succ turns => rw [deleteFrom, List.getElem?_eq_none h]

theorem length_remove (hpos : pos < heap.length) : (remove due pos heap).length = heap.length - 1 := by
  rw [(remove_perm pos heap).length_eq, List.length_eraseIdx_of_lt hpos]

theorem perm_cons_eraseIdx (htask : heap[pos]? = some task) : heap.Perm (task :: heap.eraseIdx pos) := by
  obtain ⟨hpos, rfl⟩ := List.getElem?_eq_some_iff.mp htask
  exact (List.getElem_cons_eraseIdx_perm hpos).symm

theorem of_all_before (h : heap.length ≤ i)
    (hbefore : ∀ k < i, ∀ task ∈ heap[k]?, cancelled task = false) : ∀ task ∈ heap, cancelled task = false := by
  intro task htask
  obtain ⟨k, hk, rfl⟩ := List.getElem_of_mem htask
  exact hbefore k (by omega) _ (by rw [List.getElem?_eq_getElem hk]; rfl)

theorem deleteFrom_spec (hturns : heap.length ≤ i + turns)
    (hbefore : ∀ k < i, ∀ task ∈ heap[k]?, cancelled task = false) :
    (deleteFrom due cancelled turns i heap).2.Perm (heap.filter fun task => !cancelled task) ∧
      (deleteFrom due cancelled turns i heap).1 = heap.countP cancelled := by
  induction turns generalizing i heap with
  | zero =>
    have hnone := of_all_before cancelled (by omega) hbefore
    rw [deleteFrom, List.filter_eq_self.mpr (by simpa using hnone), List.countP_eq_zero.mpr (by simpa using hnone)]
    exact ⟨.refl _, rfl⟩
  | succ turns ih =>
    cases htask : heap[i]? with
    | none =>
      have hend := List.getElem?_eq_none_iff.mp htask
      have hnone := of_all_before cancelled hend hbefore
      rw [deleteFrom_end cancelled hend, List.filter_eq_self.mpr (by simpa using hnone),
        List.countP_eq_zero.mpr (by simpa using hnone)]
      exact ⟨.refl _, rfl⟩
    | some task =>
      have hi : i < heap.length := (List.getElem?_eq_some_iff.mp htask).1
      cases hcancelled : cancelled task with
      | false =>
        rw [deleteFrom_skip cancelled htask hcancelled]
        apply ih (by omega)
        intro k hk other hother
        by_cases hki : k = i
        · rw [hki, htask] at hother
          cases hother
          exact hcancelled
        · exact hbefore k (by omega) other hother
      | true =>
        have hlength : (remove due i heap).length = heap.length - 1 := length_remove hi
        have hperm := perm_cons_eraseIdx htask
        have hothers : (remove due i heap).Perm (heap.eraseIdx i) := remove_perm i heap
        have hkept : ∀ k < i, ∀ other ∈ (remove due i heap)[k]?, cancelled other = false := by
          intro k hk other hother
          rw [remove_eq, removeAt_below hk] at hother
          exact hbefore k hk other hother
        have hfilter := hperm.filter fun task => !cancelled task
        rw [List.filter_cons_of_neg (by simp [hcancelled])] at hfilter
        obtain ⟨hrest, hcount⟩ := ih (by omega) hkept
        rw [deleteFrom_delete cancelled htask hcancelled]
        constructor
        · exact (hrest.trans (hothers.filter _)).trans hfilter.symm
        · rw [hcount, hothers.countP_eq, hperm.countP_eq, List.countP_cons_of_pos hcancelled]

theorem deleteIfCancelled_spec (heap : List κ) :
    (deleteIfCancelled due cancelled heap).2.Perm (heap.filter fun task => !cancelled task) ∧
      (deleteIfCancelled due cancelled heap).1 = heap.countP cancelled :=
  deleteFrom_spec cancelled (by omega) (fun k hk => absurd hk (Nat.not_lt_zero k))

/-! ### The order -/

variable (due) in
/-- Every removal of the loop of `deleteIfCancelled` fills the hole with a task that fits, or with a cancelled one,
which the next turn removes. -/
def FitsFrom : (turns i : Nat) → List κ → Prop
  | 0, _, _ => True
  | turns + 1, i, heap =>
    match heap[i]? with
    | none => True
    | some task =>
      if cancelled task then
        (Heap.Fits (byDue due) i heap ∨ ∃ back ∈ heap.getLast?, cancelled back = true) ∧
          FitsFrom turns i (remove due i heap)
      else FitsFrom turns (i + 1) heap

variable (due) in
/-- The heap in the middle of the loop: the task at the place may be due before its parent if it is cancelled. -/
structure Scanned (i : Nat) (heap : List κ) : Prop where
  almost : Heap.Almost (byDue due) heap i
  pending : Heap.less (byDue due) heap i ((i - 1) / 2) = true → ∃ task ∈ heap[i]?, cancelled task = true

variable {cancelled}

theorem scanned_of_ordered (h : Heap.Ordered (byDue due) heap) (i : Nat) : Scanned due cancelled i heap := by
  refine ⟨h.almost byDue_weak i, fun hless => ?_⟩
  by_cases hi : 0 < i
  · rw [h i hi] at hless
    cases hless
  · obtain rfl : i = 0 := by omega
    rw [less_irrefl byDue_weak] at hless
    cases hless

theorem Scanned.ordered (h : Scanned due cancelled i heap)
    (hnot : ∀ task ∈ heap[i]?, cancelled task = false) : Heap.Ordered (byDue due) heap := by
  apply h.almost.ordered
  intro _
  by_contra hless
  rw [Bool.not_eq_false] at hless
  obtain ⟨task, htask, hcancelled⟩ := h.pending hless
  rw [hnot task htask] at hcancelled
  cases hcancelled

theorem Scanned.remove (h : Scanned due cancelled i heap) (hi : i < heap.length)
    (hfits : Heap.Fits (byDue due) i heap ∨ ∃ back ∈ heap.getLast?, cancelled back = true) :
    Scanned due cancelled i (remove due i heap) := by
  rw [remove_eq]
  by_cases hfit : Heap.Fits (byDue due) i heap
  · exact scanned_of_ordered (removeAt_ordered byDue_weak h.almost hi hfit) i
  · obtain ⟨halmost, -, hback⟩ := removeAt_unfit byDue_weak h.almost hfit
    refine ⟨halmost, fun _ => ?_⟩
    rw [hback]
    exact hfits.resolve_left hfit

theorem deleteFrom_below (turns : Nat) {k : Nat} (hk : k < i) :
    (deleteFrom due cancelled turns i heap).2[k]? = heap[k]? := by
  induction turns generalizing i heap with
  | zero => rfl
  | succ turns ih =>
    cases htask : heap[i]? with
    | none => rw [deleteFrom_end cancelled (List.getElem?_eq_none_iff.mp htask)]
    | some task =>
      cases hcancelled : cancelled task with
      | false =>
        rw [deleteFrom_skip cancelled htask hcancelled]
        exact ih (by omega)
      | true =>
        rw [deleteFrom_delete cancelled htask hcancelled, ih hk, remove_eq, removeAt_below hk]

theorem deleteFrom_stuck (turns : Nat) (h : Scanned due cancelled i heap)
    (hfits : ¬ (Heap.Fits (byDue due) i heap ∨ ∃ back ∈ heap.getLast?, cancelled back = true)) :
    ¬ Heap.Ordered (byDue due) (deleteFrom due cancelled turns i (TimerTaskHeap.remove due i heap)).2 := by
  rw [not_or] at hfits
  obtain ⟨hfit, hback⟩ := hfits
  obtain ⟨-, hless, hplace⟩ := removeAt_unfit byDue_weak h.almost hfit
  rw [← remove_eq] at hless hplace
  have hi : 0 < i := by
    rw [Heap.Fits, not_or] at hfit
    omega
  have hless' : less (byDue due) (deleteFrom due cancelled turns i (TimerTaskHeap.remove due i heap)).2 i ((i - 1) / 2) =
      true := by
    cases turns with
    | zero => exact hless
    | succ turns =>
      have hlength := (lt_length_of_less hless).1
      obtain ⟨task, htask⟩ : ∃ task, (TimerTaskHeap.remove due i heap)[i]? = some task := ⟨_, List.getElem?_eq_getElem hlength⟩
      have hcancelled : cancelled task = false := by
        by_contra hcancelled
        exact hback ⟨task, by rw [← hplace]; exact htask, by simpa using hcancelled⟩
      rw [deleteFrom_skip cancelled htask hcancelled,
        less_congr (deleteFrom_below turns (by omega)) (deleteFrom_below turns (by omega))]
      exact hless
  intro hordered
  rw [hordered i hi] at hless'
  cases hless'

theorem deleteFrom_ordered_iff (hturns : heap.length ≤ i + turns) (h : Scanned due cancelled i heap) :
    Heap.Ordered (byDue due) (deleteFrom due cancelled turns i heap).2 ↔ FitsFrom due cancelled turns i heap := by
  induction turns generalizing i heap with
  | zero =>
    refine iff_of_true (h.ordered fun task htask => ?_) trivial
    rw [List.getElem?_eq_none (by omega)] at htask
    cases htask
  | succ turns ih =>
    cases htask : heap[i]? with
    | none =>
      rw [deleteFrom_end cancelled (List.getElem?_eq_none_iff.mp htask), FitsFrom, htask]
      refine iff_of_true (h.ordered fun task htask' => ?_) trivial
      rw [htask] at htask'
      cases htask'
    | some task =>
      have hi : i < heap.length := (List.getElem?_eq_some_iff.mp htask).1
      rw [FitsFrom, htask]
      dsimp only
      cases hcancelled : cancelled task with
      | false =>
        have hordered : Heap.Ordered (byDue due) heap := h.ordered fun other hother => by
          rw [htask] at hother
          cases hother
          exact hcancelled
        rw [deleteFrom_skip cancelled htask hcancelled, if_neg Bool.false_ne_true]
        exact ih (by omega) (scanned_of_ordered hordered _)
      | true =>
        have hlength : (TimerTaskHeap.remove due i heap).length = heap.length - 1 := length_remove hi
        rw [deleteFrom_delete cancelled htask hcancelled, if_pos rfl]
        by_cases hfits : Heap.Fits (byDue due) i heap ∨ ∃ back ∈ heap.getLast?, cancelled back = true
        · rw [and_iff_right hfits]
          exact ih (by omega) (h.remove hi hfits)
        · exact iff_of_false (deleteFrom_stuck turns h hfits) fun hboth => hfits hboth.1

end Delete

/-! ### Runs -/

/-- The operations on a heap. Which tasks are cancelled is up to the others who hold them. -/
inductive Operation (κ : Type) where
  | insert (task : κ)
  | remove (pos : Nat)
  | deleteIfCancelled (cancelled : κ → Bool)
  | find (task : κ)

variable (due) in
def step (heap : List κ) : Operation κ → Option (List κ)
  | .insert task => some (insert due task heap)
  | .remove pos => some (TimerTaskHeap.remove due pos heap)
  | .deleteIfCancelled cancelled => some (deleteIfCancelled due cancelled heap).2
  | .find _ => some heap

variable (due) in
/-- No task is due earlier than its parent. -/
def InOrder (heap : List κ) : Prop :=
  ∀ i task parent, 0 < i → heap[i]? = some task → heap[(i - 1) / 2]? = some parent → due parent ≤ due task

theorem inOrder_iff : InOrder due heap ↔ Heap.Ordered (byDue due) heap := by
  refine forall_congr' fun i => ⟨fun h hi => ?_, fun h task parent hi htask hparent => ?_⟩
  · rw [less]
    cases htask : heap[i]? with
    | none => rfl
    | some task =>
      cases hparent : heap[(i - 1) / 2]? with
      | none => rfl
      | some parent =>
        have hle := h task parent hi htask hparent
        simp only [byDue, decide_eq_false_iff_not]
        omega
  · have hless := h hi
    rw [less, htask, hparent] at hless
    simp only [byDue, decide_eq_false_iff_not] at hless
    omega

theorem peek_least (h : InOrder due heap) {first task : κ} (hfirst : heap.head? = some first)
    (htask : task ∈ heap) : due first ≤ due task := by
  have hless := (inOrder_iff.mp h).head_le byDue_weak hfirst htask
  simp only [byDue, decide_eq_false_iff_not] at hless
  omega

section Runs

variable [DecidableEq κ]
variable {heap : List κ} {operation : Operation κ}

variable (due) in
/-- What an operation has to do with the tasks, and what it has to answer. -/
def Effect (heap : List κ) : Operation κ → Prop
  | .insert task => (insert due task heap).Perm (task :: heap)
  | .remove pos => (TimerTaskHeap.remove due pos heap).Perm (heap.eraseIdx pos)
  | .deleteIfCancelled cancelled =>
    (deleteIfCancelled due cancelled heap).2.Perm (heap.filter fun task => !cancelled task) ∧
      (deleteIfCancelled due cancelled heap).1 = heap.countP cancelled
  | .find task => match find task heap with
      | some pos => heap[pos]? = some task
      | none => task ∉ heap

theorem effect (heap : List κ) (operation : Operation κ) : Effect due heap operation := by
  cases operation with
  | insert task => exact insert_perm task heap
  | remove pos => exact remove_perm pos heap
  | deleteIfCancelled cancelled => exact deleteIfCancelled_spec cancelled heap
  | find task =>
    rw [Effect]
    split
    · next pos hpos =>
        obtain ⟨hlt, htask, -⟩ := List.findIdx?_eq_some_iff_getElem.mp hpos
        rw [List.getElem?_eq_getElem hlt, of_decide_eq_true htask]
    · next hnone =>
        intro hmem
        have hne := List.findIdx?_eq_none_iff.mp hnone task hmem
        simp at hne

variable (due) in
/-- The operation has its effect and leaves the heap in order. -/
def Right (heap : List κ) (operation : Operation κ) : Prop :=
  Effect due heap operation ∧ ∀ heap', step due heap operation = some heap' →
    InOrder due heap' ∧ ∀ first, heap'.head? = some first → ∀ task ∈ heap', due first ≤ due task

omit [DecidableEq κ] in
variable (due) in
/-- Every task that is put in a hole fits there, or is cancelled and about to be deleted. -/
def Filled (heap : List κ) : Operation κ → Prop
  | .insert _ => True
  | .remove pos => Heap.Fits (byDue due) pos heap
  | .deleteIfCancelled cancelled => FitsFrom due cancelled heap.length 0 heap
  | .find _ => True

omit [DecidableEq κ] in
theorem step_inOrder_iff {heap' : List κ} (h : InOrder due heap)
    (hstep : step due heap operation = some heap') : InOrder due heap' ↔ Filled due heap operation := by
  rw [inOrder_iff] at h ⊢
  cases operation with
  | insert task =>
    cases hstep
    rw [insert_eq]
    exact iff_of_true (insert_ordered byDue_weak h task) trivial
  | remove pos =>
    cases hstep
    rw [remove_eq]
    exact ordered_removeAt_iff byDue_weak h pos
  | deleteIfCancelled cancelled =>
    cases hstep
    exact deleteFrom_ordered_iff (by omega) (scanned_of_ordered h 0)
  | find task =>
    cases hstep
    exact iff_of_true h trivial

theorem right_iff (h : InOrder due heap) : Right due heap operation ↔ Filled due heap operation := by
  obtain ⟨heap', hstep⟩ : ∃ heap', step due heap operation = some heap' := by cases operation <;> exact ⟨_, rfl⟩
  rw [← step_inOrder_iff h hstep]
  constructor
  · rintro ⟨-, hafter⟩
    exact (hafter heap' hstep).1
  · intro hordered
    refine ⟨effect heap operation, fun heap'' hstep' => ?_⟩
    rw [hstep] at hstep'
    cases hstep'
    exact ⟨hordered, fun first hfirst task htask => peek_least hordered hfirst htask⟩

/-- Every operation of a run does what it should exactly when every task that fills a hole fits there. -/
theorem rightRuns_iff (operations : List (Operation κ)) :
    Always (step due) (Right due) [] operations ↔ Always (step due) (Filled due) [] operations := by
  have hempty : InOrder due ([] : List κ) := by
    intro i task parent _ htask
    cases htask
  exact always_congr (fun heap operation (h : InOrder due heap) => right_iff h)
    (fun heap operation heap' h hfilled hstep => (step_inOrder_iff h hstep).mpr hfilled) hempty operations

/-- The task due at 2 fills the hole below the one due at 10, which is the first after two more removals. -/
theorem remove_misorders : ∃ heap : List Int,
    run (step id) [] [.insert 0, .insert 10, .insert 1, .insert 11, .insert 12, .insert 20, .insert 2,
      .remove 3, .remove 0, .remove 0] = some heap ∧
      ¬ InOrder id heap ∧ heap.head? = some 10 ∧ 2 ∈ heap := by
  refine ⟨[10, 2, 20, 12], rfl, fun hordered => ?_, rfl, by decide⟩
  have hle : (10 : Int) ≤ 2 := hordered 1 2 10 (by omega) rfl rfl
  exact absurd hle (by decide)

end Runs

end ActiveMQCpp.Decaf.TimerTaskHeap
