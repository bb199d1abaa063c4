import ActiveMQCpp.LibHeap

/-! `decaf::internal::util::TimerTaskHeap`: the tasks of a timer in a binary heap by the time when they are due. -/

namespace ActiveMQCpp.Decaf.TimerTaskHeap

variable {κ : Type} (due : κ → Int)

/-- `heap[i]->when < heap[j]->when`. -/
def before (heap : List κ) (i j : Nat) : Bool :=
  match heap[i]?, heap[j]? with
  | some task, some other => due task < due other
  | _, _ => false

def swap (heap : List κ) (i j : Nat) : List κ :=
  match heap[i]?, heap[j]? with
  | some task, some other => (heap.set i other).set j task
  | _, _ => heap

/-- The loop of `upHeap`, for so many turns; every turn goes to the parent. -/
def upHeapFrom : (turns current : Nat) → List κ → List κ
  | 0, _, heap => heap
  | turns + 1, current, heap =>
    if current ≠ 0 ∧ before due heap current ((current - 1) / 2) then
      upHeapFrom turns ((current - 1) / 2) (swap heap current ((current - 1) / 2))
    else heap

def upHeap (heap : List κ) : List κ := upHeapFrom due heap.length (heap.length - 1) heap

/-- The loop of `downHeap`, for so many turns; every turn goes to a child. -/
def downHeapFrom : (turns current : Nat) → List κ → List κ
  | 0, _, heap => heap
  | turns + 1, current, heap =>
    let child := 2 * current + 1
    if child < heap.length then
      let child := if child + 1 < heap.length ∧ before due heap (child + 1) child then child + 1 else child
      if before due heap current child then heap
      else downHeapFrom turns child (swap heap current child)
    else heap

def downHeap (pos : Nat) (heap : List κ) : List κ := downHeapFrom due heap.length pos heap

def insert (task : κ) (heap : List κ) : List κ := upHeap due (heap ++ [task])

def remove (pos : Nat) (heap : List κ) : List κ :=
  match heap.getLast? with
  | some back => if pos < heap.length then downHeap due pos (heap.set pos back).dropLast else heap
  | none => heap

/-- No position is `-1`, which is past the end of every heap. -/
def find [DecidableEq κ] (task : κ) (heap : List κ) : Option Nat := heap.findIdx? (· = task)

def removeTask [DecidableEq κ] (task : κ) (heap : List κ) : List κ :=
  match find task heap with
  | some pos => remove due pos heap
  | none => heap

/-- The loop of `deleteIfCancelled`, for so many turns: the number of tasks that it removes, and the others. -/
def deleteFrom (cancelled : κ → Bool) : (turns i : Nat) → List κ → Nat × List κ
  | 0, _, heap => (0, heap)
  | turns + 1, i, heap =>
    match heap[i]? with
    | none => (0, heap)
    | some task =>
      if cancelled task then
        let (result, heap) := deleteFrom cancelled turns i (remove due i heap)
        (result + 1, heap)
      else deleteFrom cancelled turns (i + 1) heap

def deleteIfCancelled (cancelled : κ → Bool) (heap : List κ) : Nat × List κ :=
  deleteFrom due cancelled heap.length 0 heap

/-! ### The tasks of the heap -/

variable {due}

def byDue (due : κ → Int) (task other : κ) : Bool := due task < due other

theorem upHeapFrom_eq (turns current : Nat) (heap : List κ) :
    upHeapFrom due turns current heap = Heap.siftUpFrom (byDue due) turns current heap := by
  induction turns generalizing current heap with
  | zero => rfl
  | succ turns ih =>
    rw [upHeapFrom, Heap.siftUpFrom, ← ih]
    rfl

theorem downHeapFrom_eq (turns current : Nat) (heap : List κ) :
    downHeapFrom due turns current heap = Heap.siftDownFrom (byDue due) turns current heap := by
  induction turns generalizing current heap with
  | zero => rfl
  | succ turns ih =>
    rw [downHeapFrom, Heap.siftDownFrom, ← ih]
    rfl

theorem insert_eq (task : κ) (heap : List κ) : insert due task heap = Heap.insert (byDue due) task heap :=
  upHeapFrom_eq _ _ _

theorem remove_eq (pos : Nat) (heap : List κ) : remove due pos heap = Heap.removeAt (byDue due) pos heap := by
  unfold remove Heap.removeAt
  cases heap.getLast? with
  | none => rfl
  | some back =>
    dsimp only
    rw [downHeap, downHeapFrom_eq, Heap.siftDown]

theorem insert_perm (task : κ) (heap : List κ) : (insert due task heap).Perm (task :: heap) := by
  rw [insert_eq]
  exact Heap.insert_perm task heap

/-- The last task takes the place of the one that is removed. -/
theorem remove_perm (pos : Nat) (heap : List κ) : (remove due pos heap).Perm (heap.eraseIdx pos) := by
  rw [remove_eq]
  exact Heap.removeAt_perm pos heap

theorem remove_subperm (pos : Nat) (heap : List κ) : (remove due pos heap).Subperm heap :=
  (remove_perm pos heap).subperm.trans (List.eraseIdx_sublist heap pos).subperm

theorem removeTask_subperm [DecidableEq κ] (task : κ) (heap : List κ) : (removeTask due task heap).Subperm heap := by
  rw [removeTask]
  split
  · exact remove_subperm _ heap
  · exact List.Subperm.refl heap

theorem deleteFrom_subperm (cancelled : κ → Bool) (turns i : Nat) (heap : List κ) :
    (deleteFrom due cancelled turns i heap).2.Subperm heap := by
  induction turns generalizing i heap with
  | zero => exact List.Subperm.refl heap
  | succ turns ih =>
    rw [deleteFrom]
    split
    · exact List.Subperm.refl heap
    · split_ifs
      · exact (ih i _).trans (remove_subperm i heap)
      · exact ih (i + 1) heap

theorem deleteIfCancelled_subperm (cancelled : κ → Bool) (heap : List κ) :
    (deleteIfCancelled due cancelled heap).2.Subperm heap :=
  deleteFrom_subperm cancelled _ 0 heap

theorem nodup_of_subperm {heap heap' : List κ} (h : heap'.Subperm heap) (hheap : heap.Nodup) : heap'.Nodup := by
  obtain ⟨middle, hperm, hsub⟩ := h
  exact hperm.nodup_iff.mp (hheap.sublist hsub)

end ActiveMQCpp.Decaf.TimerTaskHeap
