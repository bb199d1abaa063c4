import ActiveMQCpp.CoreMessageAudit
import ActiveMQCpp.StompIdentity

/-! The generators of a process share one kernel, which numbers their seeds: no id is made twice. -/

namespace ActiveMQCpp.Stomp.IdGenerator

open Core.Audit Decaf Function List Long

variable {ι : Type} {kernel : IdGeneratorKernel} {generators : ι → IdGenerator}
variable {m n : Int} {s s' : ByteString}

/-- The ids that the generators make when they take turns in this order. -/
def generateAll [DecidableEq ι] (kernel : IdGeneratorKernel) (generators : ι → IdGenerator) :
    List ι → List ByteString
  | [] => []
  | i :: turns =>
    let (id, next, generator) := generateId (kernel, generators i)
    id :: generateAll next (update generators i generator) turns

/-- A seed of the kernel by its number. -/
def Numbered (n : Int) (seed : ByteString) : Prop :=
  0 ≤ n ∧ ∃ front, seed = front ++ 45 :: Long.toString n ++ [58]

theorem dash_notMem_toString (h : 0 ≤ n) : (45 : UInt8) ∉ Long.toString n := by
  rw [Long.toString, if_neg (not_lt.mpr h)]
  exact fun hmem => absurd (mem_digits hmem).1 (by decide)

theorem Numbered.unique (hn : Numbered n s) (hm : Numbered m s) : n = m := by
  obtain ⟨hn, front, rfl⟩ := hn
  obtain ⟨hm, front', heq⟩ := hm
  have hsplit := append_cons_inj_last (dash_notMem_toString hn) (dash_notMem_toString hm) (append_cancel_right heq)
  exact Core.Audit.toString_injective hsplit.2

theorem Numbered.ne_nil (h : Numbered n s) : s ≠ [] := by
  obtain ⟨-, front, rfl⟩ := h
  exact concat_ne_nil _ _

/-- An id tells its seed and its sequence number. -/
theorem Numbered.append_inj (hs : Numbered n s) (hs' : Numbered m s') {k k' : Int}
    (h : s ++ Long.toString k = s' ++ Long.toString k') : s = s' ∧ k = k' := by
  obtain ⟨-, front, rfl⟩ := hs
  obtain ⟨-, front', rfl⟩ := hs'
  rw [append_assoc, append_assoc _ [58], singleton_append, singleton_append] at h
  obtain ⟨hfront, hnumber⟩ := append_cons_inj_last (colon_notMem_toString k) (colon_notMem_toString k') h
  exact ⟨congrArg (· ++ [58]) hfront, Core.Audit.toString_injective hnumber⟩

/-- Every seed has a number that has been counted, and no two generators have the same one. -/
structure Counted (kernel : IdGeneratorKernel) (generators : ι → IdGenerator) : Prop where
  count : 0 ≤ kernel.instanceCount
  stub : ∃ front, kernel.uniqueStub = front ++ [45]
  numbered : ∀ i, (generators i).seed ≠ [] → ∃ n < kernel.instanceCount, Numbered n (generators i).seed
  apart : ∀ i j, (generators i).seed ≠ [] → (generators i).seed = (generators j).seed → i = j

theorem Counted.newSeed (h : Counted kernel generators) (generator : IdGenerator) :
    Numbered kernel.instanceCount (newSeed kernel generator) := by
  obtain ⟨front, hstub⟩ := h.stub
  refine ⟨h.count, (if generator.start = [] then ascii "ID:" ++ kernel.hostname else generator.start) ++ front, ?_⟩
  rw [IdGenerator.newSeed, hstub]
  simp only [append_assoc, singleton_append]

variable [DecidableEq ι]

/-- A generator that has no seed gets one that no other has, and then goes on counting. -/
theorem Counted.generate (h : Counted kernel generators) (i : ι) :
    ∃ n next generator, Numbered n generator.seed ∧ generator.sequence = (generators i).sequence + 1 ∧
      generateId (kernel, generators i) =
        (generator.seed ++ Long.toString (generators i).sequence, next, generator) ∧
      Counted next (update generators i generator) ∧ (∀ j, (generators j).seed = generator.seed → j = i) ∧
      ((generators i).seed ≠ [] → (generators i).seed = generator.seed) := by
  by_cases hfresh : (generators i).seed = []
  · have hnew := h.newSeed (generators i)
    have hother : ∀ j, (generators j).seed ≠ IdGenerator.newSeed kernel (generators i) := by
      intro j hj
      obtain ⟨n, hlt, hn⟩ := h.numbered j (hj ▸ hnew.ne_nil)
      exact hlt.ne (hn.unique (hj ▸ hnew))
    refine ⟨_, _, { generators i with seed := _, sequence := _ }, hnew, rfl, generateId_fresh hfresh,
      ⟨Int.add_nonneg h.count Int.one_nonneg, h.stub, ?_, ?_⟩, fun j hj => absurd hj (hother j), absurd hfresh⟩
    · intro j hj
      by_cases heq : j = i
      · rw [heq, update_self]
        exact ⟨_, Int.lt_succ _, hnew⟩
      · rw [update_of_ne heq] at hj ⊢
        obtain ⟨n, hlt, hn⟩ := h.numbered j hj
        exact ⟨n, hlt.trans (Int.lt_succ _), hn⟩
    · intro j k hj hjk
      by_cases hji : j = i <;> by_cases hki : k = i
      · exact hji.trans hki.symm
      · rw [hji, update_self, update_of_ne hki] at hjk
        exact absurd hjk.symm (hother k)
      · rw [hki, update_self, update_of_ne hji] at hjk
        exact absurd hjk (hother j)
      · rw [update_of_ne hji] at hj hjk
        rw [update_of_ne hki] at hjk
        exact h.apart j k hj hjk
  · obtain ⟨n, -, hn⟩ := h.numbered i hfresh
    have hkept : ∀ j, (update generators i { generators i with sequence := (generators i).sequence + 1 } j).seed =
        (generators j).seed := by
      intro j
      by_cases heq : j = i
      · rw [heq, update_self]
      · rw [update_of_ne heq]
    refine ⟨n, _, { generators i with sequence := (generators i).sequence + 1 }, hn, rfl, generateId_seeded hfresh,
      ⟨h.count, h.stub, ?_, ?_⟩, fun j hj => (h.apart i j hfresh hj.symm).symm, fun _ => rfl⟩
    · intro j
      rw [hkept]
      exact h.numbered j
    · intro j k
      rw [hkept, hkept]
      exact h.apart j k

/-- What a generator has made before is not made again. -/
theorem Counted.notMem_generateAll (h : Counted kernel generators) {i : ι} (hseed : (generators i).seed ≠ [])
    (hm : m < (generators i).sequence) (turns : List ι) :
    (generators i).seed ++ Long.toString m ∉ generateAll kernel generators turns := by
  induction turns generalizing kernel generators with
  | nil => exact not_mem_nil
  | cons j turns ih =>
    obtain ⟨n, next, generator, hnumbered, hsequence, hgenerate, hnext, hother, hown⟩ := h.generate j
    obtain ⟨k, -, hk⟩ := h.numbered i hseed
    rw [generateAll, hgenerate, mem_cons, not_or]
    constructor
    · intro heq
      obtain ⟨hsame, rfl⟩ := hk.append_inj hnumbered heq
      exact lt_irrefl _ (hother i hsame ▸ hm)
    · have hrest := ih hnext
      by_cases heq : i = j
      · subst heq
        rw [update_self, hsequence] at hrest
        rw [hown hseed]
        exact hrest hnumbered.ne_nil (hm.trans (Int.lt_succ _))
      · rw [update_of_ne heq] at hrest
        exact hrest hseed hm

theorem Counted.nodup (h : Counted kernel generators) (turns : List ι) :
    (generateAll kernel generators turns).Nodup := by
  induction turns generalizing kernel generators with
  | nil => exact nodup_nil
  | cons i turns ih =>
    obtain ⟨n, next, generator, hnumbered, hsequence, hgenerate, hnext, -⟩ := h.generate i
    have hmade := hnext.notMem_generateAll (i := i) (m := (generators i).sequence)
    rw [update_self, hsequence] at hmade
    rw [generateAll, hgenerate, nodup_cons]
    exact ⟨hmade hnumbered.ne_nil (Int.lt_succ _) turns, ih hnext⟩

/-- In whatever order the generators of a process take turns, and whatever they start with, no id is made twice. -/
theorem ids_unique (host : Option (ByteString × Int)) (currentTimeMillis : Int) (starts : ι → ByteString)
    (turns : List ι) : (generateAll (.new host currentTimeMillis) (fun i => { start := starts i }) turns).Nodup := by
  refine Counted.nodup ⟨?_, ?_, fun i hseed => absurd rfl hseed, fun i j hseed => absurd rfl hseed⟩ turns
  · cases host <;> exact le_refl _
  · cases host <;> exact ⟨_, rfl⟩

end ActiveMQCpp.Stomp.IdGenerator
