import Mathlib.Algebra.GroupWithZero.Nat
import Mathlib.Order.Lattice
import Mathlib.Data.List.Lex

/-! Maps kept as lists of entries in strictly increasing key order. Keys come from a linear order. The operations on
raw entry lists are for values that contain maps of their own type; everything else uses `OrderedMap`, which carries
the order of its entries. -/

namespace ActiveMQCpp

open List

/-- `std::string` keys are compared byte by byte, as unsigned characters. -/
instance instLinearOrderUInt8 : LinearOrder UInt8 :=
  LinearOrder.lift' UInt8.toNat fun _ _ h => UInt8.toNat_inj.mp h

namespace OrderedMap

variable {κ ν : Type} [LinearOrder κ]
variable {entries : List (κ × ν)} {k : κ}
variable {v : ν}

def put (k : κ) (v : ν) : List (κ × ν) → List (κ × ν)
  | [] => [(k, v)]
  | (k', v') :: entries =>
    if k < k' then (k, v) :: (k', v') :: entries
    else if k = k' then (k, v) :: entries
    else (k', v') :: put k v entries

/-- The entries are in strictly increasing key order. -/
def Sorted (entries : List (κ × ν)) : Prop := entries.Pairwise fun e e' => e.1 < e'.1

theorem sorted_nil : Sorted ([] : List (κ × ν)) := List.Pairwise.nil

theorem put_of_lt (v : ν) (h : ∀ e ∈ entries, e.1 < k) : put k v entries = entries ++ [(k, v)] := by
  induction entries with
  | nil => rfl
  | cons e entries ih =>
    have hlt := h e mem_cons_self
    rw [put, if_neg (not_lt_of_gt hlt), if_neg (ne_of_gt hlt),
      ih fun e' he' => h e' (mem_cons_of_mem _ he'), cons_append]

theorem foldl_put {done : List (κ × ν)} (h : Sorted (done ++ entries)) :
    entries.foldl (fun map e => put e.1 e.2 map) done = done ++ entries := by
  induction entries generalizing done with
  | nil => rw [foldl_nil, append_nil]
  | cons e entries ih =>
    have hlt : ∀ e' ∈ done, e'.1 < e.1 := by
      intro e' he'
      exact (pairwise_append.mp h).2.2 e' he' e mem_cons_self
    rw [foldl_cons, put_of_lt e.2 hlt, ih (by rwa [append_assoc]), append_assoc]
    rfl

theorem length_put_le (k : κ) (v : ν) (entries : List (κ × ν)) : (put k v entries).length ≤ entries.length + 1 := by
  induction entries with
  | nil => exact le_refl _
  | cons e entries ih =>
    rw [put]
    split_ifs
    · exact le_refl _
    · exact Nat.le_succ _
    · exact Nat.succ_le_succ ih

theorem sum_map_put_le (weight : κ × ν → Nat) (k : κ) (v : ν) (entries : List (κ × ν)) :
    ((put k v entries).map weight).sum ≤ weight (k, v) + (entries.map weight).sum := by
  induction entries with
  | nil => exact le_refl _
  | cons e entries ih =>
    obtain ⟨k', v'⟩ := e
    rw [put]
    split_ifs
    · exact le_refl _
    · simp only [map_cons, sum_cons]
      omega
    · simp only [map_cons, sum_cons]
      omega

theorem mem_put {e : κ × ν} (h : e ∈ put k v entries) : e = (k, v) ∨ e ∈ entries := by
  induction entries with
  | nil => exact .inl (mem_singleton.mp h)
  | cons e' entries ih =>
    rw [put] at h
    split_ifs at h
    · exact mem_cons.mp h
    · rcases mem_cons.mp h with heq | hmem
      · exact .inl heq
      · exact .inr (mem_cons_of_mem _ hmem)
    · rcases mem_cons.mp h with heq | hmem
      · exact .inr (by rw [heq]; exact mem_cons_self)
      · rcases ih hmem with heq | hold
        · exact .inl heq
        · exact .inr (mem_cons_of_mem _ hold)

theorem sorted_put (k : κ) (v : ν) (h : Sorted entries) : Sorted (put k v entries) := by
  induction entries with
  | nil => exact pairwise_singleton _ _
  | cons e entries ih =>
    obtain ⟨hhead, htail⟩ := pairwise_cons.mp h
    rw [put]
    split_ifs with hlt heq
    · refine pairwise_cons.mpr ⟨?_, h⟩
      intro e' he'
      rcases mem_cons.mp he' with rfl | hmem
      · exact hlt
      · exact lt_trans hlt (hhead e' hmem)
    · refine pairwise_cons.mpr ⟨?_, htail⟩
      intro e' he'
      rw [heq]
      exact hhead e' he'
    · refine pairwise_cons.mpr ⟨?_, ih htail⟩
      intro e' he'
      rcases mem_put he' with rfl | hmem
      · exact lt_of_le_of_ne (not_lt.mp hlt) (Ne.symm heq)
      · exact hhead e' hmem

theorem value_unique (h : Sorted entries) {v' : ν} (hv : (k, v) ∈ entries) (hv' : (k, v') ∈ entries) : v = v' := by
  induction entries with
  | nil => cases hv
  | cons e entries ih =>
    obtain ⟨hhead, htail⟩ := pairwise_cons.mp h
    rcases mem_cons.mp hv with rfl | hmem
    · rcases mem_cons.mp hv' with heq | hmem'
      · cases heq
        rfl
      · exact absurd (hhead _ hmem') (lt_irrefl k)
    · rcases mem_cons.mp hv' with rfl | hmem'
      · exact absurd (hhead _ hmem) (lt_irrefl k)
      · exact ih htail hmem hmem'

end OrderedMap

/-- A `std::map`. -/
structure OrderedMap (κ ν : Type) [LinearOrder κ] where
  entries : List (κ × ν)
  sorted : OrderedMap.Sorted entries

namespace OrderedMap

variable {κ ν : Type} [LinearOrder κ]
variable {m : OrderedMap κ ν} {k : κ} {v : ν} {entries : List (κ × ν)} {μ : Type} {f : κ → Option ν}
variable {m' : OrderedMap κ ν}

def empty : OrderedMap κ ν := ⟨[], sorted_nil⟩

def find (m : OrderedMap κ ν) (k : κ) : Option ν :=
  (m.entries.find? fun e => e.1 = k).map Prod.snd

def insert (m : OrderedMap κ ν) (k : κ) (v : ν) : OrderedMap κ ν :=
  ⟨put k v m.entries, sorted_put k v m.sorted⟩

def erase (m : OrderedMap κ ν) (k : κ) : OrderedMap κ ν :=
  ⟨m.entries.filter fun e => e.1 ≠ k, m.sorted.filter _⟩

def map {μ : Type} (f : ν → μ) (m : OrderedMap κ ν) : OrderedMap κ μ :=
  ⟨m.entries.map (Prod.map id f), List.pairwise_map.mpr m.sorted⟩

def modify (m : OrderedMap κ ν) (k : κ) (f : ν → ν) : OrderedMap κ ν :=
  match m.find k with
  | some v => m.insert k (f v)
  | none => m

def values (m : OrderedMap κ ν) : List ν := m.entries.map Prod.snd

theorem find_eq_some : m.find k = some v ↔ (k, v) ∈ m.entries := by
  rw [find, Option.map_eq_some_iff]
  constructor
  · rintro ⟨e, he, rfl⟩
    have hkey := List.find?_some he
    rw [← of_decide_eq_true hkey]
    exact mem_of_find?_eq_some he
  · intro hmem
    cases hfind : m.entries.find? fun e => e.1 = k with
    | none =>
      have hno := List.find?_eq_none.mp hfind (k, v) hmem
      exact absurd (decide_eq_true rfl) hno
    | some e =>
      have hdec := List.find?_some hfind
      have hkey : e.1 = k := of_decide_eq_true hdec
      refine ⟨e, rfl, ?_⟩
      have he : (k, e.2) ∈ m.entries := by
        rw [← hkey]
        exact mem_of_find?_eq_some hfind
      exact value_unique m.sorted he hmem

@[simp] theorem find_empty (k : κ) : (empty : OrderedMap κ ν).find k = none := rfl

theorem mem_put_self (k : κ) (v : ν) (entries : List (κ × ν)) : (k, v) ∈ put k v entries := by
  induction entries with
  | nil => exact mem_cons_self
  | cons e entries ih =>
    rw [put]
    split_ifs
    · exact mem_cons_self
    · exact mem_cons_self
    · exact mem_cons_of_mem _ ih

theorem mem_put_of_ne {e : κ × ν} (hne : e.1 ≠ k) (h : e ∈ entries) : e ∈ put k v entries := by
  induction entries with
  | nil => cases h
  | cons e' entries ih =>
    rw [put]
    split_ifs with hlt heq
    · exact mem_cons_of_mem _ h
    · rcases mem_cons.mp h with rfl | hmem
      · exact absurd heq.symm hne
      · exact mem_cons_of_mem _ hmem
    · rcases mem_cons.mp h with rfl | hmem
      · exact mem_cons_self
      · exact mem_cons_of_mem _ (ih hmem)

@[simp] theorem find_insert (m : OrderedMap κ ν) (k k' : κ) (v : ν) :
    (m.insert k v).find k' = if k' = k then some v else m.find k' := by
  split_ifs with heq
  · rw [heq]
    exact find_eq_some.mpr (mem_put_self k v m.entries)
  · ext v'
    rw [find_eq_some, find_eq_some]
    constructor
    · intro hmem
      rcases mem_put hmem with hnew | hold
      · cases hnew
        exact absurd rfl heq
      · exact hold
    · exact mem_put_of_ne heq

@[simp] theorem find_erase (m : OrderedMap κ ν) (k k' : κ) :
    (m.erase k).find k' = if k' = k then none else m.find k' := by
  ext v
  rw [find_eq_some]
  split_ifs with heq
  · simp [erase, heq]
  · simp [erase, heq, find_eq_some]

@[simp] theorem find_map (f : ν → μ) (m : OrderedMap κ ν) (k : κ) : (m.map f).find k = (m.find k).map f := by
  ext v
  rw [find_eq_some, Option.map_eq_some_iff]
  simp only [map, mem_map, find_eq_some]
  constructor
  · rintro ⟨e, he, heq⟩
    cases heq
    exact ⟨e.2, he, rfl⟩
  · rintro ⟨v', hmem, rfl⟩
    exact ⟨(k, v'), hmem, rfl⟩

@[simp] theorem find_modify (m : OrderedMap κ ν) (k k' : κ) (f : ν → ν) :
    (m.modify k f).find k' = if k' = k then (m.find k').map f else m.find k' := by
  rw [modify]
  cases hk : m.find k with
  | none =>
    split_ifs with heq
    · rw [heq, hk]
      rfl
    · rfl
  | some v =>
    rw [find_insert]
    split_ifs with heq
    · rw [heq, hk]
      rfl
    · rfl

theorem mem_values : v ∈ m.values ↔ ∃ k, m.find k = some v := by
  rw [values, mem_map]
  constructor
  · rintro ⟨e, he, rfl⟩
    exact ⟨e.1, find_eq_some.mpr he⟩
  · rintro ⟨k, hk⟩
    exact ⟨(k, v), find_eq_some.mp hk, rfl⟩

/-! ### Enumerations -/

/-- The entries list the values of a partial function once each, in the order of their keys. -/
def Enumerates (entries : List (κ × ν)) (f : κ → Option ν) : Prop :=
  Sorted entries ∧ ∀ k v, (k, v) ∈ entries ↔ f k = some v

theorem enumerates_entries (m : OrderedMap κ ν) : Enumerates m.entries m.find :=
  ⟨m.sorted, fun _ _ => find_eq_some.symm⟩

theorem enumerates_nil (h : ∀ k, f k = none) : Enumerates [] f := by
  refine ⟨sorted_nil, ?_⟩
  intro k v
  rw [h k]
  exact ⟨fun hmem => (not_mem_nil hmem).elim, fun hnone => by cases hnone⟩

theorem Enumerates.congr {g : κ → Option ν} (h : Enumerates entries f)
    (hfg : ∀ k, f k = g k) : Enumerates entries g := by
  rwa [← funext hfg]

theorem Enumerates.unique {entries' : List (κ × ν)} (h : Enumerates entries f)
    (h' : Enumerates entries' f) : entries = entries' := by
  have hnodup : ∀ {l : List (κ × ν)}, Sorted l → l.Nodup :=
    fun hsorted => hsorted.imp fun hlt heq => absurd (congrArg Prod.fst heq) (ne_of_lt hlt)
  have hperm : entries.Perm entries' := by
    rw [perm_ext_iff_of_nodup (hnodup h.1) (hnodup h'.1)]
    rintro ⟨k, v⟩
    rw [h.2 k v, h'.2 k v]
  exact hperm.eq_of_pairwise (fun a b _ _ hab hba => absurd hba (lt_asymm hab)) h.1 h'.1

theorem ext_find (h : ∀ k, m.find k = m'.find k) : m = m' := by
  have hentries := ((enumerates_entries m).congr h).unique (enumerates_entries m')
  cases m
  cases m'
  simp only [mk.injEq]
  exact hentries

theorem entries_inj : m.entries = m'.entries ↔ m = m' :=
  ⟨fun h => ext_find fun k => by rw [find, find, h], fun h => by rw [h]⟩

theorem eq_empty (h : m.entries = []) : m = empty := entries_inj.mp h

theorem insert_find_self (h : m.find k = some v) : m.insert k v = m := by
  apply ext_find
  intro k'
  rw [find_insert]
  split_ifs with hk
  · rw [hk, h]
  · rfl

theorem erase_of_find_none (h : m.find k = none) : m.erase k = m := by
  apply ext_find
  intro k'
  rw [find_erase]
  split_ifs with hk
  · rw [hk, h]
  · rfl

instance [DecidableEq ν] : DecidableEq (OrderedMap κ ν) := fun m m' =>
  decidable_of_iff (m.entries = m'.entries) entries_inj

/-- The entries of another map, which take the place of those with the same keys. -/
def putAll (m other : OrderedMap κ ν) : OrderedMap κ ν := other.entries.foldl (fun m e => m.insert e.1 e.2) m

theorem find_foldl_insert (h : Sorted entries) (m : OrderedMap κ ν) (k : κ) :
    (entries.foldl (fun m e => m.insert e.1 e.2) m).find k =
      ((entries.find? fun e => e.1 = k).map Prod.snd).or (m.find k) := by
  induction entries generalizing m with
  | nil => rfl
  | cons e entries ih =>
    obtain ⟨hhead, htail⟩ := pairwise_cons.mp h
    rw [foldl_cons, ih htail, find_insert, List.find?_cons]
    by_cases hk : e.1 = k
    · have hrest : (entries.find? fun e => e.1 = k) = none := by
        rw [List.find?_eq_none]
        intro e' he' hkey
        exact ne_of_gt (hhead e' he') ((of_decide_eq_true hkey).trans hk.symm)
      rw [hrest, decide_eq_true hk, if_pos hk.symm]
      rfl
    · rw [decide_eq_false hk, if_neg (Ne.symm hk)]

theorem find_putAll (m other : OrderedMap κ ν) (k : κ) : (m.putAll other).find k = (other.find k).or (m.find k) :=
  find_foldl_insert other.sorted m k

theorem putAll_self (m : OrderedMap κ ν) : m.putAll m = m := by
  apply ext_find
  intro k
  rw [find_putAll]
  cases m.find k <;> rfl

theorem empty_putAll (m : OrderedMap κ ν) : (empty : OrderedMap κ ν).putAll m = m := by
  apply ext_find
  intro k
  rw [find_putAll, find_empty, Option.or_none]

theorem erase_insert_of_find_none (v : ν) (h : m.find k = none) : (m.insert k v).erase k = m := by
  refine ext_find fun k' => ?_
  by_cases hk : k' = k
  · subst hk
    simp [h]
  · simp [hk]

theorem Enumerates.filterMap (h : Enumerates entries f) (g : ν → Option μ) :
    Enumerates (entries.filterMap fun e => (g e.2).map (e.1, ·)) fun k => (f k).bind g := by
  constructor
  · apply List.Pairwise.filterMap _ _ h.1
    intro e e' hlt b hb b' hb'
    obtain ⟨_, _, rfl⟩ := Option.map_eq_some_iff.mp hb
    obtain ⟨_, _, rfl⟩ := Option.map_eq_some_iff.mp hb'
    exact hlt
  · intro k w
    rw [mem_filterMap, Option.bind_eq_some_iff]
    constructor
    · rintro ⟨e, he, hmap⟩
      obtain ⟨w', hw', heq⟩ := Option.map_eq_some_iff.mp hmap
      cases heq
      exact ⟨e.2, (h.2 e.1 e.2).mp he, hw'⟩
    · rintro ⟨v, hv, hw⟩
      exact ⟨(k, v), (h.2 k v).mpr hv, by rw [hw]; rfl⟩

theorem Enumerates.map (h : Enumerates entries f)
    (g : ν → μ) : Enumerates (entries.map (Prod.map id g)) fun k => (f k).map g := by
  have hmap : entries.map (Prod.map id g) = entries.filterMap fun e => (some (g e.2)).map (e.1, ·) := by
    rw [← filterMap_eq_map]
    rfl
  rw [hmap]
  exact (h.filterMap fun v => some (g v)).congr fun k => by cases f k <;> rfl

end OrderedMap

end ActiveMQCpp
