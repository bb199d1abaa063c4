import Mathlib.Data.List.Basic

/-! `LinkedHashMap`: the entries of a hash map on a chain that runs from the eldest entry (the head) to the
youngest (the tail). -/

namespace ActiveMQCpp.Decaf.LinkedHashMap

open List

variable {κ ν : Type} [DecidableEq κ]

def containsKey (k : κ) (entries : List (κ × ν)) : Bool := entries.any fun e => e.1 = k

def lookup (k : κ) (entries : List (κ × ν)) : Option ν := (entries.find? fun e => e.1 = k).map Prod.snd

def replace (k : κ) (v : ν) (entries : List (κ × ν)) : List (κ × ν) :=
  entries.map fun e => if e.1 = k then (k, v) else e

/-- `putImpl`: a new entry is linked at the tail; an existing one keeps its place, but for access order, where only new
keys are put. -/
def putImpl (k : κ) (v : ν) (entries : List (κ × ν)) : List (κ × ν) :=
  if containsKey k entries then replace k v entries else entries ++ [(k, v)]

/-- `getEntry`: in access order the entry found moves to the tail. -/
def touch (accessOrder : Bool) (k : κ) (entries : List (κ × ν)) : List (κ × ν) :=
  if accessOrder then
    match lookup k entries with
    | some v => entries.filter (fun e => e.1 ≠ k) ++ [(k, v)]
    | none => entries
  else entries

/-- What `put` does after `putImpl` when `removeEldestEntry` compares with a maximum: the head goes. -/
def evict (maxCacheSize : Nat) (entries : List (κ × ν)) : List (κ × ν) :=
  if entries.length > maxCacheSize then entries.tail else entries

/-! ### Lookups -/

variable {k k' : κ} {v : ν} {entries : List (κ × ν)}

@[simp] theorem lookup_nil : lookup k ([] : List (κ × ν)) = none := rfl

theorem lookup_cons (e : κ × ν) : lookup k (e :: entries) = if e.1 = k then some e.2 else lookup k entries := by
  rw [lookup, List.find?_cons]
  split_ifs with heq
  · rw [decide_eq_true heq]
    rfl
  · rw [decide_eq_false heq]
    rfl

theorem lookup_eq_none : lookup k entries = none ↔ k ∉ entries.map Prod.fst := by
  rw [lookup, Option.map_eq_none_iff, List.find?_eq_none, mem_map]
  constructor
  · rintro hnone ⟨e, he, rfl⟩
    exact hnone e he (decide_eq_true rfl)
  · intro hnot e he heq
    exact hnot ⟨e, he, of_decide_eq_true heq⟩

theorem containsKey_iff : containsKey k entries = true ↔ k ∈ entries.map Prod.fst := by
  simp [containsKey]

theorem lookup_append_single (hnew : lookup k entries = none) :
    lookup k' (entries ++ [(k, v)]) = if k' = k then some v else lookup k' entries := by
  induction entries with
  | nil => simp only [nil_append, lookup_cons, lookup_nil, eq_comm]
  | cons e entries ih =>
    rw [lookup_cons] at hnew
    split_ifs at hnew with he
    rw [cons_append, lookup_cons, lookup_cons, ih hnew]
    by_cases hk : k' = k
    · subst hk
      rw [if_neg he, if_pos rfl, if_pos rfl]
    · rw [if_neg hk, if_neg hk]

theorem lookup_filter_ne : lookup k' (entries.filter fun e => e.1 ≠ k) = if k' = k then none else lookup k' entries := by
  induction entries with
  | nil => simp
  | cons e entries ih =>
    by_cases he : e.1 = k
    · rw [filter_cons_of_neg (by simpa using he), ih, lookup_cons]
      by_cases hk : k' = k
      · rw [if_pos hk, if_pos hk]
      · rw [if_neg hk, if_neg hk, if_neg fun h => hk (h.symm.trans he)]
    · rw [filter_cons_of_pos (by simpa using he), lookup_cons, lookup_cons, ih]
      by_cases hk : k' = k
      · subst hk
        rw [if_neg he, if_pos rfl, if_pos rfl]
      · rw [if_neg hk, if_neg hk]

@[simp] theorem lookup_touch (accessOrder : Bool) : lookup k' (touch accessOrder k entries) = lookup k' entries := by
  rw [touch]
  cases accessOrder with
  | false => rfl
  | true =>
    cases hfound : lookup k entries with
    | none => simp
    | some v =>
      simp only [if_true]
      rw [lookup_append_single (by rw [lookup_filter_ne, if_pos rfl]), lookup_filter_ne]
      split_ifs with hk
      · rw [hk, hfound]
      · rfl

theorem putImpl_of_lookup_none (h : lookup k entries = none) : putImpl k v entries = entries ++ [(k, v)] :=
  if_neg fun hkey => lookup_eq_none.mp h (containsKey_iff.mp hkey)

theorem lookup_replace :
    lookup k' (replace k v entries) = if k' = k then (lookup k entries).map fun _ => v else lookup k' entries := by
  induction entries with
  | nil => simp [replace]
  | cons e entries ih =>
    rw [replace, map_cons, ← replace, lookup_cons, lookup_cons, lookup_cons, ih]
    by_cases he : e.1 = k
    · by_cases hk : k' = k
      · simp [he, hk]
      · simp [he, hk, Ne.symm hk]
    · by_cases hk : k' = k
      · simp [he, hk]
      · simp [he, hk]

theorem lookup_putImpl : lookup k' (putImpl k v entries) = if k' = k then some v else lookup k' entries := by
  by_cases hkey : containsKey k entries = true
  · have hfound : lookup k entries ≠ none := fun hnone => lookup_eq_none.mp hnone (containsKey_iff.mp hkey)
    obtain ⟨old, hold⟩ := Option.ne_none_iff_exists'.mp hfound
    have hreplace : putImpl k v entries = replace k v entries := by
      rw [putImpl, if_pos hkey]
    rw [hreplace, lookup_replace, hold]
    rfl
  · have hnone := lookup_eq_none.mpr fun hmem => hkey (containsKey_iff.mpr hmem)
    rw [putImpl_of_lookup_none hnone, lookup_append_single hnone]

/-! ### Keys -/

theorem keys_replace : (replace k v entries).map Prod.fst = entries.map Prod.fst := by
  rw [replace, map_map]
  apply map_congr_left
  intro e _
  show (if e.1 = k then (k, v) else e).1 = e.1
  split_ifs with he
  · exact he.symm
  · rfl

omit [DecidableEq κ] in
theorem nodup_append_single (hnodup : (entries.map Prod.fst).Nodup) (hnew : k ∉ entries.map Prod.fst) :
    ((entries ++ [(k, v)]).map Prod.fst).Nodup := by
  rw [map_append, nodup_append]
  refine ⟨hnodup, pairwise_singleton _ _, ?_⟩
  intro a ha b hb hab
  rw [map_singleton, mem_singleton] at hb
  rw [hab, hb] at ha
  exact hnew ha

theorem nodup_touch (accessOrder : Bool) (hnodup : (entries.map Prod.fst).Nodup) :
    ((touch accessOrder k entries).map Prod.fst).Nodup := by
  rw [touch]
  cases accessOrder with
  | false => exact hnodup
  | true =>
    cases lookup k entries with
    | none => exact hnodup
    | some v =>
      refine nodup_append_single (hnodup.sublist (filter_sublist.map _)) ?_
      rw [← lookup_eq_none, lookup_filter_ne, if_pos rfl]

omit [DecidableEq κ] in
theorem nodup_evict (maxCacheSize : Nat) (hnodup : (entries.map Prod.fst).Nodup) :
    ((evict maxCacheSize entries).map Prod.fst).Nodup := by
  rw [evict]
  split_ifs
  · exact hnodup.sublist ((tail_sublist entries).map _)
  · exact hnodup

theorem lookup_evict (maxCacheSize : Nat) (hnodup : (entries.map Prod.fst).Nodup) :
    lookup k (evict maxCacheSize entries) = none ∨ lookup k (evict maxCacheSize entries) = lookup k entries := by
  rw [evict]
  split_ifs
  · cases entries with
    | nil => exact .inl rfl
    | cons e entries =>
      rw [tail_cons, lookup_cons]
      split_ifs with he
      · rw [map_cons, nodup_cons, he] at hnodup
        exact .inl (lookup_eq_none.mpr hnodup.1)
      · exact .inr rfl
  · exact .inr rfl

theorem lookup_evict_append_single {maxCacheSize : Nat} (hpos : 0 < maxCacheSize) (hnew : lookup k entries = none) :
    lookup k (evict maxCacheSize (entries ++ [(k, v)])) = some v := by
  rw [evict]
  split_ifs with hsize
  · cases entries with
    | nil => exact absurd hsize (Nat.not_lt.mpr hpos)
    | cons e entries =>
      rw [lookup_cons] at hnew
      split_ifs at hnew
      rw [cons_append, tail_cons, lookup_append_single hnew, if_pos rfl]
  · rw [lookup_append_single hnew, if_pos rfl]

end ActiveMQCpp.Decaf.LinkedHashMap
