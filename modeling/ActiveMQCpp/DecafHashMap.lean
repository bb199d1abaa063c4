import Mathlib.Data.List.Perm.Basic
import Mathlib.Data.List.Flatten
import Mathlib.Data.List.GetD
import Mathlib.Data.List.Nodup
import Mathlib.Algebra.Group.Nat.Defs

/-! `decaf::util::HashMap`: chains of entries in an array of buckets that is rebuilt as the map grows. A chain is
the list of its entries; an entry keeps its address, by which iterators refer to it. The hash function and the
threshold that the load factor gives a length are parameters. -/

namespace ActiveMQCpp.Decaf

open List

structure HashMapEntry (κ ν : Type) where
  address : Nat
  key : κ
  value : ν
  origKeyHash : BitVec 32
  deriving DecidableEq

/-- `allocated` is the address of the next new entry. -/
structure HashMap (κ ν : Type) where
  elementData : List (List (HashMapEntry κ ν))
  elementCount : Nat := 0
  modCount : Nat := 0
  threshold : Nat
  allocated : Nat := 0
  deriving DecidableEq

/-- What a constructor fixes: the hash function, and the threshold for a number of buckets. -/
structure HashMapConfig (κ : Type) where
  hashFunc : κ → BitVec 32
  thresholdFor : Nat → Nat

namespace HashMap

variable {κ ν : Type}
variable {data : List (List (HashMapEntry κ ν))}

/-- `hash & (length - 1)`. -/
def indexFor (hash : BitVec 32) (length : Nat) : Nat := (hash &&& BitVec.ofNat 32 (length - 1)).toNat

def calculateCapacity (x : Nat) : Nat :=
  if x ≥ 2 ^ 30 then 2 ^ 30
  else if x = 0 then 16
  else
    let x := x - 1
    let x := x ||| x >>> 1
    let x := x ||| x >>> 2
    let x := x ||| x >>> 4
    let x := x ||| x >>> 8
    let x := x ||| x >>> 16
    x + 1

def new (config : HashMapConfig κ) (capacity : Nat) : HashMap κ ν :=
  { elementData := List.replicate (calculateCapacity capacity) []
    threshold := config.thresholdFor (calculateCapacity capacity) }

/-- An entry becomes the head of the chain of its bucket. -/
def place (data : List (List (HashMapEntry κ ν))) (e : HashMapEntry κ ν) : List (List (HashMapEntry κ ν)) :=
  data.modify (indexFor e.origKeyHash data.length) (e :: ·)

/-- There is no table when `capacity << 1` does not fit an `int`. -/
def rehash (config : HashMapConfig κ) (capacity : Nat) (m : HashMap κ ν) : Option (HashMap κ ν) :=
  if capacity < 2 ^ 30 then
    let length := calculateCapacity (if capacity = 0 then 1 else capacity * 2)
    some { m with
      elementData := m.elementData.flatten.foldl place (List.replicate length [])
      threshold := config.thresholdFor length }
  else none

def setValue (address : Nat) (value : ν) (m : HashMap κ ν) : HashMap κ ν :=
  { m with elementData := m.elementData.map fun chain =>
      chain.map fun e => if e.address = address then { e with value := value } else e }

def chainOf (hash : BitVec 32) (m : HashMap κ ν) : List (HashMapEntry κ ν) :=
  m.elementData.getD (indexFor hash m.elementData.length) []

section Operations

variable [DecidableEq κ] [Inhabited ν] (config : HashMapConfig κ)

def isKeyEntry (key : κ) (hash : BitVec 32) (e : HashMapEntry κ ν) : Bool := e.origKeyHash = hash && key = e.key

def getEntry (key : κ) (m : HashMap κ ν) : Option (HashMapEntry κ ν) :=
  (m.chainOf (config.hashFunc key)).find? (isKeyEntry key (config.hashFunc key))

def createHashedEntry (key : κ) (hash : BitVec 32) (m : HashMap κ ν) : HashMap κ ν :=
  { m with
    elementData := place m.elementData ⟨m.allocated, key, default, hash⟩
    allocated := m.allocated + 1 }

/-- The value replaced, if there was one. The second component of the result is the map, also when the table
could not be enlarged. -/
def putImpl (key : κ) (value : ν) (m : HashMap κ ν) : Option (Option ν) × HashMap κ ν :=
  match m.getEntry config key with
  | some e => (some (some e.value), m.setValue e.address value)
  | none =>
    let created := createHashedEntry key (config.hashFunc key) { m with modCount := m.modCount + 1 }
    let counted := { created with elementCount := created.elementCount + 1 }
    if counted.elementCount > counted.threshold then
      match counted.rehash config counted.elementData.length with
      | some grown => (some none, grown.setValue m.allocated value)
      | none => (none, counted)
    else (some none, counted.setValue m.allocated value)

/-- The loop of `putAllImpl` over the entries of the other map. -/
def putEach : List (κ × ν) → HashMap κ ν → Option Unit × HashMap κ ν
  | [], m => (some (), m)
  | e :: entries, m =>
    match m.putImpl config e.1 e.2 with
    | (some _, m) => putEach entries m
    | (none, m) => (none, m)

def putAll (entries : List (κ × ν)) (m : HashMap κ ν) : Option Unit × HashMap κ ν :=
  if entries.isEmpty then (some (), m)
  else if m.elementCount + entries.length > m.threshold then
    match m.rehash config (m.elementCount + entries.length) with
    | some grown => putEach config entries grown
    | none => (none, m)
  else putEach config entries m

def removeEntry (key : κ) (m : HashMap κ ν) : Option (HashMapEntry κ ν × HashMap κ ν) :=
  match m.getEntry config key with
  | none => none
  | some e =>
    some (e, { m with
      elementData := m.elementData.modify (indexFor (config.hashFunc key) m.elementData.length)
        (List.eraseP (isKeyEntry key (config.hashFunc key)))
      modCount := m.modCount + 1
      elementCount := m.elementCount - 1 })

omit [DecidableEq κ] [Inhabited ν] in
def clear (m : HashMap κ ν) : HashMap κ ν :=
  if m.elementCount > 0 then
    { m with elementCount := 0, elementData := m.elementData.map fun _ => [], modCount := m.modCount + 1 }
  else m

def containsKey (key : κ) (m : HashMap κ ν) : Bool := (m.getEntry config key).isSome

def containsValue [DecidableEq ν] (value : ν) (m : HashMap κ ν) : Bool :=
  m.elementData.any fun chain => chain.any fun e => value = e.value

def get (key : κ) (m : HashMap κ ν) : Option ν := (m.getEntry config key).map HashMapEntry.value

end Operations

/-! ### Well-formed tables -/

def entries (m : HashMap κ ν) : List (HashMapEntry κ ν) := m.elementData.flatten

/-- Every entry is in the bucket of its hash. -/
def Placed (data : List (List (HashMapEntry κ ν))) : Prop :=
  ∀ (i : Nat) (chain : List (HashMapEntry κ ν)), data[i]? = some chain →
    ∀ e ∈ chain, indexFor e.origKeyHash data.length = i

structure Inv (config : HashMapConfig κ) (m : HashMap κ ν) : Prop where
  nonempty : 0 < m.elementData.length
  placed : Placed m.elementData
  hashed : ∀ e ∈ m.entries, e.origKeyHash = config.hashFunc e.key
  keys : (m.entries.map HashMapEntry.key).Nodup
  addresses : (m.entries.map HashMapEntry.address).Nodup
  allocated : ∀ e ∈ m.entries, e.address < m.allocated
  count : m.elementCount = m.entries.length

theorem indexFor_lt (hash : BitVec 32) {length : Nat} (h : 0 < length) : indexFor hash length < length := by
  have hmask : (BitVec.ofNat 32 (length - 1)).toNat ≤ length - 1 := by
    rw [BitVec.toNat_ofNat]
    exact Nat.mod_le _ _
  have hand : indexFor hash length ≤ (BitVec.ofNat 32 (length - 1)).toNat := by
    rw [indexFor, BitVec.toNat_and]
    exact Nat.and_le_right
  omega

theorem calculateCapacity_pos (x : Nat) : 0 < calculateCapacity x := by
  rw [calculateCapacity]
  split_ifs
  · decide
  · decide
  · exact Nat.succ_pos _

theorem mem_entries {m : HashMap κ ν} {e : HashMapEntry κ ν} :
    e ∈ m.entries ↔ ∃ (i : Nat) (chain : List (HashMapEntry κ ν)), m.elementData[i]? = some chain ∧ e ∈ chain := by
  rw [entries, mem_flatten]
  constructor
  · rintro ⟨chain, hchain, he⟩
    obtain ⟨i, hi⟩ := List.getElem?_of_mem hchain
    exact ⟨i, chain, hi, he⟩
  · rintro ⟨i, chain, hi, he⟩
    exact ⟨chain, mem_of_getElem? hi, he⟩

theorem flatten_modify_perm {α : Type} {data : List (List α)} {i : Nat} {chain : List α} (f : List α → List α)
    (hi : data[i]? = some chain) :
    ∃ rest, data.flatten.Perm (chain ++ rest) ∧ (data.modify i f).flatten.Perm (f chain ++ rest) := by
  induction data generalizing i with
  | nil => cases hi
  | cons head data ih =>
    cases i with
    | zero =>
      cases hi
      exact ⟨data.flatten, .refl _, .refl _⟩
    | succ i =>
      obtain ⟨rest, hbefore, hafter⟩ := ih (i := i) hi
      refine ⟨head ++ rest, ?_, ?_⟩
      · exact (hbefore.append_left head).trans (perm_append_comm_assoc _ _ _)
      · exact (hafter.append_left head).trans (perm_append_comm_assoc _ _ _)

theorem perm_place (h : 0 < data.length) (e : HashMapEntry κ ν) :
    (place data e).flatten.Perm (e :: data.flatten) := by
  have hi := indexFor_lt e.origKeyHash h
  obtain ⟨rest, hbefore, hafter⟩ := flatten_modify_perm (e :: ·) (List.getElem?_eq_getElem hi)
  exact hafter.trans (hbefore.symm.cons e)

theorem length_place (data : List (List (HashMapEntry κ ν))) (e : HashMapEntry κ ν) :
    (place data e).length = data.length := length_modify _ _ _

theorem placed_place (h : Placed data) (e : HashMapEntry κ ν) : Placed (place data e) := by
  intro i chain hi e' he'
  rw [length_place]
  rw [place, List.getElem?_modify] at hi
  obtain ⟨old, hold, rfl⟩ := Option.map_eq_some_iff.mp hi
  split_ifs at he' with heq
  · rcases mem_cons.mp he' with rfl | hmem
    · exact heq
    · exact h i old hold e' hmem
  · exact h i old hold e' he'

theorem foldl_place (hlength : 0 < data.length) (h : Placed data) (es : List (HashMapEntry κ ν)) :
    (es.foldl place data).length = data.length ∧ Placed (es.foldl place data) ∧
      (es.foldl place data).flatten.Perm (es ++ data.flatten) := by
  induction es generalizing data with
  | nil => exact ⟨rfl, h, .refl _⟩
  | cons e es ih =>
    obtain ⟨hlen, hplaced, hperm⟩ := ih (by rwa [length_place]) (placed_place h e)
    refine ⟨hlen.trans (length_place data e), hplaced, hperm.trans ?_⟩
    exact ((perm_place hlength e).append_left es).trans perm_middle

theorem placed_replicate (length : Nat) : Placed (List.replicate length ([] : List (HashMapEntry κ ν))) := by
  intro i chain hi e he
  rw [mem_replicate.mp (mem_of_getElem? hi) |>.2] at he
  cases he

/-! ### The operations -/

section Specs

variable {config : HashMapConfig κ} {m m' : HashMap κ ν} {key : κ} {value : ν} {e : HashMapEntry κ ν}

theorem inv_new (config : HashMapConfig κ) (capacity : Nat) : Inv config (new config capacity : HashMap κ ν) := by
  have hentries : (new config capacity : HashMap κ ν).entries = [] := by
    rw [entries, flatten_eq_nil_iff]
    intro chain hchain
    exact (mem_replicate.mp hchain).2
  refine ⟨?_, placed_replicate _, ?_, ?_, ?_, ?_, ?_⟩
  · simpa [new] using calculateCapacity_pos capacity
  · rw [hentries]
    exact fun e he => by cases he
  · rw [hentries]
    exact nodup_nil
  · rw [hentries]
    exact nodup_nil
  · rw [hentries]
    exact fun e he => by cases he
  · rw [hentries]
    rfl

variable [DecidableEq κ]

theorem Inv.getEntry_eq_some (h : Inv config m) : m.getEntry config key = some e ↔ e ∈ m.entries ∧ e.key = key := by
  constructor
  · intro hfound
    have hkey : isKeyEntry key (config.hashFunc key) e = true := List.find?_some hfound
    have hmem := mem_of_find?_eq_some hfound
    refine ⟨mem_entries.mpr ⟨_, _, List.getElem?_eq_getElem (indexFor_lt (config.hashFunc key) h.nonempty), ?_⟩, ?_⟩
    · rwa [chainOf, getD_eq_getElem _ _ (indexFor_lt (config.hashFunc key) h.nonempty)] at hmem
    · simp only [isKeyEntry, Bool.and_eq_true, decide_eq_true_eq] at hkey
      exact hkey.2.symm
  · rintro ⟨hmem, rfl⟩
    obtain ⟨i, chain, hi, he⟩ := mem_entries.mp hmem
    have hindex := h.placed i chain hi e he
    rw [h.hashed e hmem] at hindex
    have hchain : m.chainOf (config.hashFunc e.key) = chain := by
      rw [chainOf, hindex, getD_eq_getElem?_getD, hi]
      rfl
    have hself : isKeyEntry e.key (config.hashFunc e.key) e = true := by
      simp [isKeyEntry, h.hashed e hmem]
    rw [getEntry, hchain]
    cases hfind : chain.find? (isKeyEntry e.key (config.hashFunc e.key)) with
    | none => exact absurd hself (List.find?_eq_none.mp hfind e he)
    | some e' =>
      have hkey : isKeyEntry e.key (config.hashFunc e.key) e' = true := List.find?_some hfind
      simp only [isKeyEntry, Bool.and_eq_true, decide_eq_true_eq] at hkey
      have hmem' : e' ∈ m.entries := mem_entries.mpr ⟨i, chain, hi, mem_of_find?_eq_some hfind⟩
      rw [inj_on_of_nodup_map h.keys hmem' hmem hkey.2.symm]

theorem Inv.getEntry_eq_none (h : Inv config m) : m.getEntry config key = none ↔ ∀ e ∈ m.entries, e.key ≠ key := by
  rw [Option.eq_none_iff_forall_ne_some]
  constructor
  · intro hnone e he hkey
    exact hnone e (h.getEntry_eq_some.mpr ⟨he, hkey⟩)
  · intro hne e he
    obtain ⟨hmem, hkey⟩ := h.getEntry_eq_some.mp he
    exact hne e hmem hkey

theorem Inv.get_eq_some (h : Inv config m) :
    m.get config key = some value ↔ ∃ e ∈ m.entries, e.key = key ∧ e.value = value := by
  rw [get, Option.map_eq_some_iff]
  constructor
  · rintro ⟨e, he, rfl⟩
    obtain ⟨hmem, hkey⟩ := h.getEntry_eq_some.mp he
    exact ⟨e, hmem, hkey, rfl⟩
  · rintro ⟨e, hmem, hkey, rfl⟩
    exact ⟨e, h.getEntry_eq_some.mpr ⟨hmem, hkey⟩, rfl⟩

theorem get_eq_none : m.get config key = none ↔ m.getEntry config key = none := by
  rw [get, Option.map_eq_none_iff]

theorem Inv.get_congr (h : Inv config m) (h' : Inv config m')
    (hentries : ∀ k v, (∃ e ∈ m'.entries, e.key = k ∧ e.value = v) ↔ ∃ e ∈ m.entries, e.key = k ∧ e.value = v) :
    m'.get config = m.get config := by
  funext k
  ext v
  rw [h'.get_eq_some, h.get_eq_some]
  exact hentries k v

/-! A map after a change to it: the same entries, one more, or one less. -/

omit [DecidableEq κ] in
theorem Inv.of_perm (h : Inv config m) (hnonempty : 0 < m'.elementData.length) (hplaced : Placed m'.elementData)
    (hperm : m'.entries.Perm m.entries) (hallocated : m'.allocated = m.allocated)
    (hcount : m'.elementCount = m.elementCount) : Inv config m' where
  nonempty := hnonempty
  placed := hplaced
  hashed := fun e he => h.hashed e (hperm.mem_iff.mp he)
  keys := (hperm.map _).nodup_iff.mpr h.keys
  addresses := (hperm.map _).nodup_iff.mpr h.addresses
  allocated := fun e he => hallocated ▸ h.allocated e (hperm.mem_iff.mp he)
  count := by rw [hcount, h.count, hperm.length_eq]

theorem get_of_perm (h : Inv config m) (h' : Inv config m') (hperm : m'.entries.Perm m.entries) :
    m'.get config = m.get config := by
  apply h.get_congr h'
  intro k v
  simp only [hperm.mem_iff]

omit [DecidableEq κ] in
theorem Inv.rehash (h : Inv config m) {capacity : Nat} (hfits : capacity < 2 ^ 30) :
    ∃ m', m.rehash config capacity = some m' ∧ Inv config m' ∧ m'.entries.Perm m.entries ∧
      m'.modCount = m.modCount ∧ m'.allocated = m.allocated ∧ m'.elementCount = m.elementCount := by
  have hlength : 0 < (List.replicate (calculateCapacity (if capacity = 0 then 1 else capacity * 2))
      ([] : List (HashMapEntry κ ν))).length := by
    rw [length_replicate]
    exact calculateCapacity_pos _
  obtain ⟨hlen, hplaced, hperm⟩ := foldl_place hlength (placed_replicate _) m.elementData.flatten
  have hempty : (List.replicate (calculateCapacity (if capacity = 0 then 1 else capacity * 2))
      ([] : List (HashMapEntry κ ν))).flatten = [] := by
    rw [flatten_eq_nil_iff]
    intro chain hchain
    exact (mem_replicate.mp hchain).2
  rw [hempty, append_nil] at hperm
  refine ⟨_, if_pos hfits, ?_, hperm, rfl, rfl, rfl⟩
  exact h.of_perm (by rwa [← hlen] at hlength) hplaced hperm rfl rfl

theorem Inv.create (h : Inv config m) (hnew : m.getEntry config key = none) (value : ν) : Inv config { m with
      elementData := place m.elementData ⟨m.allocated, key, value, config.hashFunc key⟩
      allocated := m.allocated + 1
      elementCount := m.elementCount + 1
      modCount := m.modCount + 1 } := by
  have hperm := perm_place h.nonempty ⟨m.allocated, key, value, config.hashFunc key⟩
  have hkey := h.getEntry_eq_none.mp hnew
  refine ⟨?_, placed_place h.placed _, ?_, ?_, ?_, ?_, ?_⟩
  · show 0 < (place m.elementData _).length
    rw [length_place]
    exact h.nonempty
  · intro e he
    rcases mem_cons.mp (hperm.mem_iff.mp he) with rfl | hmem
    · rfl
    · exact h.hashed e hmem
  · rw [entries, (hperm.map _).nodup_iff, map_cons, nodup_cons]
    refine ⟨fun hmem => ?_, h.keys⟩
    obtain ⟨e, he, heq⟩ := mem_map.mp hmem
    exact hkey e he heq
  · rw [entries, (hperm.map _).nodup_iff, map_cons, nodup_cons]
    refine ⟨fun hmem => ?_, h.addresses⟩
    obtain ⟨e, he, heq⟩ := mem_map.mp hmem
    exact absurd heq (Nat.ne_of_lt (h.allocated e he))
  · intro e he
    rcases mem_cons.mp (hperm.mem_iff.mp he) with rfl | hmem
    · exact Nat.lt_succ_self _
    · exact Nat.lt_succ_of_lt (h.allocated e hmem)
  · show m.elementCount + 1 = _
    rw [entries, hperm.length_eq, length_cons, h.count]
    rfl

def assign (address : Nat) (value : ν) (e : HashMapEntry κ ν) : HashMapEntry κ ν :=
  if e.address = address then { e with value := value } else e

omit [DecidableEq κ] in
theorem assign_eq (address : Nat) (value : ν) (e : HashMapEntry κ ν) :
    (assign address value e).address = e.address ∧ (assign address value e).key = e.key ∧
      (assign address value e).origKeyHash = e.origKeyHash := by
  rw [assign]
  split_ifs <;> exact ⟨rfl, rfl, rfl⟩

omit [DecidableEq κ] in
theorem entries_setValue (address : Nat) (value : ν) :
    (m.setValue address value).entries = m.entries.map (assign address value) := by
  rw [entries, entries, map_flatten]
  rfl

omit [DecidableEq κ] in
theorem Inv.setValue (h : Inv config m) (address : Nat) (value : ν) : Inv config (m.setValue address value) := by
  have hkeys : (m.setValue address value).entries.map HashMapEntry.key = m.entries.map HashMapEntry.key := by
    rw [entries_setValue, map_map]
    exact map_congr_left fun e _ => (assign_eq address value e).2.1
  have haddresses :
      (m.setValue address value).entries.map HashMapEntry.address = m.entries.map HashMapEntry.address := by
    rw [entries_setValue, map_map]
    exact map_congr_left fun e _ => (assign_eq address value e).1
  refine ⟨?_, ?_, ?_, by rw [hkeys]; exact h.keys, by rw [haddresses]; exact h.addresses, ?_, ?_⟩
  · show 0 < (m.elementData.map _).length
    rw [length_map]
    exact h.nonempty
  · intro i chain hi e he
    rw [HashMap.setValue, length_map]
    rw [HashMap.setValue, List.getElem?_map] at hi
    obtain ⟨old, hold, rfl⟩ := Option.map_eq_some_iff.mp hi
    obtain ⟨e', he', rfl⟩ := mem_map.mp he
    exact (congrArg (indexFor · _) (assign_eq address value e').2.2).trans (h.placed i old hold e' he')
  · intro e he
    rw [entries_setValue] at he
    obtain ⟨e', he', rfl⟩ := mem_map.mp he
    rw [(assign_eq address value e').2.2, (assign_eq address value e').2.1]
    exact h.hashed e' he'
  · intro e he
    rw [entries_setValue] at he
    obtain ⟨e', he', rfl⟩ := mem_map.mp he
    rw [(assign_eq address value e').1]
    exact h.allocated e' he'
  · rw [entries_setValue, length_map]
    exact h.count

theorem get_setValue (h : Inv config m) (he : e ∈ m.entries) (value : ν) :
    (m.setValue e.address value).get config = Function.update (m.get config) e.key (some value) := by
  have h' := h.setValue e.address value
  funext k
  by_cases hk : k = e.key
  · subst hk
    rw [Function.update_self, h'.get_eq_some, entries_setValue]
    exact ⟨assign e.address value e, mem_map_of_mem he, (assign_eq _ _ e).2.1, by rw [assign, if_pos rfl]⟩
  · rw [Function.update_of_ne hk]
    ext v
    rw [h'.get_eq_some, h.get_eq_some, entries_setValue]
    have hother : ∀ e' ∈ m.entries, e'.key = k → assign e.address value e' = e' := by
      intro e' he' hkey
      refine if_neg fun haddress => hk ?_
      rw [← hkey, inj_on_of_nodup_map h.addresses he' he haddress]
    constructor
    · rintro ⟨e₁, he₁, hkey, hvalue⟩
      obtain ⟨e', he', rfl⟩ := mem_map.mp he₁
      rw [(assign_eq _ _ e').2.1] at hkey
      rw [hother e' he' hkey] at hvalue
      exact ⟨e', he', hkey, hvalue⟩
    · rintro ⟨e', he', hkey, hvalue⟩
      exact ⟨e', mem_map.mpr ⟨e', he', hother e' he' hkey⟩, hkey, hvalue⟩

theorem get_cons (h : Inv config m) (h' : Inv config m') (hperm : m'.entries.Perm (e :: m.entries)) :
    m'.get config = Function.update (m.get config) e.key (some e.value) := by
  have hkey : ∀ e' ∈ m.entries, e'.key ≠ e.key := by
    intro e' he' heq
    have hnodup := (hperm.map HashMapEntry.key).nodup_iff.mp h'.keys
    rw [map_cons, nodup_cons] at hnodup
    exact hnodup.1 (heq ▸ mem_map_of_mem he')
  funext k
  by_cases hk : k = e.key
  · subst hk
    rw [Function.update_self, h'.get_eq_some]
    exact ⟨e, hperm.mem_iff.mpr mem_cons_self, rfl, rfl⟩
  · rw [Function.update_of_ne hk]
    ext v
    rw [h'.get_eq_some, h.get_eq_some]
    constructor
    · rintro ⟨e', he', hkey', hvalue⟩
      rcases mem_cons.mp (hperm.mem_iff.mp he') with rfl | hmem
      · exact absurd hkey'.symm hk
      · exact ⟨e', hmem, hkey', hvalue⟩
    · rintro ⟨e', he', hkey', hvalue⟩
      exact ⟨e', hperm.mem_iff.mpr (mem_cons_of_mem _ he'), hkey', hvalue⟩

/-- A new key needs no table that is too large. -/
def PutFits (config : HashMapConfig κ) (key : κ) (m : HashMap κ ν) : Prop :=
  m.getEntry config key = none → m.elementCount + 1 > m.threshold → m.elementData.length < 2 ^ 30

theorem putImpl_of_some [Inhabited ν] (he : m.getEntry config key = some e) (value : ν) :
    m.putImpl config key value = (some (m.get config key), m.setValue e.address value) := by
  rw [putImpl, get, he]
  rfl

theorem Inv.putImpl_of_none [Inhabited ν] (h : Inv config m) (hnew : m.getEntry config key = none)
    (hfits : PutFits config key m) (value : ν) :
    ∃ m', m.putImpl config key value = (some none, m') ∧ Inv config m' ∧
      m'.get config = Function.update (m.get config) key (some value) ∧ m'.modCount = m.modCount + 1 := by
  have hcreated := h.create hnew (default : ν)
  have hperm := perm_place h.nonempty (⟨m.allocated, key, default, config.hashFunc key⟩ : HashMapEntry κ ν)
  have hget := get_cons h hcreated hperm
  -- whatever the table is now, the new entry is in it and gets its value
  have hassign : ∀ m₁ : HashMap κ ν, Inv config m₁ → m₁.entries.Perm (place m.elementData
        ⟨m.allocated, key, default, config.hashFunc key⟩).flatten → m₁.modCount = m.modCount + 1 →
      Inv config (m₁.setValue m.allocated value) ∧
        (m₁.setValue m.allocated value).get config = Function.update (m.get config) key (some value) ∧
        (m₁.setValue m.allocated value).modCount = m.modCount + 1 := by
    intro m₁ h₁ hperm₁ hmod
    have hmem : (⟨m.allocated, key, default, config.hashFunc key⟩ : HashMapEntry κ ν) ∈ m₁.entries :=
      hperm₁.mem_iff.mpr (hperm.mem_iff.mpr mem_cons_self)
    refine ⟨h₁.setValue _ _, ?_, hmod⟩
    rw [get_setValue h₁ hmem, get_of_perm hcreated h₁ hperm₁, hget, Function.update_idem]
  simp only [putImpl, hnew, createHashedEntry, length_place]
  split_ifs with hgrow
  · obtain ⟨m₁, hrehash, h₁, hperm₁, hmod, -⟩ := hcreated.rehash (hfits hnew hgrow)
    rw [hrehash]
    exact ⟨_, rfl, hassign m₁ h₁ hperm₁ hmod⟩
  · exact ⟨_, rfl, hassign _ hcreated (.refl _) rfl⟩

theorem Inv.of_removed (h : Inv config m) (hnonempty : 0 < m'.elementData.length) (hplaced : Placed m'.elementData)
    (hperm : m.entries.Perm (e :: m'.entries)) (hallocated : m'.allocated = m.allocated)
    (hcount : m'.elementCount = m.elementCount - 1) :
    Inv config m' ∧ m'.get config = Function.update (m.get config) e.key none := by
  have hmem : ∀ e' ∈ m'.entries, e' ∈ m.entries := fun e' he' => hperm.mem_iff.mpr (mem_cons_of_mem _ he')
  have hkeys := (hperm.map HashMapEntry.key).nodup_iff.mp h.keys
  have haddresses := (hperm.map HashMapEntry.address).nodup_iff.mp h.addresses
  rw [map_cons, nodup_cons] at hkeys haddresses
  have hinv : Inv config m' := by
    refine ⟨hnonempty, hplaced, fun e' he' => h.hashed e' (hmem e' he'), hkeys.2, haddresses.2, ?_, ?_⟩
    · intro e' he'
      rw [hallocated]
      exact h.allocated e' (hmem e' he')
    · rw [hcount, h.count, hperm.length_eq, length_cons, Nat.add_sub_cancel]
  refine ⟨hinv, ?_⟩
  have hnone : m'.get config e.key = none := by
    rw [get_eq_none, hinv.getEntry_eq_none]
    intro e' he' heq
    exact hkeys.1 (heq ▸ mem_map_of_mem he')
  rw [get_cons hinv h hperm, Function.update_idem, ← hnone, Function.update_eq_self]

omit [DecidableEq κ] in
theorem perm_eraseP {p : HashMapEntry κ ν → Bool} {chain : List (HashMapEntry κ ν)} (h : chain.find? p = some e) :
    chain.Perm (e :: chain.eraseP p) := by
  obtain ⟨hp, front, back, rfl, hfront⟩ := List.find?_eq_some_iff_append.mp h
  have herase : (front ++ e :: back).eraseP p = front ++ back := by
    rw [eraseP_append_right _ (fun e' he' => by simpa using hfront e' he'), eraseP_cons_of_pos hp]
  rw [herase]
  exact perm_middle

omit [DecidableEq κ] in
theorem placed_modify {data : List (List (HashMapEntry κ ν))} (h : Placed data) (i : Nat)
    {f : List (HashMapEntry κ ν) → List (HashMapEntry κ ν)} (hf : ∀ chain, ∀ e ∈ f chain, e ∈ chain) :
    Placed (data.modify i f) := by
  intro j chain hj e' he'
  rw [length_modify]
  rw [List.getElem?_modify] at hj
  obtain ⟨old, hold, rfl⟩ := Option.map_eq_some_iff.mp hj
  split_ifs at he'
  · exact h j old hold e' (hf old e' he')
  · exact h j old hold e' he'

theorem Inv.removeEntry (h : Inv config m) (he : m.getEntry config key = some e) :
    ∃ m', m.removeEntry config key = some (e, m') ∧ Inv config m' ∧
      m'.get config = Function.update (m.get config) key none ∧ m'.modCount = m.modCount + 1 := by
  obtain rfl := (h.getEntry_eq_some.mp he).2
  have hi := indexFor_lt (config.hashFunc e.key) h.nonempty
  have hchain := List.getElem?_eq_getElem hi
  have hfind := he
  rw [getEntry, chainOf, getD_eq_getElem?_getD, hchain, Option.getD_some] at hfind
  obtain ⟨rest, hbefore, hafter⟩ := flatten_modify_perm (List.eraseP (isKeyEntry e.key (config.hashFunc e.key))) hchain
  have hperm := hbefore.trans (((perm_eraseP hfind).append_right rest).trans (hafter.symm.cons e))
  rw [HashMap.removeEntry, he]
  refine ⟨_, rfl, ?_⟩
  rw [← and_assoc]
  refine ⟨h.of_removed ?_ ?_ hperm rfl rfl, rfl⟩
  · rw [length_modify]
    exact h.nonempty
  · exact placed_modify h.placed _ fun chain e' he' => mem_of_mem_eraseP he'

theorem Inv.count_eq_zero (h : Inv config m) : m.elementCount = 0 ↔ ∀ k, m.get config k = none := by
  rw [h.count, length_eq_zero_iff]
  constructor
  · intro hempty k
    rw [get_eq_none, h.getEntry_eq_none, hempty]
    exact fun e he => by cases he
  · intro hnone
    refine eq_nil_iff_forall_not_mem.mpr fun e he => ?_
    have := hnone e.key
    rw [get_eq_none, h.getEntry_eq_none] at this
    exact this e he rfl

theorem Inv.clear (h : Inv config m) (hcount : 0 < m.elementCount) :
    Inv config m.clear ∧ (m.clear.get config = fun _ => none) ∧ m.clear.modCount = m.modCount + 1 := by
  have hclear : m.clear = { m with
      elementCount := 0, elementData := m.elementData.map fun _ => [], modCount := m.modCount + 1 } := if_pos hcount
  have hentries : m.clear.entries = [] := by
    rw [hclear, entries, flatten_eq_nil_iff]
    intro chain hchain
    obtain ⟨_, _, rfl⟩ := mem_map.mp hchain
    rfl
  have hnone : ∀ e, e ∉ m.clear.entries := by
    intro e he
    rw [hentries] at he
    cases he
  have hinv : Inv config m.clear := by
    refine ⟨?_, ?_, fun e he => absurd he (hnone e), ?_, ?_, fun e he => absurd he (hnone e), ?_⟩
    · rw [hclear, length_map]
      exact h.nonempty
    · intro i chain hi e he
      exact absurd (mem_entries.mpr ⟨i, chain, hi, he⟩) (hnone e)
    · rw [hentries]
      exact nodup_nil
    · rw [hentries]
      exact nodup_nil
    · rw [hentries, hclear]
      rfl
  refine ⟨hinv, ?_, by rw [hclear]⟩
  funext k
  rw [get_eq_none, hinv.getEntry_eq_none]
  exact fun e he => absurd he (hnone e)

omit [DecidableEq κ] in
theorem clear_of_empty (hcount : m.elementCount = 0) : m.clear = m :=
  if_neg (by rw [hcount]; exact Nat.lt_irrefl 0)

theorem Inv.containsValue [DecidableEq ν] (h : Inv config m) :
    m.containsValue value = true ↔ ∃ k, m.get config k = some value := by
  simp only [HashMap.containsValue, any_eq_true, decide_eq_true_eq, h.get_eq_some]
  constructor
  · rintro ⟨chain, hchain, e, he, rfl⟩
    exact ⟨e.key, e, mem_flatten.mpr ⟨chain, hchain, he⟩, rfl, rfl⟩
  · rintro ⟨k, e, he, -, rfl⟩
    obtain ⟨chain, hchain, hmem⟩ := mem_flatten.mp he
    exact ⟨chain, hchain, e, hmem, rfl⟩

end Specs

end HashMap

end ActiveMQCpp.Decaf
