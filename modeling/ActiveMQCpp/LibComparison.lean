import Mathlib.Data.List.Nodup
import Mathlib.Data.List.Perm.Subperm
import Mathlib.Algebra.Order.Group.Int

/-! Sets under a comparison function. Where the comparison orders the elements at hand, a sorted list without repetitions
stands for their set, and two such lists of one length stand for the same set when one covers the other. -/

namespace ActiveMQCpp.Comparison

open List

variable {α : Type} (cmp : α → α → Int)

/-- The comparison orders these elements; those it finds equal count as one. -/
structure Orders (xs : List α) : Prop where
  swap : ∀ x ∈ xs, ∀ y ∈ xs, (cmp x y < 0 ↔ 0 < cmp y x)
  trans : ∀ x ∈ xs, ∀ y ∈ xs, ∀ z ∈ xs, cmp x y ≤ 0 → cmp y z ≤ 0 → cmp x z ≤ 0

instance (xs : List α) : Decidable (Orders cmp xs) :=
  decidable_of_iff ((∀ x ∈ xs, ∀ y ∈ xs, (cmp x y < 0 ↔ 0 < cmp y x)) ∧
    ∀ x ∈ xs, ∀ y ∈ xs, ∀ z ∈ xs, cmp x y ≤ 0 → cmp y z ≤ 0 → cmp x z ≤ 0)
    ⟨fun h => ⟨h.1, h.2⟩, fun h => ⟨h.swap, h.trans⟩⟩

def insert (x : α) : List α → List α
  | [] => [x]
  | y :: ys => if cmp x y < 0 then x :: y :: ys else if cmp y x < 0 then y :: insert x ys else y :: ys

def toSet (xs : List α) : List α := xs.foldl (fun set x => insert cmp x set) []

def Distinct (xs : List α) : Prop := xs.Pairwise fun x y => cmp x y ≠ 0

def Covers (xs ys : List α) : Prop := ∀ x ∈ xs, ∃ y ∈ ys, cmp y x = 0

def SameSet (xs ys : List α) : Prop := Covers cmp xs ys ∧ Covers cmp ys xs

instance (xs ys : List α) : Decidable (Covers cmp xs ys) := inferInstanceAs (Decidable (∀ x ∈ xs, ∃ y ∈ ys, cmp y x = 0))

instance (xs ys : List α) : Decidable (SameSet cmp xs ys) :=
  inferInstanceAs (Decidable (Covers cmp xs ys ∧ Covers cmp ys xs))

variable {cmp} {all xs ys : List α}
variable {x z : α} {c : Int}
variable {d : Int}

namespace Orders

variable (h : Orders cmp all)
variable {x y : α}
variable {z : α}

include h

theorem mono (hsub : xs ⊆ all) : Orders cmp xs :=
  ⟨fun x hx y hy => h.swap x (hsub hx) y (hsub hy),
    fun x hx y hy z hz => h.trans x (hsub hx) y (hsub hy) z (hsub hz)⟩

theorem refl (hx : x ∈ all) : cmp x x = 0 := by
  have hswap := h.swap x hx x hx
  omega

theorem symm (hx : x ∈ all) (hy : y ∈ all) (heq : cmp x y = 0) : cmp y x = 0 := by
  have hswap := h.swap x hx y hy
  have hback := h.swap y hy x hx
  omega

theorem eq_trans (hx : x ∈ all) (hy : y ∈ all) (hz : z ∈ all) (hxy : cmp x y = 0) (hyz : cmp y z = 0) :
    cmp x z = 0 := by
  have hle := h.trans x hx y hy z hz (le_of_eq hxy) (le_of_eq hyz)
  have hge := h.trans z hz y hy x hx (le_of_eq (h.symm hy hz hyz)) (le_of_eq (h.symm hx hy hxy))
  have hswap := h.swap x hx z hz
  omega

theorem lt_trans (hx : x ∈ all) (hy : y ∈ all) (hz : z ∈ all) (hxy : cmp x y < 0) (hyz : cmp y z < 0) :
    cmp x z < 0 := by
  have hle := h.trans x hx y hy z hz (le_of_lt hxy) (le_of_lt hyz)
  by_contra hnot
  have heq : cmp z x = 0 := h.symm hx hz (by omega)
  have hback := h.trans z hz x hx y hy (le_of_eq heq) (le_of_lt hxy)
  have hswap := h.swap y hy z hz
  omega

end Orders

/-! ### Sorted lists -/

def Sorted (cmp : α → α → Int) (xs : List α) : Prop := xs.Pairwise fun x y => cmp x y < 0

theorem Sorted.distinct (h : Sorted cmp xs) : Distinct cmp xs := h.imp fun hlt => ne_of_lt hlt

theorem mem_of_mem_insert (h : z ∈ insert cmp x ys) : z = x ∨ z ∈ ys := by
  induction ys with
  | nil => exact .inl (mem_singleton.mp h)
  | cons y ys ih =>
    rw [insert] at h
    split_ifs at h
    · exact mem_cons.mp h
    · obtain rfl | hz := mem_cons.mp h
      · exact .inr mem_cons_self
      · exact (ih hz).imp_right (mem_cons_of_mem y)
    · exact .inr h

theorem mem_insert_of_mem (h : z ∈ ys) : z ∈ insert cmp x ys := by
  induction ys with
  | nil => cases h
  | cons y ys ih =>
    rw [insert]
    split_ifs
    · exact mem_cons_of_mem x h
    · obtain rfl | hz := mem_cons.mp h
      · exact mem_cons_self
      · exact mem_cons_of_mem y (ih hz)
    · exact h

theorem sorted_insert (h : Orders cmp all) (hx : x ∈ all) (hsub : ys ⊆ all) (hsorted : Sorted cmp ys) :
    Sorted cmp (insert cmp x ys) := by
  induction ys with
  | nil => exact pairwise_singleton _ _
  | cons y ys ih =>
    obtain ⟨hfirst, hrest⟩ := pairwise_cons.mp hsorted
    have hy : y ∈ all := hsub mem_cons_self
    rw [insert]
    split_ifs with hlt hgt
    · refine pairwise_cons.mpr ⟨fun z hz => ?_, hsorted⟩
      obtain rfl | hz := mem_cons.mp hz
      · exact hlt
      · exact h.lt_trans hx hy (hsub (mem_cons_of_mem y hz)) hlt (hfirst z hz)
    · refine pairwise_cons.mpr ⟨fun z hz => ?_, ih (fun z hz => hsub (mem_cons_of_mem y hz)) hrest⟩
      obtain rfl | hz := mem_of_mem_insert hz
      · exact hgt
      · exact hfirst z hz
    · exact hsorted

theorem exists_equal_insert (h : Orders cmp all) (hx : x ∈ all) (hsub : ys ⊆ all) :
    ∃ y ∈ insert cmp x ys, cmp y x = 0 := by
  induction ys with
  | nil => exact ⟨x, mem_singleton_self x, h.refl hx⟩
  | cons y ys ih =>
    have hy : y ∈ all := hsub mem_cons_self
    rw [insert]
    split_ifs with hlt hgt
    · exact ⟨x, mem_cons_self, h.refl hx⟩
    · obtain ⟨z, hz, heq⟩ := ih fun z hz => hsub (mem_cons_of_mem y hz)
      exact ⟨z, mem_cons_of_mem y hz, heq⟩
    · have hswap := h.swap x hx y hy
      exact ⟨y, mem_cons_self, by omega⟩

theorem foldl_insert (h : Orders cmp all) {set : List α} (hsub : xs ⊆ all) (hset : set ⊆ all) (hsorted : Sorted cmp set) :
    Sorted cmp (xs.foldl (fun set x => insert cmp x set) set) ∧
    (∀ z ∈ xs.foldl (fun set x => insert cmp x set) set, z ∈ xs ∨ z ∈ set) ∧
    (∀ z ∈ set, z ∈ xs.foldl (fun set x => insert cmp x set) set) ∧
    Covers cmp xs (xs.foldl (fun set x => insert cmp x set) set) := by
  induction xs generalizing set with
  | nil => exact ⟨hsorted, fun z hz => .inr hz, fun z hz => hz, nofun⟩
  | cons x xs ih =>
    have hx : x ∈ all := hsub mem_cons_self
    have hinsert : insert cmp x set ⊆ all := by
      intro z hz
      obtain rfl | hz := mem_of_mem_insert hz
      · exact hx
      · exact hset hz
    obtain ⟨hsorted', hfrom, hkept, hcovers⟩ :=
      ih (fun z hz => hsub (mem_cons_of_mem x hz)) hinsert (sorted_insert h hx hset hsorted)
    rw [foldl_cons]
    refine ⟨hsorted', fun z hz => ?_, fun z hz => hkept z (mem_insert_of_mem hz), fun z hz => ?_⟩
    · obtain hz | hz := hfrom z hz
      · exact .inl (mem_cons_of_mem x hz)
      · exact (mem_of_mem_insert hz).imp_left fun heq => by rw [heq]; exact mem_cons_self
    · obtain rfl | hz := mem_cons.mp hz
      · obtain ⟨y, hy, heq⟩ := exists_equal_insert h hx hset
        exact ⟨y, hkept y hy, heq⟩
      · exact hcovers z hz

theorem sorted_toSet (h : Orders cmp xs) : Sorted cmp (toSet cmp xs) :=
  (foldl_insert h (List.Subset.refl _) (nil_subset _) List.Pairwise.nil).1

theorem mem_of_mem_toSet (h : Orders cmp xs) (hz : z ∈ toSet cmp xs) : z ∈ xs :=
  ((foldl_insert h (List.Subset.refl _) (nil_subset _) List.Pairwise.nil).2.1 z hz).resolve_right not_mem_nil

theorem sameSet_toSet (h : Orders cmp xs) : SameSet cmp (toSet cmp xs) xs :=
  ⟨fun z hz => ⟨z, mem_of_mem_toSet h hz, h.refl (mem_of_mem_toSet h hz)⟩,
    (foldl_insert h (List.Subset.refl _) (nil_subset _) List.Pairwise.nil).2.2.2⟩

/-! ### Equal sets -/

/-- The equal elements of a list without repetitions, taken from another one, are all different. -/
theorem exists_nodup (h : Orders cmp all) (hxs : xs ⊆ all) (hys : ys ⊆ all) (hdistinct : Distinct cmp ys)
    (hcovers : Covers cmp ys xs) :
    ∃ zs : List α, zs.Nodup ∧ zs.length = ys.length ∧ zs ⊆ xs ∧ Covers cmp zs ys := by
  obtain rfl | hne := eq_or_ne ys []
  · exact ⟨[], nodup_nil, rfl, nil_subset xs, nofun⟩
  obtain ⟨y₀, _⟩ := exists_mem_of_ne_nil ys hne
  have : Nonempty α := ⟨y₀⟩
  choose! f hmem heq using hcovers
  refine ⟨ys.map f, ?_, length_map f, fun x hx => ?_, fun x hx => ?_⟩
  · refine pairwise_map.mpr (List.Pairwise.imp_of_mem (fun hy hz hdiffer hsame => ?_) hdistinct)
    apply hdiffer
    apply h.eq_trans (hys hy) (hxs (hmem _ hy)) (hys hz) (h.symm (hxs (hmem _ hy)) (hys hy) (heq _ hy))
    rw [hsame]
    exact heq _ hz
  · obtain ⟨y, hy, rfl⟩ := mem_map.mp hx
    exact hmem y hy
  · obtain ⟨y, hy, rfl⟩ := mem_map.mp hx
    exact ⟨y, hy, h.symm (hxs (hmem y hy)) (hys hy) (heq y hy)⟩

theorem length_le_of_covers (h : Orders cmp all) (hxs : xs ⊆ all) (hys : ys ⊆ all) (hdistinct : Distinct cmp ys)
    (hcovers : Covers cmp ys xs) : ys.length ≤ xs.length := by
  obtain ⟨zs, hnodup, hlength, hsubset, -⟩ := exists_nodup h hxs hys hdistinct hcovers
  rw [← hlength]
  exact (subperm_of_subset hnodup hsubset).length_le

/-- A list without repetitions that is covered by one that is not longer covers it. -/
theorem covers_of_length_le (h : Orders cmp all) (hxs : xs ⊆ all) (hys : ys ⊆ all) (hdistinct : Distinct cmp ys)
    (hlength : xs.length ≤ ys.length) (hcovers : Covers cmp ys xs) : Covers cmp xs ys := by
  obtain ⟨zs, hnodup, hsame, hsubset, hback⟩ := exists_nodup h hxs hys hdistinct hcovers
  have hperm := (subperm_of_subset hnodup hsubset).perm_of_length_le (by rw [hsame]; exact hlength)
  exact fun x hx => hback x (hperm.mem_iff.mpr hx)

theorem sameSet_iff_covers (h : Orders cmp (xs ++ ys)) (hdx : Distinct cmp xs) (hdy : Distinct cmp ys) :
    SameSet cmp xs ys ↔ xs.length = ys.length ∧ Covers cmp ys xs := by
  have hxs : xs ⊆ xs ++ ys := subset_append_left xs ys
  have hys : ys ⊆ xs ++ ys := subset_append_right xs ys
  constructor
  · rintro ⟨hxy, hyx⟩
    refine ⟨le_antisymm ?_ ?_, hyx⟩
    · exact length_le_of_covers h hys hxs hdx hxy
    · exact length_le_of_covers h hxs hys hdy hyx
  · rintro ⟨hlength, hyx⟩
    exact ⟨covers_of_length_le h hxs hys hdy (le_of_eq hlength) hyx, hyx⟩

/-! ### Comparisons that are put together -/

/-- The comparison orders the elements with a property, and what it gives for two of them is the opposite of what it
gives for the exchanged ones. -/
structure OrdersOn (cmp : α → α → Int) (p : α → Prop) : Prop where
  swap : ∀ x y, p x → p y → cmp y x = -cmp x y
  trans : ∀ x y z, p x → p y → p z → cmp x y ≤ 0 → cmp y z ≤ 0 → cmp x z ≤ 0

/-- The second comparison counts where the first finds no difference. -/
def thenBy (c d : Int) : Int := if c ≠ 0 then c else d

theorem thenBy_zero (d : Int) : thenBy 0 d = d := rfl

theorem thenBy_of_ne (h : c ≠ 0) (d : Int) : thenBy c d = c := if_pos h

theorem thenBy_nonpos : thenBy c d ≤ 0 ↔ c < 0 ∨ c = 0 ∧ d ≤ 0 := by
  rw [thenBy]
  split_ifs <;> omega

theorem thenBy_eq_zero : thenBy c d = 0 ↔ c = 0 ∧ d = 0 := by
  rw [thenBy]
  split_ifs <;> omega

namespace OrdersOn

variable {β : Type} {c d : α → α → Int} {p q : α → Prop}

theorem on (h : OrdersOn c p) {f : β → α} {r : β → Prop} (hf : ∀ x, r x → p (f x)) : OrdersOn (fun x y => c (f x) (f y)) r :=
  ⟨fun x y hx hy => h.swap _ _ (hf x hx) (hf y hy), fun x y z hx hy hz => h.trans _ _ _ (hf x hx) (hf y hy) (hf z hz)⟩

theorem congr (h : OrdersOn c p) (heq : ∀ x y, p x → p y → d x y = c x y) : OrdersOn d p := by
  refine ⟨fun x y hx hy => ?_, fun x y z hx hy hz hxy hyz => ?_⟩
  · rw [heq y x hy hx, heq x y hx hy, h.swap x y hx hy]
  · rw [heq x y hx hy] at hxy
    rw [heq y z hy hz] at hyz
    rw [heq x z hx hz]
    exact h.trans x y z hx hy hz hxy hyz

section Laws

variable (h : OrdersOn c p) {x y z : α} (hx : p x) (hy : p y) (hz : p z)
include h hx

theorem self : c x x = 0 := by
  have hswap := h.swap x x hx hx
  omega

include hy hz

theorem eq_of_between (hxy : c x y ≤ 0) (hyz : c y z ≤ 0) (hxz : c x z = 0) : c x y = 0 ∧ c y z = 0 := by
  have hzx := h.swap x z hx hz
  have hzy := h.trans z x y hz hx hy (by omega) hxy
  have hyx := h.trans y z x hy hz hx hyz (by omega)
  have hyz' := h.swap y z hy hz
  have hxy' := h.swap x y hx hy
  omega

theorem lt_of_lt_of_le (hxy : c x y < 0) (hyz : c y z ≤ 0) : c x z < 0 := by
  have hle := h.trans x y z hx hy hz hxy.le hyz
  refine lt_of_le_of_ne hle fun heq => ?_
  have hboth := h.eq_of_between hx hy hz hxy.le hyz heq
  omega

theorem lt_of_le_of_lt (hxy : c x y ≤ 0) (hyz : c y z < 0) : c x z < 0 := by
  have hle := h.trans x y z hx hy hz hxy hyz.le
  refine lt_of_le_of_ne hle fun heq => ?_
  have hboth := h.eq_of_between hx hy hz hxy hyz.le heq
  omega

end Laws

/-- The second comparison only has to order what the first one finds equal. -/
theorem thenBy (h : OrdersOn c p) (hswap : ∀ x y, p x → p y → c x y = 0 → d y x = -d x y)
    (htrans : ∀ x y z, p x → p y → p z → c x y = 0 → c y z = 0 → d x y ≤ 0 → d y z ≤ 0 → d x z ≤ 0) :
    OrdersOn (fun x y => Comparison.thenBy (c x y) (d x y)) p := by
  refine ⟨fun x y hx hy => ?_, fun x y z hx hy hz hxy hyz => ?_⟩
  · have hback := h.swap x y hx hy
    by_cases hzero : c x y = 0
    · rw [hback, hzero, neg_zero, thenBy_zero, thenBy_zero, hswap x y hx hy hzero]
    · rw [thenBy_of_ne hzero, thenBy_of_ne (by omega), hback]
  · rw [thenBy_nonpos] at hxy hyz ⊢
    have hle := h.trans x y z hx hy hz (by omega) (by omega)
    rcases hle.lt_or_eq with hlt | heq
    · exact .inl hlt
    · have hboth := h.eq_of_between hx hy hz (by omega) (by omega) heq
      exact .inr ⟨heq, htrans x y z hx hy hz hboth.1 hboth.2 (by omega) (by omega)⟩

theorem thenBy_all (h : OrdersOn c p) (h' : OrdersOn d p) : OrdersOn (fun x y => Comparison.thenBy (c x y) (d x y)) p :=
  h.thenBy (fun x y hx hy _ => h'.swap x y hx hy) fun x y z hx hy hz _ _ => h'.trans x y z hx hy hz

end OrdersOn

end ActiveMQCpp.Comparison
