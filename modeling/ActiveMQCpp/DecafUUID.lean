import ActiveMQCpp.DecafHexadecimal
import ActiveMQCpp.DecafURIReference

/-! `UUID`: its text, five groups of hexadecimal digits between dashes. The fields that are computed from the two halves
do not take part. -/

namespace ActiveMQCpp.Decaf

open MachineInt URIHelper Long List

structure UUID where
  mostSigBits : BitVec 64
  leastSigBits : BitVec 64
  deriving DecidableEq

namespace UUID

variable {g uuid : ByteString} {pos turns start : Nat} {last value p : Int}

def padded (bits : BitVec 64) : ByteString :=
  List.replicate (16 - (toHexString bits).length) 48 ++ toHexString bits

/-- `insert(pos, "-")`. -/
def insertDash (pos : Nat) (builder : ByteString) : ByteString := builder.take pos ++ 45 :: builder.drop pos

def toString (u : UUID) : ByteString :=
  insertDash 23 (insertDash 13 (insertDash 8 (padded u.mostSigBits)) ++ [45] ++ padded u.leastSigBits)

/-- The loop over `position`: what is stored from one turn on. A search from a negative start finds nothing. -/
def positions (uuid : ByteString) : Nat → Int → Int → List Int
  | 0, _, _ => []
  | turns + 1, lastPosition, startPosition =>
    if lastPosition > 0 then
      let found := if startPosition < 0 then none else find 45 uuid startPosition.toNat
      let position := toInt32 ((found.map Int.ofNat).getD (-1))
      position :: positions uuid turns position (toInt32 (position + 1))
    else []

def invalid : Failure := .thrown .illegalArgumentException "Invalid UUID string %s"

/-- `substr(pos, count)`; a negative argument is a large one. -/
def substr (s : ByteString) (pos count : Int) : Except Failure ByteString :=
  if pos < 0 ∨ (s.length : Int) < pos then .error (.thrown .stdException "basic_string::substr")
  else if count < 0 then .ok (s.drop pos.toNat)
  else .ok ((s.drop pos.toNat).take count.toNat)

def group (s : ByteString) (pos count : Int) : Except Failure (BitVec 64) := do
  let text ← substr s pos count
  let value ← parseLongRadix text 16
  pure (BitVec.ofInt 64 value)

def fromString (uuid : ByteString) : Except Failure UUID :=
  match positions uuid 5 1 0 with
  | [p0, p1, p2, p3, p4] =>
    if p4 ≠ -1 then .error invalid
    else if p0 = 0 then .error invalid
    else if p1 - p0 - 1 ≤ 0 then .error invalid
    else if p2 - p1 - 1 ≤ 0 then .error invalid
    else if toInt32 (p3 + 1) ≥ toInt32 uuid.length then .error invalid
    else do
      let m1 ← group uuid 0 p0
      let m2 ← group uuid (p0 + 1) (p1 - p0 - 1)
      let m3 ← group uuid (p1 + 1) (p2 - p1 - 1)
      let lsb1 ← group uuid (p2 + 1) (p3 - p2 - 1)
      let lsb2 ← group uuid (toInt32 (p3 + 1)) (-1)
      pure { mostSigBits := m1 <<< 32 ||| m2 <<< 16 ||| m3, leastSigBits := lsb1 <<< 48 ||| lsb2 }
  | _ => .error invalid

/-! ### The groups of a text -/

def joined (a b c d e : ByteString) : ByteString := a ++ 45 :: (b ++ 45 :: (c ++ 45 :: (d ++ 45 :: e)))

def HexGroup (g : ByteString) : Prop := g ≠ [] ∧ ∀ c ∈ g, isValidHexChar c = true

def FiveGroups (s : ByteString) : Prop :=
  ∃ a b c d e, s = joined a b c d e ∧ ∀ g ∈ [a, b, c, d, e], HexGroup g

/-- Five groups of 8, 4, 4, 4 and 12 digits. -/
def Shaped (s : ByteString) : Prop :=
  ∃ a b c d e, s = joined a b c d e ∧ (∀ g ∈ [a, b, c, d, e], HexGroup g) ∧
    [a, b, c, d, e].map List.length = [8, 4, 4, 4, 12]

theorem hexGroup_hexPadded (k n : Nat) : HexGroup (hexPadded (k + 1) n) := by
  constructor
  · apply ne_nil_of_length_pos
    rw [length_hexPadded]
    exact Nat.succ_pos k
  · intro c hc
    exact mem_hexPadded hc

theorem HexGroup.no_dash (h : HexGroup g) : 45 ∉ g := by
  intro hmem
  cases h.2 45 hmem

/-! ### Writing -/

theorem padded_eq (bits : BitVec 64) : padded bits = hexPadded 16 bits.toNat :=
  padded_hexDigits (by omega) bits.isLt

theorem insertDash_append {a : ByteString} (h : a.length = pos) (b : ByteString) :
    insertDash pos (a ++ b) = a ++ 45 :: b := by
  rw [insertDash, take_left' h, drop_left' h]

theorem toString_eq (u : UUID) :
    toString u = joined (hexPadded 8 (u.mostSigBits.toNat / 16 ^ 8)) (hexPadded 4 (u.mostSigBits.toNat / 16 ^ 4))
      (hexPadded 4 u.mostSigBits.toNat) (hexPadded 4 (u.leastSigBits.toNat / 16 ^ 12))
      (hexPadded 12 u.leastSigBits.toNat) := by
  have hmost : hexPadded 16 u.mostSigBits.toNat = hexPadded 8 (u.mostSigBits.toNat / 16 ^ 8) ++
      (hexPadded 4 (u.mostSigBits.toNat / 16 ^ 4) ++ hexPadded 4 u.mostSigBits.toNat) := by
    rw [← hexPadded_add 4 4, ← hexPadded_add 8 8]
  have hleast : hexPadded 16 u.leastSigBits.toNat =
      hexPadded 4 (u.leastSigBits.toNat / 16 ^ 12) ++ hexPadded 12 u.leastSigBits.toNat := hexPadded_add 4 12 _
  rw [toString, padded_eq, padded_eq, hmost, hleast]
  generalize ha : hexPadded 8 (u.mostSigBits.toNat / 16 ^ 8) = a
  generalize hb : hexPadded 4 (u.mostSigBits.toNat / 16 ^ 4) = b
  generalize hc : hexPadded 4 u.mostSigBits.toNat = c
  generalize hd : hexPadded 4 (u.leastSigBits.toNat / 16 ^ 12) = d
  generalize hexPadded 12 u.leastSigBits.toNat = e
  have hla : a.length = 8 := by rw [← ha, length_hexPadded]
  have hlb : b.length = 4 := by rw [← hb, length_hexPadded]
  have hlc : c.length = 4 := by rw [← hc, length_hexPadded]
  have hld : d.length = 4 := by rw [← hd, length_hexPadded]
  have hsecond : insertDash 13 (a ++ 45 :: (b ++ c)) = (a ++ 45 :: b) ++ 45 :: c := by
    have h : (a ++ 45 :: b).length = 13 := by simp [hla, hlb]
    rw [← insertDash_append h c]
    simp
  have hthird : insertDash 23 ((a ++ 45 :: b) ++ 45 :: c ++ [45] ++ (d ++ e)) =
      ((a ++ 45 :: b) ++ 45 :: c ++ 45 :: d) ++ 45 :: e := by
    have h : ((a ++ 45 :: b) ++ 45 :: c ++ 45 :: d).length = 23 := by simp [hla, hlb, hlc, hld]
    rw [← insertDash_append h e]
    simp
  rw [insertDash_append hla, hsecond, hthird]
  simp [joined]

theorem shaped_toString (u : UUID) : Shaped (toString u) := by
  refine ⟨_, _, _, _, _, toString_eq u, ?_, ?_⟩
  · intro g hg
    simp only [mem_cons, not_mem_nil, or_false] at hg
    rcases hg with rfl | rfl | rfl | rfl | rfl <;> exact hexGroup_hexPadded _ _
  · simp

/-! ### Reading what was written -/

theorem find_group (h : 45 ∉ g) (before rest : ByteString) :
    find 45 (before ++ (g ++ 45 :: rest)) before.length = some (before.length + g.length) := by
  rw [find_drop, drop_left, find_append h]
  rfl

theorem find_last (h : 45 ∉ g) (before : ByteString) : find 45 (before ++ g) before.length = none := by
  rw [find_drop, drop_left, find_none h]
  rfl

theorem positions_found (hlast : 0 < last) (hfind : find 45 uuid start = some pos) (hpos : pos < 2147483647) :
    positions uuid (turns + 1) last start = (pos : Int) :: positions uuid turns pos (pos + 1 : Nat) := by
  have hposition : toInt32 (pos : Int) = pos := toInt32_of_range (by omega) (by omega)
  have hnext : toInt32 ((pos : Int) + 1) = (pos + 1 : Nat) := toInt32_of_range (by omega) (by omega)
  rw [positions, if_pos hlast, if_neg (by omega), Int.toNat_natCast, hfind]
  simp only [Option.map_some, Option.getD_some, Int.ofNat_eq_natCast]
  rw [hposition, hnext]

theorem positions_last (hlast : 0 < last)
    (hfind : find 45 uuid start = none) : positions uuid 1 last start = [-1] := by
  rw [positions, if_pos hlast, if_neg (by omega), Int.toNat_natCast, hfind]
  rfl

variable {a b c d e : ByteString}

theorem positions_joined (hgroups : ∀ g ∈ [a, b, c, d, e], HexGroup g)
    (hlength : (joined a b c d e).length < 2147483647) :
    positions (joined a b c d e) 5 1 0 =
      [(a.length : Int), (a.length + 1 + b.length : Nat), (a.length + 1 + b.length + 1 + c.length : Nat),
        (a.length + 1 + b.length + 1 + c.length + 1 + d.length : Nat), -1] := by
  simp only [mem_cons, not_mem_nil, or_false, forall_eq_or_imp, forall_eq] at hgroups
  obtain ⟨ha, hb, hc, hd, he⟩ := hgroups
  have hapos : 0 < a.length := length_pos_iff.mpr ha.1
  simp only [joined, length_append, length_cons] at hlength
  have hfirst : find 45 (joined a b c d e) 0 = some a.length := find_append ha.no_dash _
  have hsecond : find 45 (joined a b c d e) (a.length + 1) = some (a.length + 1 + b.length) := by
    have h := find_group hb.no_dash (a ++ [45]) (c ++ 45 :: (d ++ 45 :: e))
    rw [length_append, length_singleton] at h
    rw [← h]
    simp [joined]
  have hthird : find 45 (joined a b c d e) (a.length + 1 + b.length + 1) =
      some (a.length + 1 + b.length + 1 + c.length) := by
    have h := find_group hc.no_dash (a ++ [45] ++ b ++ [45]) (d ++ 45 :: e)
    simp only [length_append, length_singleton] at h
    rw [← h]
    simp [joined]
  have hfourth : find 45 (joined a b c d e) (a.length + 1 + b.length + 1 + c.length + 1) =
      some (a.length + 1 + b.length + 1 + c.length + 1 + d.length) := by
    have h := find_group hd.no_dash (a ++ [45] ++ b ++ [45] ++ c ++ [45]) e
    simp only [length_append, length_singleton] at h
    rw [← h]
    simp [joined]
  have hfifth : find 45 (joined a b c d e) (a.length + 1 + b.length + 1 + c.length + 1 + d.length + 1) = none := by
    have h := find_last he.no_dash (a ++ [45] ++ b ++ [45] ++ c ++ [45] ++ d ++ [45])
    simp only [length_append, length_singleton] at h
    rw [← h]
    simp [joined]
  rw [show (0 : Int) = ((0 : Nat) : Int) from rfl, positions_found (by omega) hfirst (by omega),
    positions_found (by omega) hsecond (by omega), positions_found (by omega) hthird (by omega),
    positions_found (by omega) hfourth (by omega), positions_last (by omega) hfifth]

theorem group_inside (before g rest : ByteString) {pos count : Int}
    (huuid : uuid = before ++ (g ++ rest)) (hpos : pos = before.length) (hcount : count = g.length)
    (hvalue : parseLongRadix g 16 = .ok value) : group uuid pos count = .ok (BitVec.ofInt 64 value) := by
  have hsubstr : substr uuid pos count = .ok g := by
    have hrange : ¬ (pos < 0 ∨ (uuid.length : Int) < pos) := by
      rw [huuid, length_append]
      omega
    rw [substr, if_neg hrange, if_neg (by omega), huuid, hpos, hcount, Int.toNat_natCast, Int.toNat_natCast,
      drop_left, take_left]
  rw [group, hsubstr]
  show (parseLongRadix g 16 >>= fun value => pure (BitVec.ofInt 64 value)) = _
  rw [hvalue]
  rfl

theorem group_behind (before g : ByteString) {pos : Int} (huuid : uuid = before ++ g)
    (hpos : pos = before.length) (hvalue : parseLongRadix g 16 = .ok value) :
    group uuid pos (-1) = .ok (BitVec.ofInt 64 value) := by
  have hsubstr : substr uuid pos (-1) = .ok g := by
    have hrange : ¬ (pos < 0 ∨ (uuid.length : Int) < pos) := by
      rw [huuid, length_append]
      omega
    rw [substr, if_neg hrange, if_pos (by omega), huuid, hpos, Int.toNat_natCast, drop_left]
  rw [group, hsubstr]
  show (parseLongRadix g 16 >>= fun value => pure (BitVec.ofInt 64 value)) = _
  rw [hvalue]
  rfl

theorem fromString_joined {m1 m2 m3 lsb1 lsb2 : Int} (hgroups : ∀ g ∈ [a, b, c, d, e], HexGroup g)
    (hlength : (joined a b c d e).length < 2147483647) (ha : parseLongRadix a 16 = .ok m1)
    (hb : parseLongRadix b 16 = .ok m2) (hc : parseLongRadix c 16 = .ok m3) (hd : parseLongRadix d 16 = .ok lsb1)
    (he : parseLongRadix e 16 = .ok lsb2) :
    fromString (joined a b c d e) =
      .ok { mostSigBits := BitVec.ofInt 64 m1 <<< 32 ||| BitVec.ofInt 64 m2 <<< 16 ||| BitVec.ofInt 64 m3,
            leastSigBits := BitVec.ofInt 64 lsb1 <<< 48 ||| BitVec.ofInt 64 lsb2 } := by
  have hpos : ∀ g ∈ [a, b, c, d, e], 0 < g.length := fun g hg => length_pos_iff.mpr (hgroups g hg).1
  simp only [mem_cons, not_mem_nil, or_false, forall_eq_or_imp, forall_eq] at hpos
  obtain ⟨hapos, hbpos, hcpos, hdpos, hepos⟩ := hpos
  have htotal : (joined a b c d e).length =
      a.length + 1 + b.length + 1 + c.length + 1 + d.length + 1 + e.length := by
    simp only [joined, length_append, length_cons]
    omega
  rw [htotal] at hlength
  have hlast : toInt32 ((a.length + 1 + b.length + 1 + c.length + 1 + d.length : Nat) + 1 : Int) =
      (a.length + 1 + b.length + 1 + c.length + 1 + d.length + 1 : Nat) := toInt32_of_range (by omega) (by omega)
  have hint : toInt32 (joined a b c d e).length = (joined a b c d e).length :=
    toInt32_of_range (by omega) (by omega)
  have hm1 : group (joined a b c d e) 0 a.length = .ok (BitVec.ofInt 64 m1) :=
    group_inside [] a _ rfl rfl rfl ha
  have hm2 : group (joined a b c d e) ((a.length : Int) + 1) ((a.length + 1 + b.length : Nat) - (a.length : Int) - 1) =
      .ok (BitVec.ofInt 64 m2) :=
    group_inside (a ++ [45]) b (45 :: (c ++ 45 :: (d ++ 45 :: e))) (by simp [joined])
      (by simp only [length_append, length_singleton]; omega) (by omega) hb
  have hm3 : group (joined a b c d e) ((a.length + 1 + b.length : Nat) + 1)
      ((a.length + 1 + b.length + 1 + c.length : Nat) - (a.length + 1 + b.length : Nat) - 1) =
      .ok (BitVec.ofInt 64 m3) :=
    group_inside (a ++ [45] ++ b ++ [45]) c (45 :: (d ++ 45 :: e)) (by simp [joined])
      (by simp only [length_append, length_singleton]; omega) (by omega) hc
  have hl1 : group (joined a b c d e) ((a.length + 1 + b.length + 1 + c.length : Nat) + 1)
      ((a.length + 1 + b.length + 1 + c.length + 1 + d.length : Nat) -
        (a.length + 1 + b.length + 1 + c.length : Nat) - 1) = .ok (BitVec.ofInt 64 lsb1) :=
    group_inside (a ++ [45] ++ b ++ [45] ++ c ++ [45]) d (45 :: e) (by simp [joined])
      (by simp only [length_append, length_singleton]; omega) (by omega) hd
  have hl2 : group (joined a b c d e) (a.length + 1 + b.length + 1 + c.length + 1 + d.length + 1 : Nat) (-1) =
      .ok (BitVec.ofInt 64 lsb2) :=
    group_behind (a ++ [45] ++ b ++ [45] ++ c ++ [45] ++ d ++ [45]) e (by simp [joined])
      (by simp only [length_append, length_singleton]) he
  rw [fromString, positions_joined hgroups (by omega)]
  dsimp only
  rw [if_neg (by omega), if_neg (by omega), if_neg (by omega), if_neg (by omega), hlast, hint,
    if_neg (by omega), hm1, hm2, hm3, hl1, hl2]
  rfl

theorem ofNat_shiftLeft (n k : Nat) : BitVec.ofNat 64 n <<< k = BitVec.ofNat 64 (n * 2 ^ k) := by
  apply BitVec.eq_of_toNat_eq
  rw [BitVec.toNat_shiftLeft, BitVec.toNat_ofNat, BitVec.toNat_ofNat, Nat.shiftLeft_eq, Nat.mod_mul_mod]

theorem shift_or {hi lo k : Nat} (h : lo < 2 ^ k) :
    BitVec.ofNat 64 hi <<< k ||| BitVec.ofNat 64 lo = BitVec.ofNat 64 (hi * 2 ^ k + lo) := by
  rw [ofNat_shiftLeft, ← BitVec.ofNat_or, ← Nat.shiftLeft_eq, ← Nat.shiftLeft_add_eq_or_of_lt h]

theorem join_most (n : Nat) :
    BitVec.ofNat 64 (n / 16 ^ 8) <<< 32 ||| BitVec.ofNat 64 (n / 16 ^ 4 % 16 ^ 4) <<< 16 ||| BitVec.ofNat 64 (n % 16 ^ 4) =
      BitVec.ofNat 64 n := by
  have hlow : n / 16 ^ 4 % 16 ^ 4 * 2 ^ 16 < 2 ^ 32 := by omega
  have hhigh : n / 16 ^ 8 * 2 ^ 32 + n / 16 ^ 4 % 16 ^ 4 * 2 ^ 16 = n / 16 ^ 4 * 2 ^ 16 := by omega
  have hall : n / 16 ^ 4 * 2 ^ 16 + n % 16 ^ 4 = n := Nat.div_add_mod' n (16 ^ 4)
  rw [ofNat_shiftLeft _ 16, shift_or hlow, hhigh, ← ofNat_shiftLeft, shift_or (by omega), hall]

theorem join_least (n : Nat) :
    BitVec.ofNat 64 (n / 16 ^ 12) <<< 48 ||| BitVec.ofNat 64 (n % 16 ^ 12) = BitVec.ofNat 64 n := by
  have hall : n / 16 ^ 12 * 2 ^ 48 + n % 16 ^ 12 = n := Nat.div_add_mod' n (16 ^ 12)
  rw [shift_or (by omega), hall]

theorem fromString_toString (u : UUID) : fromString (toString u) = .ok u := by
  have hmost := u.mostSigBits.isLt
  have hleast := u.leastSigBits.isLt
  have hgroups : ∀ g ∈ [hexPadded 8 (u.mostSigBits.toNat / 16 ^ 8), hexPadded 4 (u.mostSigBits.toNat / 16 ^ 4),
      hexPadded 4 u.mostSigBits.toNat, hexPadded 4 (u.leastSigBits.toNat / 16 ^ 12),
      hexPadded 12 u.leastSigBits.toNat], HexGroup g := by
    intro g hg
    simp only [mem_cons, not_mem_nil, or_false] at hg
    rcases hg with rfl | rfl | rfl | rfl | rfl <;> exact hexGroup_hexPadded _ _
  have h1 : parseLongRadix (hexPadded 8 (u.mostSigBits.toNat / 16 ^ 8)) 16 = .ok (u.mostSigBits.toNat / 16 ^ 8 : Nat) :=
    parseLongRadix_hexPadded (by omega) (by omega)
  have h2 : parseLongRadix (hexPadded 4 (u.mostSigBits.toNat / 16 ^ 4)) 16 =
      .ok (u.mostSigBits.toNat / 16 ^ 4 % 16 ^ 4 : Nat) := by
    rw [← hexPadded_mod]
    exact parseLongRadix_hexPadded (by omega) (Nat.mod_lt _ (by norm_num))
  have h3 : parseLongRadix (hexPadded 4 u.mostSigBits.toNat) 16 = .ok (u.mostSigBits.toNat % 16 ^ 4 : Nat) := by
    rw [← hexPadded_mod]
    exact parseLongRadix_hexPadded (by omega) (Nat.mod_lt _ (by norm_num))
  have h4 : parseLongRadix (hexPadded 4 (u.leastSigBits.toNat / 16 ^ 12)) 16 =
      .ok (u.leastSigBits.toNat / 16 ^ 12 : Nat) :=
    parseLongRadix_hexPadded (by omega) (by omega)
  have h5 : parseLongRadix (hexPadded 12 u.leastSigBits.toNat) 16 = .ok (u.leastSigBits.toNat % 16 ^ 12 : Nat) := by
    rw [← hexPadded_mod]
    exact parseLongRadix_hexPadded (by omega) (Nat.mod_lt _ (by norm_num))
  rw [toString_eq, fromString_joined hgroups (by simp [joined]) h1 h2 h3 h4 h5]
  simp only [BitVec.ofInt_natCast]
  rw [join_most, join_least, BitVec.ofNat_toNat, BitVec.ofNat_toNat, BitVec.setWidth_eq, BitVec.setWidth_eq]

/-! ### What is read -/

theorem split_of_find {c : UInt8} {s : ByteString} {i : Nat} (h : find c s pos = some i) :
    ∃ g, c ∉ g ∧ i = pos + g.length ∧ s.drop pos = g ++ c :: s.drop (i + 1) := by
  obtain ⟨j, hj, rfl⟩ := Option.map_eq_some_iff.mp h
  obtain ⟨hlt, hc, hbefore⟩ := List.findIdx?_eq_some_iff_getElem.mp hj
  have hdrop : (s.drop pos).drop (j + 1) = s.drop (pos + j + 1) := by rw [drop_drop, Nat.add_assoc]
  refine ⟨(s.drop pos).take j, ?_, ?_, ?_⟩
  · intro hmem
    obtain ⟨k, hk, hck⟩ := getElem_of_mem hmem
    rw [length_take] at hk
    rw [getElem_take] at hck
    exact hbefore k (by omega) (decide_eq_true hck)
  · rw [length_take, Nat.min_eq_left (by omega)]
  · calc s.drop pos = (s.drop pos).take j ++ (s.drop pos).drop j := (take_append_drop _ _).symm
      _ = (s.drop pos).take j ++ c :: s.drop (pos + j + 1) := by
        rw [drop_eq_getElem_cons hlt, hdrop, of_decide_eq_true hc]

theorem hexGroup_of_parse (hdash : 45 ∉ g) (h : parseLongRadix g 16 = .ok value) : HexGroup g := by
  obtain ⟨c, rest, rfl, hfirst, hrest⟩ := digits_of_parseLongRadix h
  rw [mem_cons, not_or] at hdash
  refine ⟨cons_ne_nil _ _, fun d hd => (digit_hex_iff d).mp ?_⟩
  rcases mem_cons.mp hd with rfl | hd
  · exact hfirst (Ne.symm hdash.1)
  · exact hrest d hd

theorem hexGroup_of_group {rest : ByteString} {count : Int} {value : BitVec 64} (hdash : 45 ∉ g)
    (hsplit : uuid.drop pos = g ++ rest) (hcount : count = g.length) (h : group uuid pos count = .ok value) :
    HexGroup g := by
  rw [group, Codec.except_bind_eq_ok] at h
  obtain ⟨text, htext, h⟩ := h
  rw [Codec.except_bind_eq_ok] at h
  obtain ⟨number, hnumber, -⟩ := h
  rw [substr] at htext
  split_ifs at htext with hrange hneg
  · omega
  · rw [Int.toNat_natCast, hcount, Int.toNat_natCast, hsplit, take_left] at htext
    cases htext
    exact hexGroup_of_parse hdash hnumber

theorem positions_eq_cons {start : Int} {ps : List Int} (h : positions uuid (turns + 1) last start = p :: ps) :
    0 < last ∧ ps = positions uuid turns p (toInt32 (p + 1)) ∧
      (0 ≤ p → 0 ≤ start ∧ ∃ i, find 45 uuid start.toNat = some i ∧ p = toInt32 i) := by
  rw [positions] at h
  split_ifs at h with hlast hneg
  · obtain ⟨hp, hps⟩ := List.cons.inj h
    refine ⟨hlast, by rw [← hps, hp], fun hpos => ?_⟩
    rw [← hp] at hpos
    exact absurd hpos (by decide)
  · obtain ⟨hp, hps⟩ := List.cons.inj h
    refine ⟨hlast, by rw [← hps, hp], fun hpos => ⟨by omega, ?_⟩⟩
    cases hfind : find 45 uuid start.toNat with
    | none =>
      rw [← hp, hfind] at hpos
      exact absurd hpos (by decide)
    | some i =>
      refine ⟨i, rfl, ?_⟩
      rw [← hp, hfind]
      rfl

theorem hexGroup_behind {value : BitVec 64} (hpos : pos < 2147483648)
    (hlast : positions uuid 1 last pos = [-1]) (h : group uuid pos (-1) = .ok value) : HexGroup (uuid.drop pos) := by
  rw [group, Codec.except_bind_eq_ok] at h
  obtain ⟨text, htext, h⟩ := h
  rw [Codec.except_bind_eq_ok] at h
  obtain ⟨number, hnumber, -⟩ := h
  have heq : uuid.drop pos = text := by
    rw [substr] at htext
    split_ifs at htext
    · exact Except.ok.inj htext
    · omega
  rw [heq]
  obtain ⟨c, rest, rfl, -, hrest⟩ := digits_of_parseLongRadix hnumber
  apply hexGroup_of_parse _ hnumber
  intro hmem
  rcases mem_cons.mp hmem with rfl | hmem
  · -- the search would have found it
    have hfind : find 45 uuid pos = some pos := by
      rw [find, heq, List.findIdx?_cons]
      rfl
    have hposition := toInt32_of_range (x := pos) (by omega) (by omega)
    rw [positions] at hlast
    split_ifs at hlast
    · omega
    · rw [Int.toNat_natCast, hfind] at hlast
      have hhead : toInt32 (pos : Int) = -1 := (List.cons.inj hlast).1
      omega
  · exact hrest 45 hmem (by decide)

theorem place_lt {i last : Nat} (hfind : find 45 uuid start = some i) (hbehind : 45 ∉ uuid.drop last) : i < last := by
  obtain ⟨g, -, rfl, hsplit⟩ := split_of_find hfind
  by_contra hge
  apply hbehind
  have hmem : (45 : UInt8) ∈ uuid.drop (start + g.length) := by
    rw [← drop_drop, hsplit, drop_left]
    exact mem_cons_self
  have hle : last + (start + g.length - last) = start + g.length := by omega
  rw [← hle, ← drop_drop] at hmem
  exact mem_of_mem_drop hmem

theorem split_of_position {last : Nat} {before : Int} {ps : List Int}
    (h : positions uuid (turns + 1) before start = p :: ps) (hpos : 0 < p) (hlast : last < 2147483648)
    (hbehind : 45 ∉ uuid.drop last) :
    ∃ g, 45 ∉ g ∧ p = (start + g.length : Nat) ∧ uuid.drop start = g ++ 45 :: uuid.drop (start + g.length + 1) ∧
      ps = positions uuid turns p (start + g.length + 1 : Nat) := by
  obtain ⟨-, hps, hfound⟩ := positions_eq_cons h
  obtain ⟨-, i, hfind, hp⟩ := hfound (by omega)
  rw [Int.toNat_natCast] at hfind
  have hlt := place_lt hfind hbehind
  rw [toInt32_of_range (by omega) (by omega)] at hp
  obtain ⟨g, hdash, rfl, hsplit⟩ := split_of_find hfind
  refine ⟨g, hdash, hp, hsplit, ?_⟩
  rw [hps, hp, toInt32_of_range (by omega) (by omega)]
  rfl

theorem start_of_last {value : BitVec 64} (hpos : 0 < p) (hint : p < 2147483648)
    (h : group uuid (toInt32 (p + 1)) (-1) = .ok value) : toInt32 (p + 1) = (p + 1).toNat ∧ p + 1 < 2147483648 := by
  obtain ⟨text, htext, -⟩ := Codec.except_bind_eq_ok.mp h
  have hnonneg : 0 ≤ toInt32 (p + 1) := by
    rw [substr] at htext
    split_ifs at htext with hrange
    · omega
    · omega
  by_cases hlt : p + 1 < 2147483648
  · exact ⟨by rw [toInt32_of_range (by omega) hlt]; omega, hlt⟩
  · obtain rfl : p = 2147483647 := by omega
    exact absurd hnonneg (by decide)

theorem fiveGroups_of_fromString {u : UUID} (h : fromString uuid = .ok u) : FiveGroups uuid := by
  unfold fromString at h
  split at h
  · rename_i p0 p1 p2 p3 p4 hpositions
    split_ifs at h with hnone h0 h1 h2 h3
    obtain ⟨m1, hm1, h⟩ := Codec.except_bind_eq_ok.mp h
    obtain ⟨m2, hm2, h⟩ := Codec.except_bind_eq_ok.mp h
    obtain ⟨m3, hm3, h⟩ := Codec.except_bind_eq_ok.mp h
    obtain ⟨lsb1, hlsb1, h⟩ := Codec.except_bind_eq_ok.mp h
    obtain ⟨lsb2, hlsb2, -⟩ := Codec.except_bind_eq_ok.mp h
    obtain rfl : p4 = -1 := not_ne_iff.mp hnone
    obtain ⟨-, hrest, -⟩ := positions_eq_cons hpositions
    obtain ⟨hpos0, hrest, -⟩ := positions_eq_cons hrest.symm
    obtain ⟨hpos1, hrest, -⟩ := positions_eq_cons hrest.symm
    obtain ⟨hpos2, hrest, hfourth⟩ := positions_eq_cons hrest.symm
    obtain ⟨hpos3, -, -⟩ := positions_eq_cons hrest.symm
    obtain ⟨-, i, -, hp3⟩ := hfourth (by omega)
    have hint : p3 < 2147483648 := by
      rw [hp3]
      exact (toInt32_range _).2
    obtain ⟨hlast, hlt⟩ := start_of_last hpos3 hint hlsb2
    rw [hlast] at hlsb2 hrest
    have he : HexGroup (uuid.drop (p3 + 1).toNat) := hexGroup_behind (by omega) hrest.symm hlsb2
    have hbehind := he.no_dash
    rw [show (0 : Int) = ((0 : Nat) : Int) from rfl] at hpositions
    obtain ⟨a, ha, hp0, hsplit0, hrest⟩ := split_of_position hpositions hpos0 (by omega) hbehind
    obtain ⟨b, hb, hp1, hsplit1, hrest⟩ := split_of_position hrest.symm hpos1 (by omega) hbehind
    obtain ⟨c, hc, hp2, hsplit2, hrest⟩ := split_of_position hrest.symm hpos2 (by omega) hbehind
    obtain ⟨d, hd, hp3, hsplit3, -⟩ := split_of_position hrest.symm hpos3 (by omega) hbehind
    have hend : (p3 + 1).toNat = 0 + a.length + 1 + b.length + 1 + c.length + 1 + d.length + 1 := by omega
    rw [hend] at he
    rw [hp0] at hm1
    rw [show p0 + 1 = (0 + a.length + 1 : Nat) by omega] at hm2
    rw [show p1 + 1 = (0 + a.length + 1 + b.length + 1 : Nat) by omega] at hm3
    rw [show p2 + 1 = (0 + a.length + 1 + b.length + 1 + c.length + 1 : Nat) by omega] at hlsb1
    have hga : HexGroup a := hexGroup_of_group ha hsplit0 (by omega) hm1
    have hgb : HexGroup b := hexGroup_of_group hb hsplit1 (by omega) hm2
    have hgc : HexGroup c := hexGroup_of_group hc hsplit2 (by omega) hm3
    have hgd : HexGroup d := hexGroup_of_group hd hsplit3 (by omega) hlsb1
    refine ⟨a, b, c, d, uuid.drop (0 + a.length + 1 + b.length + 1 + c.length + 1 + d.length + 1), ?_, ?_⟩
    · rw [joined, ← hsplit3, ← hsplit2, ← hsplit1, ← hsplit0, drop_zero]
    · simp only [mem_cons, not_mem_nil, or_false, forall_eq_or_imp, forall_eq]
      exact ⟨hga, hgb, hgc, hgd, he⟩
  · cases h

/-- The text of a `UUID` has its shape and is read back, and a text that is read is one of five groups. -/
theorem text_roundTrip (u : UUID) {s : ByteString} (h : ¬ FiveGroups s) :
    fromString (toString u) = .ok u ∧ Shaped (toString u) ∧ ∃ e, fromString s = .error e := by
  refine ⟨fromString_toString u, shaped_toString u, ?_⟩
  cases hread : fromString s with
  | error e => exact ⟨e, rfl⟩
  | ok v => exact absurd (fiveGroups_of_fromString hread) h

/-- Two halves with the top bit set, and a text of four groups. -/
theorem text_roundTrip_high :
    fromString (toString ⟨-1, 1 <<< 63⟩) = .ok ⟨-1, 1 <<< 63⟩ ∧ Shaped (toString ⟨-1, 1 <<< 63⟩) ∧
      ∃ e, fromString (ascii "1-2-3-4") = .error e := by
  apply text_roundTrip
  rintro ⟨a, b, c, d, e, heq, -⟩
  have hcount : (joined a b c d e).count 45 = 3 := by rw [← heq]; rfl
  simp only [joined, count_append, count_cons_self] at hcount
  omega

end UUID

end ActiveMQCpp.Decaf
