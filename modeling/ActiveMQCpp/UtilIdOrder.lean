import ActiveMQCpp.DecafNaturalOrder
import ActiveMQCpp.DecafURIHelper
import ActiveMQCpp.StompIdentity

/-! `IdGenerator::compare`: ids are ordered by their seeds and then by their sequence numbers, whose difference is
narrowed to an `int`. -/

namespace ActiveMQCpp.Stomp.IdGenerator

open Codec Decaf MachineInt List StringUtils

variable {start : ByteString} {state : IdGeneratorKernel × IdGenerator}

def getSeedFromId (id : ByteString) : ByteString :=
  if id = [] then id
  else
    match URIHelper.rfind 58 id with
    | some index => if index + 1 < id.length then id.take (index + 1) else id
    | none => id

def getSequenceFromId (id : ByteString) : Except Failure Int :=
  if id = [] then .ok (-1)
  else
    match URIHelper.rfind 58 id with
    | some index => if index + 1 < id.length then Long.parseLong (id.drop (index + 1)) else .ok (-1)
    | none => .ok (-1)

def compare (id1 id2 : ByteString) : Except Failure Int :=
  let seed1 := getSeedFromId id1
  let seed2 := getSeedFromId id2
  if seed1 ≠ [] ∧ seed2 ≠ [] then
    if StringUtils.compare seed1 seed2 = 0 then do
      let count1 ← getSequenceFromId id1
      let count2 ← getSequenceFromId id2
      pure (toInt32 (toInt64 (count1 - count2)))
    else .ok (StringUtils.compare seed1 seed2)
  else .ok (-1)

/-! ### The ids of the generators -/

/-- An id of a generator, with any start of its own, when the kernel was in a state like this. -/
structure GeneratedId where
  kernel : IdGeneratorKernel
  start : ByteString
  sequence : Int
  nonneg : 0 ≤ sequence
  lt : sequence < 9223372036854775808

namespace GeneratedId

def seed (id : GeneratedId) : ByteString := newSeed id.kernel { start := id.start }

def text (id : GeneratedId) : ByteString := id.seed ++ Long.toString id.sequence

theorem seed_eq (id : GeneratedId) : ∃ front, id.seed = front ++ [58] := ⟨_, rfl⟩

theorem text_eq (id : GeneratedId) : ∃ front, id.seed = front ++ [58] ∧ id.text = front ++ 58 :: Long.toString id.sequence := by
  obtain ⟨front, hseed⟩ := id.seed_eq
  refine ⟨front, hseed, ?_⟩
  rw [text, hseed, append_assoc, singleton_append]

theorem parts (id : GeneratedId) : getSeedFromId id.text = id.seed ∧ getSequenceFromId id.text = .ok id.sequence := by
  obtain ⟨front, hseed, htext⟩ := id.text_eq
  have hsequence := toString_spec id.sequence
  have hne : id.text ≠ [] := by
    rw [htext]
    exact append_ne_nil_of_right_ne_nil _ (cons_ne_nil _ _)
  have hfind : URIHelper.rfind 58 id.text = some front.length := by rw [htext, URIHelper.rfind_append front hsequence.2]
  have hlength : front.length + 1 < id.text.length := by
    have hpos := length_pos_iff.mpr hsequence.1
    rw [htext, length_append, length_cons]
    omega
  have hsplit : id.text = id.seed ++ Long.toString id.sequence := rfl
  have hlen : front.length + 1 = id.seed.length := by rw [hseed, length_append, length_singleton]
  constructor
  · rw [getSeedFromId, if_neg hne, hfind]
    dsimp only
    rw [if_pos hlength, hlen, hsplit, take_left]
  · rw [getSequenceFromId, if_neg hne, hfind]
    dsimp only
    rw [if_pos hlength, hlen, hsplit, drop_left]
    have hnonneg := id.nonneg
    exact Long.parseLong_toString (by omega) id.lt

end GeneratedId

/-- The states of a generator with this start, while others count in between. -/
inductive Runs (start : ByteString) : IdGeneratorKernel × IdGenerator → Prop where
  | new (kernel : IdGeneratorKernel) : Runs start (kernel, { start := start })
  | other {kernel : IdGeneratorKernel} {generator : IdGenerator} (next : IdGeneratorKernel)
      (h : Runs start (kernel, generator)) : Runs start (next, generator)
  | generate {state : IdGeneratorKernel × IdGenerator} (h : Runs start state) : Runs start (generateId state).2

theorem Runs.seed (h : Runs start state) : state.2.start = start ∧ 0 ≤ state.2.sequence ∧
      (state.2.seed = [] ∨ ∃ kernel, state.2.seed = newSeed kernel { start := start }) := by
  induction h with
  | new kernel => exact ⟨rfl, le_refl _, .inl rfl⟩
  | other next h ih => exact ih
  | @generate state h ih =>
    obtain ⟨kernel, generator⟩ := state
    obtain ⟨hstart, hnonneg, hseed⟩ := ih
    have hnext : 0 ≤ generator.sequence + 1 := Int.add_nonneg hnonneg Int.one_nonneg
    by_cases hfresh : generator.seed = []
    · rw [generateId_fresh hfresh]
      refine ⟨hstart, hnext, .inr ⟨kernel, ?_⟩⟩
      show newSeed kernel generator = _
      rw [newSeed, newSeed, ← hstart]
    · rw [generateId_seeded hfresh]
      exact ⟨hstart, hnext, hseed⟩

theorem Runs.generates (h : Runs start state) (hlt : state.2.sequence < 9223372036854775808) :
    ∃ id : GeneratedId, id.start = start ∧ id.sequence = state.2.sequence ∧ id.text = (generateId state).1 := by
  obtain ⟨hstart, hnonneg, hseed⟩ := h.seed
  obtain ⟨kernel, generator⟩ := state
  by_cases hfresh : generator.seed = []
  · refine ⟨⟨kernel, start, generator.sequence, hnonneg, hlt⟩, rfl, rfl, ?_⟩
    rw [generateId_fresh hfresh]
    show newSeed kernel { start := start } ++ _ = newSeed kernel generator ++ _
    rw [newSeed, newSeed, ← hstart]
  · obtain ⟨kernel', hkernel'⟩ := hseed.resolve_left hfresh
    refine ⟨⟨kernel', start, generator.sequence, hnonneg, hlt⟩, rfl, rfl, ?_⟩
    rw [generateId_seeded hfresh, hkernel']
    rfl

/-! ### The order -/

variable {S : Set GeneratedId}
variable {a b : GeneratedId}

/-- What `compare` is to do with ids of the set. -/
structure Ordered (S : Set GeneratedId) : Prop where
  sign : ∀ a ∈ S, ∀ b ∈ S, a.seed = b.seed →
    ∃ r, compare a.text b.text = .ok r ∧ r.sign = (a.sequence - b.sequence).sign
  antisymm : ∀ a ∈ S, ∀ b ∈ S,
    ∃ r r', compare a.text b.text = .ok r ∧ compare b.text a.text = .ok r' ∧ r'.sign = -r.sign
  trans : ∀ a ∈ S, ∀ b ∈ S, ∀ c ∈ S, ∀ r r', compare a.text b.text = .ok r → r ≤ 0 →
    compare b.text c.text = .ok r' → r' ≤ 0 → ∃ r'', compare a.text c.text = .ok r'' ∧ r'' ≤ 0
  parts : ∀ a ∈ S, ∃ n, getSequenceFromId a.text = .ok n ∧ getSeedFromId a.text ++ Long.toString n = a.text

/-- The sequence numbers of a seed are so near each other that an `int` holds the difference, or are apart by that much
and a multiple of its range. -/
def Near (S : Set GeneratedId) : Prop :=
  ∀ a ∈ S, ∀ b ∈ S, a.seed = b.seed → a.sequence < b.sequence →
    0 < (b.sequence - a.sequence) % 4294967296 ∧ (b.sequence - a.sequence) % 4294967296 < 2147483648

/-- The seeds are in order, and no two of them are equal in it. -/
structure SeedsOrdered (S : Set GeneratedId) : Prop where
  antisymm : ∀ a ∈ S, ∀ b ∈ S, (StringUtils.compare b.seed a.seed).sign = -(StringUtils.compare a.seed b.seed).sign
  trans : ∀ a ∈ S, ∀ b ∈ S, ∀ c ∈ S, StringUtils.compare a.seed b.seed ≤ 0 → StringUtils.compare b.seed c.seed ≤ 0 →
    StringUtils.compare a.seed c.seed ≤ 0
  eq : ∀ a ∈ S, ∀ b ∈ S, StringUtils.compare a.seed b.seed = 0 → a.seed = b.seed

theorem SeedsOrdered.lt_trans (h : SeedsOrdered S) {c : GeneratedId} (ha : a ∈ S) (hb : b ∈ S) (hc : c ∈ S)
    (hab : StringUtils.compare a.seed b.seed < 0) (hbc : StringUtils.compare b.seed c.seed < 0) :
    StringUtils.compare a.seed c.seed < 0 := by
  have hle := h.trans a ha b hb c hc hab.le hbc.le
  have hne : StringUtils.compare a.seed c.seed ≠ 0 := by
    intro h0
    have hsign := h.antisymm a ha b hb
    rw [h.eq a ha c hc h0, Int.sign_eq_neg_one_of_neg hbc] at hsign
    rw [h.eq a ha c hc h0] at hab
    rw [Int.sign_eq_neg_one_of_neg hab] at hsign
    cases hsign
  omega

/-- Seeds without white space and zero are in order, and so is a seed with itself. -/
theorem seedsOrdered
    (h : (∀ a ∈ S, StringUtils.Plain a.seed) ∨ ∀ a ∈ S, ∀ b ∈ S, a.seed = b.seed) : SeedsOrdered S := by
  rcases h with hplain | hsame
  · refine ⟨fun a ha b hb => ?_, fun a ha b hb c hc => ?_, fun a ha b hb => ?_⟩
    · rw [StringUtils.compare_swap (hplain a ha) (hplain b hb), Int.sign_neg]
    · exact StringUtils.compare_trans (hplain a ha) (hplain b hb) (hplain c hc)
    · exact StringUtils.eq_of_compare (hplain a ha) (hplain b hb)
  · have hself : ∀ a ∈ S, ∀ b ∈ S, StringUtils.compare a.seed b.seed = 0 := by
      intro a ha b hb
      rw [hsame a ha b hb, StringUtils.compare_self]
    refine ⟨fun a ha b hb => ?_, fun a ha b hb c hc _ _ => ?_, fun a ha b hb _ => hsame a ha b hb⟩
    · rw [hself a ha b hb, hself b hb a ha]
      rfl
    · exact (hself a ha c hc).le

/-- What `compare` gives for two ids. -/
def order (a b : GeneratedId) : Int :=
  if StringUtils.compare a.seed b.seed = 0 then toInt32 (a.sequence - b.sequence) else StringUtils.compare a.seed b.seed

theorem compare_text (a b : GeneratedId) : compare a.text b.text = .ok (order a b) := by
  have hne (id : GeneratedId) : id.seed ≠ [] := by
    obtain ⟨front, hseed⟩ := id.seed_eq
    rw [hseed]
    exact append_ne_nil_of_right_ne_nil _ (cons_ne_nil _ _)
  have hlong : toInt64 (a.sequence - b.sequence) = a.sequence - b.sequence := by
    have ha := a.lt
    have hb := b.lt
    have ha' := a.nonneg
    have hb' := b.nonneg
    exact toInt64_of_range (by omega) (by omega)
  simp only [compare, order]
  rw [a.parts.1, b.parts.1, a.parts.2, b.parts.2, if_pos ⟨hne a, hne b⟩]
  split_ifs with hseeds
  · show Except.ok (toInt32 (toInt64 (a.sequence - b.sequence))) = _
    rw [hlong]
  · rfl

theorem order_of_seed (h : a.seed = b.seed) : order a b = toInt32 (a.sequence - b.sequence) := by
  rw [order, h, if_pos (compare_self _)]

theorem Near.sign (h : Near S) (ha : a ∈ S) (hb : b ∈ S) (hseed : a.seed = b.seed) :
    (toInt32 (a.sequence - b.sequence)).sign = (a.sequence - b.sequence).sign := by
  rcases lt_trichotomy a.sequence b.sequence with hlt | heq | hgt
  · have hnear := h a ha b hb hseed hlt
    have hneg : toInt32 (a.sequence - b.sequence) < 0 := by
      unfold toInt32
      omega
    rw [Int.sign_eq_neg_one_of_neg hneg, Int.sign_eq_neg_one_of_neg (by omega)]
  · rw [heq, sub_self]
    rfl
  · have hnear := h b hb a ha hseed.symm hgt
    have hpos : 0 < toInt32 (a.sequence - b.sequence) := by
      unfold toInt32
      omega
    rw [Int.sign_eq_one_of_pos hpos, Int.sign_eq_one_of_pos (by omega)]

theorem Ordered.near (h : Ordered S) : Near S := by
  intro a ha b hb hseed hlt
  obtain ⟨r, hr, hsign⟩ := h.sign b hb a ha hseed.symm
  rw [compare_text, order_of_seed hseed.symm] at hr
  obtain rfl := Except.ok.inj hr
  rw [Int.sign_eq_one_of_pos (a := b.sequence - a.sequence) (by omega)] at hsign
  have hpos := Int.sign_eq_one_iff_pos.mp hsign
  unfold toInt32 at hpos
  omega

/-- The ids are in the order of the seeds, and those of one seed in the order of the numbers. -/
theorem order_nonpos (hseeds : SeedsOrdered S) (hnear : Near S) (ha : a ∈ S) (hb : b ∈ S) :
    order a b ≤ 0 ↔ StringUtils.compare a.seed b.seed < 0 ∨ a.seed = b.seed ∧ a.sequence ≤ b.sequence := by
  by_cases hseed : a.seed = b.seed
  · have hsign := hnear.sign ha hb hseed
    have hself : StringUtils.compare a.seed b.seed = 0 := by rw [hseed, StringUtils.compare_self]
    rw [order_of_seed hseed, hself, ← Int.sign_nonpos_iff, hsign, Int.sign_nonpos_iff]
    simp [hseed]
  · have hne : StringUtils.compare a.seed b.seed ≠ 0 := fun h => hseed (hseeds.eq a ha b hb h)
    rw [order, if_neg hne]
    simp only [hseed, false_and, or_false]
    omega

/-- Seeds in order make an order of the ids. -/
theorem Near.ordered (hnear : Near S) (hseeds : SeedsOrdered S) : Ordered S := by
  refine ⟨fun a ha b hb hseed => ?_, fun a ha b hb => ?_, fun a ha b hb c hc r r' hr hle hr' hle' => ?_, fun a ha => ?_⟩
  · refine ⟨_, compare_text a b, ?_⟩
    rw [order_of_seed hseed]
    exact hnear.sign ha hb hseed
  · refine ⟨_, _, compare_text a b, compare_text b a, ?_⟩
    by_cases hseed : a.seed = b.seed
    · rw [order_of_seed hseed, order_of_seed hseed.symm, hnear.sign ha hb hseed, hnear.sign hb ha hseed.symm,
        ← Int.sign_neg, neg_sub]
    · have hne : StringUtils.compare a.seed b.seed ≠ 0 := fun h => hseed (hseeds.eq a ha b hb h)
      have hne' : StringUtils.compare b.seed a.seed ≠ 0 := fun h => hseed (hseeds.eq b hb a ha h).symm
      rw [order, order, if_neg hne, if_neg hne']
      exact hseeds.antisymm a ha b hb
  · rw [compare_text] at hr hr'
    obtain rfl := Except.ok.inj hr
    obtain rfl := Except.ok.inj hr'
    refine ⟨_, compare_text a c, ?_⟩
    rw [order_nonpos hseeds hnear ha hb] at hle
    rw [order_nonpos hseeds hnear hb hc] at hle'
    rw [order_nonpos hseeds hnear ha hc]
    rcases hle with hlt | ⟨heq, hle⟩
    · rcases hle' with hlt' | ⟨heq', -⟩
      · exact .inl (hseeds.lt_trans ha hb hc hlt hlt')
      · exact .inl (heq' ▸ hlt)
    · rcases hle' with hlt' | ⟨heq', hle'⟩
      · exact .inl (heq ▸ hlt')
      · exact .inr ⟨heq.trans heq', hle.trans hle'⟩
  · refine ⟨a.sequence, a.parts.2, ?_⟩
    rw [a.parts.1]
    rfl

/-- The ids of a set compare as they should only when the sequence numbers of each seed are near, and then they do if
their seeds are in order. -/
theorem ordered_iff_near (S : Set GeneratedId) :
    (Ordered S → Near S) ∧ (SeedsOrdered S → Near S → Ordered S) ∧
      ((∀ a ∈ S, StringUtils.Plain a.seed) ∨ (∀ a ∈ S, ∀ b ∈ S, a.seed = b.seed) → SeedsOrdered S) :=
  ⟨Ordered.near, fun hseeds hnear => hnear.ordered hseeds, seedsOrdered⟩

/-- The numbers 0 and 2147483648 of one seed: each id is before the other one. -/
theorem compare_narrows :
    let first : GeneratedId := ⟨⟨ascii "-1-", 0, ascii "localhost"⟩, [], 0, by decide, by decide⟩
    let second : GeneratedId := ⟨⟨ascii "-1-", 0, ascii "localhost"⟩, [], 2147483648, by decide, by decide⟩
    first.seed = second.seed ∧ compare first.text second.text = .ok (-2147483648) ∧
      compare second.text first.text = .ok (-2147483648) := by
  intro first second
  have hseed : first.seed = second.seed := rfl
  refine ⟨hseed, ?_, ?_⟩
  · rw [compare_text, order_of_seed hseed]
    rfl
  · rw [compare_text, order_of_seed hseed.symm]
    rfl

end ActiveMQCpp.Stomp.IdGenerator
