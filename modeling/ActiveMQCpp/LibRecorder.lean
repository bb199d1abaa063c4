import ActiveMQCpp.LibStream

/-! A recorder that keeps what is written to it in a buffer and starts a new buffer after every store. A store
replaces what was stored before, so a store between two writes loses the earlier one. -/

namespace ActiveMQCpp.Recorder

open List

variable {α : Type}

/-- `opened` tells whether there was a write, if only of nothing. -/
structure State (α : Type) where
  opened : Bool
  stored : Option (List α)
  pending : List α

/-- What a clone is a copy of. -/
structure Snapshot (α : Type) where
  opened : Bool
  stored : Option (List α)

inductive Op (α : Type) where
  | write (xs : List α)
  | clone

def Op.isWrite : Op α → Bool
  | write _ => true
  | clone => false

def written : List (Op α) → List α
  | [] => []
  | .write xs :: ops => xs ++ written ops
  | .clone :: ops => written ops

/-- What a store makes of a buffer; an empty one is not stored. -/
def content (xs : List α) : Option (List α) := if xs = [] then none else some xs

section Runs

variable (canPush canStore : List α → Prop)

inductive Store : State α → State α → Prop
  | empty {opened : Bool} {stored : Option (List α)} : Store ⟨opened, stored, []⟩ ⟨opened, stored, []⟩
  | full {opened : Bool} {stored : Option (List α)} {pending : List α} (hne : pending ≠ []) (hcan : canStore pending) :
      Store ⟨opened, stored, pending⟩ ⟨opened, some pending, []⟩

/-- A run with what its clones hold. -/
inductive Run : State α → List (Op α) → List (Snapshot α) → State α → Prop
  | nil {s : State α} : Run s [] [] s
  | write {opened : Bool} {stored : Option (List α)} {pending xs : List α} {ops : List (Op α)}
      {clones : List (Snapshot α)} {s' : State α} (hcan : canPush (pending ++ xs))
      (hrun : Run ⟨true, stored, pending ++ xs⟩ ops clones s') :
      Run ⟨opened, stored, pending⟩ (.write xs :: ops) clones s'
  | clone {s t s' : State α} {ops : List (Op α)} {clones : List (Snapshot α)} (hstore : Store canStore s t)
      (hrun : Run t ops clones s') : Run s (.clone :: ops) (⟨t.opened, t.stored⟩ :: clones) s'

/-- What the clones should hold: all that was written before them. -/
def expected (opened : Bool) (before : List α) : List (Op α) → List (Snapshot α)
  | [] => []
  | .write xs :: ops => expected true (before ++ xs) ops
  | .clone :: ops => ⟨opened, content before⟩ :: expected opened before ops

end Runs

/-- Nothing is written after a clone that something was written before. -/
def Safe (ops : List (Op α)) : Prop :=
  ∀ pre post, ops = pre ++ .clone :: post → written pre = [] ∨ written post = []

theorem written_append (xs ys : List (Op α)) : written (xs ++ ys) = written xs ++ written ys := by
  induction xs with
  | nil => rfl
  | cons op xs ih =>
    cases op with
    | write zs => rw [cons_append, written, written, ih, append_assoc]
    | clone => rw [cons_append, written, written, ih]

variable {ops : List (Op α)} {s t s' : State α} {clones : List (Snapshot α)}

/-- The clones of a sequence, with what comes before each of them. -/
theorem mem_expected {opened : Bool} {before : List α} {snapshot : Snapshot α} :
    snapshot ∈ expected opened before ops ↔ ∃ pre post, ops = pre ++ .clone :: post ∧
      snapshot = ⟨opened || pre.any Op.isWrite, content (before ++ written pre)⟩ := by
  induction ops generalizing opened before with
  | nil => simp [expected]
  | cons op ops ih =>
    cases op with
    | write xs =>
      rw [expected, ih]
      constructor
      · rintro ⟨pre, post, rfl, rfl⟩
        exact ⟨.write xs :: pre, post, rfl, by simp [Op.isWrite, written]⟩
      · rintro ⟨pre, post, hops, rfl⟩
        cases pre with
        | nil => cases hops
        | cons op pre =>
          cases hops
          exact ⟨pre, post, rfl, by simp [Op.isWrite, written]⟩
    | clone =>
      rw [expected, mem_cons, ih]
      constructor
      · rintro (rfl | ⟨pre, post, rfl, rfl⟩)
        · exact ⟨[], ops, rfl, by simp [written]⟩
        · exact ⟨.clone :: pre, post, rfl, by simp [Op.isWrite, written]⟩
      · rintro ⟨pre, post, hops, rfl⟩
        cases pre with
        | nil => exact .inl (by simp [written])
        | cons op pre =>
          cases hops
          exact .inr ⟨pre, post, rfl, by simp [Op.isWrite, written]⟩

variable {canPush canStore : List α → Prop}

theorem Store.pending (h : Store canStore s t) : t.pending = [] := by
  cases h <;> rfl

theorem Store.opened (h : Store canStore s t) : t.opened = s.opened := by
  cases h <;> rfl

theorem Store.unique {t' : State α} (h : Store canStore s t) (h' : Store canStore s t') : t = t' := by
  cases h with
  | empty =>
    cases h' with
    | empty => rfl
    | full hne _ => exact absurd rfl hne
  | full hne _ =>
    cases h' with
    | empty => exact absurd rfl hne
    | full _ _ => rfl

theorem Run.unique {t' : State α} {clones' : List (Snapshot α)}
    (h : Run canPush canStore s ops clones t) (h' : Run canPush canStore s ops clones' t') : clones = clones' := by
  induction h generalizing clones' t' with
  | nil =>
    cases h'
    rfl
  | write hcan hrun ih =>
    cases h' with
    | write hcan' hrun' => exact ih hrun'
  | clone hstore hrun ih =>
    cases h' with
    | clone hstore' hrun' =>
      obtain rfl := hstore.unique hstore'
      rw [ih hrun']

theorem Run.append {xs ys : List (Op α)} (h : Run canPush canStore s (xs ++ ys) clones s') :
    ∃ t before after, Run canPush canStore s xs before t ∧ Run canPush canStore t ys after s' ∧
      clones = before ++ after := by
  induction xs generalizing s clones with
  | nil => exact ⟨s, [], clones, .nil, h, rfl⟩
  | cons op xs ih =>
    cases h with
    | write hcan hrun =>
      obtain ⟨t, before, after, hxs, hys, rfl⟩ := ih hrun
      exact ⟨t, before, after, .write hcan hxs, hys, rfl⟩
    | clone hstore hrun =>
      obtain ⟨t, before, after, hxs, hys, rfl⟩ := ih hrun
      exact ⟨t, _ :: before, after, .clone hstore hxs, hys, rfl⟩

/-- Where nothing is written and nothing is in the buffer, what is stored stays. -/
theorem Run.stored_kept (h : Run canPush canStore s ops clones s') (hstore : Store canStore s' t)
    (hnil : s.pending ++ written ops = []) : t.stored = s.stored := by
  induction h with
  | nil =>
    cases hstore with
    | empty => rfl
    | full hpending _ => exact absurd (append_eq_nil_iff.mp hnil).1 hpending
  | write hcan hrun ih =>
    rw [written, ← append_assoc] at hnil
    exact ih hstore hnil
  | clone hnext hrun ih =>
    cases hnext with
    | empty => exact ih hstore hnil
    | full hpending _ => exact absurd (append_eq_nil_iff.mp hnil).1 hpending

theorem Run.stored_suffix (h : Run canPush canStore s ops clones s') (hstore : Store canStore s' t)
    (hne : s.pending ++ written ops ≠ []) :
    ∃ r, t.stored = some r ∧ r <:+ s.pending ++ written ops := by
  induction h with
  | nil =>
    cases hstore with
    | empty => exact absurd rfl hne
    | full _ _ => exact ⟨_, rfl, [], by rw [written, append_nil, nil_append]⟩
  | write hcan hrun ih =>
    rw [written, ← append_assoc] at hne
    obtain ⟨r, hr, hsuffix⟩ := ih hstore hne
    refine ⟨r, hr, ?_⟩
    rw [written, ← append_assoc]
    exact hsuffix
  | @clone s u s' ops clones hfirst hrun ih =>
    by_cases hmore : u.pending ++ written ops = []
    · -- nothing is written after this clone, so its own store is the last one
      have hkept := hrun.stored_kept hstore hmore
      have hnil := (append_eq_nil_iff.mp hmore).2
      cases hfirst with
      | empty => exact absurd hmore hne
      | full hpending hcan =>
        exact ⟨_, hkept, [], by rw [written, hnil, append_nil, nil_append]⟩
    · obtain ⟨r, hr, hsuffix⟩ := ih hstore hmore
      rw [hfirst.pending, nil_append] at hsuffix
      exact ⟨r, hr, hsuffix.trans (suffix_append _ _)⟩

theorem Run.opened (h : Run canPush canStore s ops clones s') : s'.opened = (s.opened || ops.any Op.isWrite) := by
  induction h with
  | nil => simp
  | write hcan hrun ih => simp [ih, Op.isWrite]
  | clone hstore hrun ih => simp [ih, hstore.opened, Op.isWrite]

/-- Once everything is stored and nothing more is written, clones hold what is stored. -/
theorem run_stored {all : List α} (hall : all ≠ []) (hpush : canPush []) (h : written ops = []) (opened : Bool) :
    ∃ s, Run canPush canStore ⟨opened, some all, []⟩ ops (expected opened all ops) s ∧ s.pending = [] ∧
      s.stored = some all := by
  induction ops generalizing opened with
  | nil => exact ⟨_, .nil, rfl, rfl⟩
  | cons op ops ih =>
    cases op with
    | write xs =>
      obtain ⟨rfl, hops⟩ := append_eq_nil_iff.mp h
      rw [expected, append_nil]
      obtain ⟨s, hrun, hpending, hstored⟩ := ih hops true
      exact ⟨s, .write hpush hrun, hpending, hstored⟩
    | clone =>
      rw [expected, content, if_neg hall]
      obtain ⟨s, hrun, hpending, hstored⟩ := ih h opened
      exact ⟨s, .clone .empty hrun, hpending, hstored⟩

/-- A run in which nothing is written after a clone that stores something. -/
theorem run_safe (hinit : ∀ xs ys, canPush (xs ++ ys) → canPush xs) (hstorePush : ∀ xs, canStore xs → canPush xs)
    (hnil : canPush []) (opened : Bool) (pending : List α)
    (hsafe : ∀ pre post, ops = pre ++ .clone :: post → pending ++ written pre = [] ∨ written post = [])
    (hfree : pending ++ written ops ≠ [] → canStore (pending ++ written ops)) :
    ∃ s t, Run canPush canStore ⟨opened, none, pending⟩ ops (expected opened pending ops) s ∧ Store canStore s t ∧
      t.stored = content (pending ++ written ops) := by
  induction ops generalizing opened pending with
  | nil =>
    rw [written, append_nil] at *
    by_cases hpending : pending = []
    · subst hpending
      exact ⟨_, _, .nil, .empty, rfl⟩
    · refine ⟨_, _, .nil, .full hpending (hfree hpending), ?_⟩
      rw [content, if_neg hpending]
  | cons op ops ih =>
    cases op with
    | write xs =>
      have hassoc : pending ++ written (.write xs :: ops) = (pending ++ xs) ++ written ops := by
        rw [written, append_assoc]
      rw [hassoc] at hfree ⊢
      obtain ⟨s, t, hrun, hstore, hstored⟩ := ih true (pending ++ xs)
        (fun pre post heq => by
          have := hsafe (.write xs :: pre) post (by rw [heq, cons_append])
          rwa [written, ← append_assoc] at this) hfree
      refine ⟨s, t, .write ?_ hrun, hstore, hstored⟩
      by_cases hempty : (pending ++ xs) ++ written ops = []
      · rw [(append_eq_nil_iff.mp hempty).1]
        exact hnil
      · exact hinit _ _ (hstorePush _ (hfree hempty))
    | clone =>
      rw [written] at hfree ⊢
      by_cases hpending : pending = []
      · subst hpending
        obtain ⟨s, t, hrun, hstore, hstored⟩ := ih opened []
          (fun pre post heq => hsafe (.clone :: pre) post (by rw [heq, cons_append])) hfree
        exact ⟨s, t, .clone .empty hrun, hstore, hstored⟩
      · have hrest : written ops = [] := by
          have := hsafe [] ops rfl
          rw [written, append_nil] at this
          exact this.resolve_left hpending
        rw [hrest, append_nil] at hfree ⊢
        obtain ⟨s, hrun, hempty, hstored⟩ := run_stored hpending hnil hrest opened
        obtain ⟨sopened, sstored, spending⟩ := s
        subst hempty
        refine ⟨⟨sopened, sstored, []⟩, ⟨sopened, sstored, []⟩, ?_, .empty, by rw [content, if_neg hpending]; exact hstored⟩
        rw [expected, content, if_neg hpending]
        exact .clone (.full hpending (hfree hpending)) hrun

/-- Where something is written after a clone that something was written before, the start is lost. -/
theorem Run.lost (hloses : ¬ Safe ops)
    (hrun : Run canPush canStore ⟨false, none, []⟩ ops clones s) (hstore : Store canStore s t) :
    ∃ lost r, lost ≠ [] ∧ written ops = lost ++ r ∧ t.stored = some r := by
  simp only [Safe, not_forall, not_or] at hloses
  obtain ⟨pre, post, rfl, hpre, hpost⟩ := hloses
  obtain ⟨u, before, after, -, hlater, -⟩ := hrun.append
  cases hlater with
  | clone hfirst hrest =>
    obtain ⟨r, hr, hsuffix⟩ := hrest.stored_suffix hstore (by rw [hfirst.pending]; exact hpost)
    rw [hfirst.pending, nil_append] at hsuffix
    obtain ⟨x, hx⟩ := hsuffix
    refine ⟨written pre ++ x, r, fun h => hpre (append_eq_nil_iff.mp h).1, ?_, hr⟩
    rw [written_append, written, ← hx, append_assoc]

theorem Run.stored_of_no_clone {xss : List (List α)} {opened : Bool}
    {pending : List α} (hrun : Run canPush canStore ⟨opened, none, pending⟩ (xss.map .write) clones s)
    (hstore : Store canStore s t) :
    t.stored = content (pending ++ written (xss.map .write)) ∧
      (pending ++ written (xss.map .write) ≠ [] → canStore (pending ++ written (xss.map .write))) := by
  induction xss generalizing opened pending with
  | nil =>
    cases hrun
    rw [map_nil, written, append_nil]
    cases hstore with
    | empty => exact ⟨rfl, fun h => absurd rfl h⟩
    | full hne hcan => exact ⟨by rw [content, if_neg hne], fun _ => hcan⟩
  | cons xs xss ih =>
    cases hrun with
    | write hcan hrest =>
      rw [map_cons, written, ← append_assoc]
      exact ih hrest

/-! ### Programs that behave as a recorder -/

inductive Call (W : Type) where
  | write (w : W)
  | clone (dataStructure : Bool)

/-- A class of objects `σ` whose writes and stores behave as a recorder, and whose clones are copies of what has
just been stored; `content` is what is seen of one from outside. -/
structure Refinement (ε σ W α γ : Type) (canPush canStore : List α → Prop) where
  write : W → EStateM ε σ Unit
  store : EStateM ε σ Unit
  copy : Bool → σ → σ
  clone : Bool → EStateM ε σ σ
  arrays : W → List α
  Accepts : W → Prop
  Holds : σ → State α → Prop
  content : σ → γ
  encode : Snapshot α → γ
  write_ok : ∀ {w m m' opened stored pending}, Holds m ⟨opened, stored, pending⟩ → write w m = .ok () m' →
    Accepts w ∧ canPush (pending ++ arrays w) ∧ Holds m' ⟨true, stored, pending ++ arrays w⟩
  write_returns : ∀ {w m opened stored pending}, Holds m ⟨opened, stored, pending⟩ → Accepts w →
    canPush (pending ++ arrays w) → ∃ m', write w m = .ok () m'
  store_ok : ∀ {m m' s}, Holds m s → store m = .ok () m' → ∃ t, Store canStore s t ∧ Holds m' t
  store_returns : ∀ {m s t}, Holds m s → Store canStore s t → ∃ m', store m = .ok () m'
  clone_eq_ok : ∀ {kind m m' c}, clone kind m = .ok c m' ↔ store m = .ok () m' ∧ c = copy kind m'
  holds_content : ∀ {m s}, Holds m s → content m = encode ⟨s.opened, s.stored⟩
  copy_content : ∀ {m kind opened stored}, Holds m ⟨opened, stored, []⟩ → content (copy kind m) = encode ⟨opened, stored⟩

namespace Refinement

variable {ε σ W γ β : Type} (R : Refinement ε σ W α γ canPush canStore)

/-- The calls on a message, with the clones they return. -/
def calls : List (Call W) → EStateM ε σ (List σ)
  | [] => pure []
  | .write w :: rest => do
    R.write w
    calls rest
  | .clone kind :: rest => do
    let c ← R.clone kind
    let clones ← calls rest
    return c :: clones

def op : Call W → Op α
  | .write w => .write (R.arrays w)
  | .clone _ => .clone

variable {m m' : σ} {clones : List σ} {cs : List (Call W)}

theorem calls_clone_eq_ok {kind : Bool} {rest : List (Call W)} :
    R.calls (.clone kind :: rest) m = .ok clones m' ↔ ∃ t tail, R.store m = .ok () t ∧ R.calls rest t = .ok tail m' ∧
      clones = R.copy kind t :: tail := by
  rw [calls, Codec.bind_eq_ok]
  simp only [Codec.bind_eq_ok, R.clone_eq_ok]
  constructor
  · rintro ⟨c, t, ⟨hstore, rfl⟩, tail, t', hrest, hpure⟩
    cases hpure
    exact ⟨t, tail, hstore, hrest, rfl⟩
  · rintro ⟨t, tail, hstore, hrest, rfl⟩
    exact ⟨_, t, ⟨hstore, rfl⟩, tail, m', hrest, rfl⟩

theorem calls_write_eq_ok {w : W} {rest : List (Call W)} :
    R.calls (.write w :: rest) m = .ok clones m' ↔ ∃ t, R.write w m = .ok () t ∧ R.calls rest t = .ok clones m' := by
  rw [calls, Codec.bind_eq_ok]
  constructor
  · rintro ⟨⟨⟩, t, hwrite, hrest⟩
    exact ⟨t, hwrite, hrest⟩
  · rintro ⟨t, hwrite, hrest⟩
    exact ⟨(), t, hwrite, hrest⟩

theorem run_of_calls {s : State α} (hm : R.Holds m s) (h : R.calls cs m = .ok clones m') :
    ∃ snapshots s', Run canPush canStore s (cs.map R.op) snapshots s' ∧ R.Holds m' s' ∧
      clones.map R.content = snapshots.map R.encode ∧ ∀ w, .write w ∈ cs → R.Accepts w := by
  induction cs generalizing m clones s with
  | nil =>
    cases h
    exact ⟨[], s, .nil, hm, rfl, by simp⟩
  | cons c cs ih =>
    cases c with
    | write w =>
      obtain ⟨t, hwrite, hrest⟩ := R.calls_write_eq_ok.mp h
      obtain ⟨opened, stored, pending⟩ := s
      obtain ⟨haccepts, hcan, hholds⟩ := R.write_ok hm hwrite
      obtain ⟨snapshots, s', hrun, hm', hclones, hall⟩ := ih hholds hrest
      refine ⟨snapshots, s', .write hcan hrun, hm', hclones, ?_⟩
      intro w' hw'
      rcases mem_cons.mp hw' with heq | hmem
      · cases heq
        exact haccepts
      · exact hall w' hmem
    | clone kind =>
      obtain ⟨t, tail, hstore, hrest, rfl⟩ := R.calls_clone_eq_ok.mp h
      obtain ⟨u, hstep, hholds⟩ := R.store_ok hm hstore
      obtain ⟨snapshots, s', hrun, hm', hclones, hall⟩ := ih hholds hrest
      refine ⟨_ :: snapshots, s', .clone hstep hrun, hm', ?_, ?_⟩
      · obtain ⟨opened, stored, pending⟩ := u
        obtain rfl : pending = [] := hstep.pending
        rw [map_cons, map_cons, hclones, R.copy_content hholds]
      · intro w' hw'
        rcases mem_cons.mp hw' with heq | hmem
        · cases heq
        · exact hall w' hmem

theorem calls_of_run {snapshots : List (Snapshot α)} {s s' : State α} (hm : R.Holds m s)
    (h : Run canPush canStore s (cs.map R.op) snapshots s') (haccepts : ∀ w, .write w ∈ cs → R.Accepts w) :
    ∃ clones m', R.calls cs m = .ok clones m' ∧ R.Holds m' s' ∧ clones.map R.content = snapshots.map R.encode := by
  induction cs generalizing m snapshots s with
  | nil =>
    cases h
    exact ⟨[], m, rfl, hm, rfl⟩
  | cons c cs ih =>
    have hrest : ∀ w, .write w ∈ cs → R.Accepts w := fun w hw => haccepts w (mem_cons_of_mem _ hw)
    cases c with
    | write w =>
      cases h with
      | write hcan hrun =>
        obtain ⟨t, hwrite⟩ := R.write_returns hm (haccepts w mem_cons_self) hcan
        obtain ⟨-, -, hholds⟩ := R.write_ok hm hwrite
        obtain ⟨clones, m', hcalls, hm', hclones⟩ := ih hholds hrun hrest
        exact ⟨clones, m', R.calls_write_eq_ok.mpr ⟨t, hwrite, hcalls⟩, hm', hclones⟩
    | clone kind =>
      cases h with
      | @clone _ u _ _ _ hstep hrun =>
        obtain ⟨t, hstore⟩ := R.store_returns hm hstep
        obtain ⟨u', hstep', hholds⟩ := R.store_ok hm hstore
        obtain rfl := hstep.unique hstep'
        obtain ⟨clones, m', hcalls, hm', hclones⟩ := ih hholds hrun hrest
        refine ⟨_, m', R.calls_clone_eq_ok.mpr ⟨t, clones, hstore, hcalls, rfl⟩, hm', ?_⟩
        obtain ⟨opened, stored, pending⟩ := u
        obtain rfl : pending = [] := hstep.pending
        rw [map_cons, map_cons, hclones, R.copy_content hholds]

def writes : List (Call W) → List W
  | [] => []
  | .write w :: cs => w :: writes cs
  | .clone _ :: cs => writes cs

/-- The clones leave no trace: the calls return, the message ends with the content `free`, and the body of
each clone is what was written before it. -/
def Unnoticed (body : γ → Option β) (flat : List α → β) (m : σ) (cs : List (Call W)) (free : γ) : Prop :=
  ∃ clones t m', R.calls cs m = .ok clones t ∧ R.store t = .ok () m' ∧ R.content m' = free ∧
    clones.map (fun c => body (R.content c))
      = (expected false [] (cs.map R.op)).map fun snapshot => some (flat (snapshot.stored.getD []))

theorem written_map_op (cs : List (Call W)) :
    written (cs.map R.op) = written ((writes cs).map fun w => .write (R.arrays w)) := by
  induction cs with
  | nil => rfl
  | cons c cs ih =>
    cases c with
    | write w => simp only [map_cons, op, written, writes, ih]
    | clone kind => simp only [map_cons, op, written, writes, ih]

theorem any_write_map_op (cs : List (Call W)) : (cs.map R.op).any Op.isWrite = !(writes cs).isEmpty := by
  induction cs with
  | nil => rfl
  | cons c cs ih =>
    cases c with
    | write w => simp [op, writes, Op.isWrite]
    | clone kind =>
      rw [map_cons, any_cons, ih]
      rfl

theorem written_map_op_eq_nil : written (cs.map R.op) = [] ↔ ∀ w ∈ writes cs, R.arrays w = [] := by
  induction cs with
  | nil => simp [written, writes]
  | cons c cs ih =>
    cases c with
    | write w => simp [op, written, writes, ih]
    | clone kind => simpa [op, written, writes] using ih

/-- Where the clones are among the calls. -/
theorem map_op_eq_append {pre post : List (Op α)} : cs.map R.op = pre ++ .clone :: post ↔
      ∃ before kind after, cs = before ++ .clone kind :: after ∧ before.map R.op = pre ∧ after.map R.op = post := by
  constructor
  · intro h
    obtain ⟨before, rest, rfl, hbefore, hrest⟩ := map_eq_append_iff.mp h
    obtain ⟨c, after, rfl, hc, hafter⟩ := map_eq_cons_iff.mp hrest
    cases c with
    | write w => cases hc
    | clone kind => exact ⟨before, kind, after, rfl, hbefore, hafter⟩
  · rintro ⟨before, kind, after, rfl, rfl, rfl⟩
    rw [map_append, map_cons]
    rfl

theorem calls_writes (ws : List W) (m : σ) :
    ws.forM R.write m = .ok () m' ↔ R.calls (ws.map .write) m = .ok [] m' := by
  induction ws generalizing m with
  | nil => exact ⟨fun h => by cases h; rfl, fun h => by cases h; rfl⟩
  | cons w ws ih =>
    rw [Codec.forM_cons_eq_ok, map_cons, calls_write_eq_ok]
    simp only [ih]

/-- What a message holds whose writes are not interrupted by clones. -/
theorem free_content {ws : List W} {t : σ} (hm : R.Holds m ⟨false, none, []⟩) (hwrites : ws.forM R.write m = .ok () t)
    (hstore : R.store t = .ok () m') :
    R.content m' = R.encode ⟨!ws.isEmpty, Recorder.content (written (ws.map fun w => .write (R.arrays w)))⟩ ∧
      (∀ w ∈ ws, R.Accepts w) ∧
      (written (ws.map fun w => .write (R.arrays w)) ≠ [] →
        canStore (written (ws.map fun w => .write (R.arrays w)))) := by
  obtain ⟨snapshots, s, hrun, hholds, -, haccepts⟩ := R.run_of_calls hm ((R.calls_writes ws m).mp hwrites)
  obtain ⟨u, hstep, hfinal⟩ := R.store_ok hholds hstore
  have hmap : (ws.map .write).map R.op = (ws.map R.arrays).map .write := by
    simp only [map_map]
    rfl
  have hopened := hrun.opened
  rw [R.any_write_map_op] at hopened
  rw [hmap] at hrun
  obtain ⟨hstored, hcan⟩ := hrun.stored_of_no_clone hstep
  have hsame : (ws.map fun w => Op.write (R.arrays w)) = (ws.map R.arrays).map .write := by
    rw [map_map]
    rfl
  have hws : writes (ws.map Call.write) = ws := by
    clear hwrites hrun hmap hsame haccepts hopened hcan hstored
    induction ws with
    | nil => rfl
    | cons w ws ih => rw [map_cons, writes, ih]
  rw [hsame]
  refine ⟨?_, fun w hw => haccepts w (mem_map_of_mem hw), hcan⟩
  rw [R.holds_content hfinal, hstep.opened, hopened, hstored, hws, Bool.false_or, nil_append]

/-- Clones leave no trace exactly when nothing is written after a clone that something was written before
and every clone can be read for what was written before it. -/
theorem unnoticed_iff (body : γ → Option β) (flat : List α → β)
    (hinit : ∀ xs ys, canPush (xs ++ ys) → canPush xs) (hstorePush : ∀ xs, canStore xs → canPush xs)
    (hnil : canPush []) {t free : σ} (hm : R.Holds m ⟨false, none, []⟩)
    (hwrites : (writes cs).forM R.write m = .ok () t) (hstore : R.store t = .ok () free)
    (hlost : ∀ lost r, lost ≠ [] → written (cs.map R.op) = lost ++ r →
      R.encode ⟨true, some r⟩ ≠ R.encode ⟨true, some (lost ++ r)⟩) :
    R.Unnoticed body flat m cs (R.content free) ↔ Safe (cs.map R.op) ∧
      ∀ snapshot ∈ expected false [] (cs.map R.op),
        body (R.encode snapshot) = some (flat (snapshot.stored.getD [])) := by
  obtain ⟨hfree, haccepts, hcan⟩ := R.free_content hm hwrites hstore
  rw [← R.written_map_op] at hfree hcan
  have hmem : ∀ w, .write w ∈ cs → R.Accepts w := by
    intro w hw
    apply haccepts
    clear hwrites hfree haccepts hcan hlost
    induction cs with
    | nil => cases hw
    | cons c cs ih =>
      rcases mem_cons.mp hw with rfl | hmem
      · exact mem_cons_self
      · cases c with
        | write w' => exact mem_cons_of_mem _ (ih hmem)
        | clone kind => exact ih hmem
  constructor
  · rintro ⟨clones, t', m', hcalls, hlast, hcontent, hbodies⟩
    obtain ⟨snapshots, s, hrun, hholds, hclones, -⟩ := R.run_of_calls hm hcalls
    obtain ⟨u, hstep, hfinal⟩ := R.store_ok hholds hlast
    have hopened := hrun.opened
    rw [R.any_write_map_op, Bool.false_or] at hopened
    have hsafe : Safe (cs.map R.op) := by
      by_contra hloses
      obtain ⟨lost, r, hne, hall, hstored⟩ := hrun.lost hloses hstep
      have hsome : lost ++ r ≠ [] := fun h => hne (append_eq_nil_iff.mp h).1
      have hany : writes cs ≠ [] := by
        intro hempty
        rw [R.written_map_op, hempty] at hall
        exact hsome hall.symm
      have htrue : (!(writes cs).isEmpty) = true := by simpa using hany
      rw [R.holds_content hfinal, hfree, hstep.opened, hopened, hstored, hall, Recorder.content, if_neg hsome,
        htrue] at hcontent
      exact hlost lost r hne hall hcontent
    obtain ⟨s', t'', hsafeRun, -, -⟩ := run_safe hinit hstorePush hnil false [] (fun pre post h => hsafe pre post h) hcan
    obtain rfl : snapshots = expected false [] (cs.map R.op) := hrun.unique hsafeRun
    refine ⟨hsafe, ?_⟩
    have hmap : (expected false [] (cs.map R.op)).map (fun snapshot => body (R.encode snapshot))
        = (expected false [] (cs.map R.op)).map fun snapshot => some (flat (snapshot.stored.getD [])) := by
      calc (expected false [] (cs.map R.op)).map (fun snapshot => body (R.encode snapshot))
          = ((expected false [] (cs.map R.op)).map R.encode).map body := by rw [map_map]; rfl
        _ = (clones.map R.content).map body := by rw [hclones]
        _ = clones.map (fun c => body (R.content c)) := by rw [map_map]; rfl
        _ = _ := hbodies
    exact map_inj_left.mp hmap
  · rintro ⟨hsafe, hreadable⟩
    obtain ⟨s, u, hrun, hstep, hstored⟩ :=
      run_safe hinit hstorePush hnil false [] (fun pre post h => hsafe pre post h) hcan
    obtain ⟨clones, t', hcalls, hholds, hclones⟩ := R.calls_of_run hm hrun hmem
    obtain ⟨m', hlast⟩ := R.store_returns hholds hstep
    obtain ⟨u', hstep', hfinal⟩ := R.store_ok hholds hlast
    obtain rfl := hstep.unique hstep'
    have hopened := hrun.opened
    rw [R.any_write_map_op, Bool.false_or] at hopened
    refine ⟨clones, t', m', hcalls, hlast, ?_, ?_⟩
    · rw [R.holds_content hfinal, hfree, hstep.opened, hopened, hstored, nil_append]
    · calc clones.map (fun c => body (R.content c))
          = (clones.map R.content).map body := by rw [map_map]; rfl
        _ = ((expected false [] (cs.map R.op)).map R.encode).map body := by rw [hclones]
        _ = (expected false [] (cs.map R.op)).map (fun snapshot => body (R.encode snapshot)) := by
            rw [map_map]; rfl
        _ = _ := map_inj_left.mpr hreadable

theorem clones_iff (body : γ → Option β) (flat : List α → β) :
    (Safe (cs.map R.op) ∧ ∀ snapshot ∈ expected false [] (cs.map R.op),
        body (R.encode snapshot) = some (flat (snapshot.stored.getD []))) ↔
      ∀ pre kind post, cs = pre ++ .clone kind :: post →
        ((∀ w ∈ writes pre, R.arrays w = []) ∨ ∀ w ∈ writes post, R.arrays w = []) ∧
          body (R.encode ⟨!(writes pre).isEmpty, Recorder.content (written (pre.map R.op))⟩)
            = some (flat (written (pre.map R.op))) := by
  have hgetD (xs : List α) : (Recorder.content xs).getD [] = xs := by
    unfold Recorder.content
    split_ifs with h
    · exact h.symm
    · rfl
  constructor
  · rintro ⟨hsafe, hbody⟩ pre kind post rfl
    have hsplit := R.map_op_eq_append.mpr ⟨pre, kind, post, rfl, rfl, rfl⟩
    refine ⟨?_, ?_⟩
    · rw [← R.written_map_op_eq_nil, ← R.written_map_op_eq_nil]
      exact hsafe _ _ hsplit
    · have := hbody _ (mem_expected.mpr ⟨_, _, hsplit, rfl⟩)
      rwa [R.any_write_map_op, Bool.false_or, nil_append, hgetD] at this
  · intro hall
    constructor
    · intro pre post hsplit
      obtain ⟨before, kind, after, hcs, rfl, rfl⟩ := R.map_op_eq_append.mp hsplit
      rw [R.written_map_op_eq_nil, R.written_map_op_eq_nil]
      exact (hall before kind after hcs).1
    · intro snapshot hmem
      obtain ⟨pre, post, hsplit, rfl⟩ := mem_expected.mp hmem
      obtain ⟨before, kind, after, hcs, rfl, rfl⟩ := R.map_op_eq_append.mp hsplit
      rw [R.any_write_map_op, Bool.false_or, nil_append, hgetD]
      exact (hall before kind after hcs).2

end Refinement

end ActiveMQCpp.Recorder
