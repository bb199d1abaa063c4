import ActiveMQCpp.DecafExceptions
import ActiveMQCpp.LibRuns
import Mathlib.Data.List.Nodup

/-! `BackupTransportPool`: connections that the failover transport holds ready. Those to a priority broker stand
first in the list and are counted apart. -/

namespace ActiveMQCpp.Backup

open Codec Decaf Runs List

variable {υ : Type} [DecidableEq υ]

/-! ### URI pools -/

/-- `URIPool`. The priority URI is the first that was ever put in. -/
structure URIPool (υ : Type) where
  uris : List υ := []
  priorityURI : Option υ := none
  randomize : Bool := false

namespace URIPool

def getURI (index : Nat) (p : URIPool υ) : Option (υ × URIPool υ) :=
  let i := if p.randomize then index % p.uris.length else 0
  (p.uris[i]?).map fun uri => (uri, { p with uris := p.uris.eraseIdx i })

def addURI (p : URIPool υ) (uri : υ) : URIPool υ :=
  { p with
    priorityURI := p.priorityURI.or (some uri)
    uris := if uri ∈ p.uris then p.uris else p.uris ++ [uri] }

def addURIs (p : URIPool υ) (uris : List υ) : URIPool υ := uris.foldl addURI p

def contains (p : URIPool υ) (uri : υ) : Bool := uri ∈ p.uris

def isEmpty (p : URIPool υ) : Bool := p.uris.isEmpty

def isPriority (p : URIPool υ) (uri : υ) : Bool := p.priorityURI = some uri

end URIPool

/-! ### The pool -/

/-- `BackupTransport`, told from others by `ref`; its transport goes by the same number. -/
structure BackupTransport (υ : Type) where
  ref : Nat
  uri : υ
  priority : Bool
  deriving DecidableEq

structure Parent where
  isPriorityBackup : Bool
  isConnectedToPriority : Bool

/-- What one turn of the loop of `iterate` meets with: the index of a random choice, and whether the transport
can be created and started. -/
structure Turn where
  index : Nat := 0
  connects : Bool

/-- `created` are all backups that there ever were, in the order of their numbers. -/
structure BackupTransportPool (υ : Type) where
  backups : List (BackupTransport υ) := []
  priorityBackups : Int := 0
  pending : Bool := false
  closed : Bool := false
  enabled : Bool := false
  backupPoolSize : Int := 1
  uriPool : URIPool υ := {}
  updates : URIPool υ := {}
  priorityUriPool : URIPool υ := {}
  closeTask : List (BackupTransport υ) := []
  created : List (BackupTransport υ) := []

namespace BackupTransportPool

def close (s : BackupTransportPool υ) : BackupTransportPool υ :=
  if s.closed then s else { s with enabled := false, closed := true, backups := [] }

def setEnabled (value : Bool) (s : BackupTransportPool υ) : BackupTransportPool υ :=
  if s.closed then s
  else if value then { s with enabled := true }
  else { s with enabled := false, backups := [] }

def getBackup : EStateM Failure (BackupTransportPool υ) (Option (BackupTransport υ)) := fun s =>
  if s.enabled then .ok s.backups.head? { s with backups := s.backups.tail, pending := true }
  else .error (.thrown .illegalStateException "The Backup Pool is not enabled.") s

def shouldBuildBackup (parent : Parent) (s : BackupTransportPool υ) : Bool :=
  s.enabled && (parent.isPriorityBackup && !parent.isConnectedToPriority && s.priorityBackups = 0 ||
    s.backups.length < s.backupPoolSize)

/-- A connection to this URI is a priority connection. -/
def isPriorityURI (s : BackupTransportPool υ) (uriPool : URIPool υ) (uri : υ) : Bool :=
  s.priorityUriPool.contains uri || s.priorityUriPool.isEmpty && uriPool.isPriority uri

/-- A new backup goes to the front of the list if it has priority. -/
def addBackup (uri : υ) (priority : Bool) (s : BackupTransportPool υ) : BackupTransportPool υ :=
  let backup : BackupTransport υ := ⟨s.created.length, uri, priority⟩
  { s with
    priorityBackups := if priority then s.priorityBackups + 1 else s.priorityBackups
    backups := if priority then backup :: s.backups else s.backups ++ [backup]
    created := s.created ++ [backup] }

/-- The loop of `iterate`, which takes its URIs from `uriPool` and ends with what is left of them and those that
failed. Every turn takes a URI, so that there are no more turns than URIs. -/
def buildBackups (parent : Parent) (turns : Nat → Turn) :
    Nat → Nat → URIPool υ → List υ → BackupTransportPool υ → URIPool υ × List υ × BackupTransportPool υ
  | 0, _, uriPool, failures, s => (uriPool, failures, s)
  | fuel + 1, n, uriPool, failures, s =>
    if s.shouldBuildBackup parent then
      match uriPool.getURI (turns n).index with
      | none => (uriPool, failures, s)
      | some (connectTo, uriPool) =>
        if (turns n).connects then
          let priority := s.isPriorityURI uriPool connectTo
          -- The parent is woken up and takes the connection, so that the loop ends.
          if priority && !parent.isConnectedToPriority then (uriPool, failures, s.addBackup connectTo priority)
          else buildBackups parent turns fuel (n + 1) uriPool failures (s.addBackup connectTo priority)
        else buildBackups parent turns fuel (n + 1) uriPool (failures ++ [connectTo]) s
    else (uriPool, failures, s)

/-- Fill up the list with connections to the URIs of this pool; those that failed go back to it. -/
def fill (parent : Parent) (turns : Nat → Turn) (uriPool : URIPool υ) (s : BackupTransportPool υ) :
    URIPool υ × BackupTransportPool υ :=
  let built := buildBackups parent turns (uriPool.uris.length + 1) 0 uriPool [] s
  (built.1.addURIs built.2.1, { built.2.2 with pending := false })

/-- `iterate`, which prefers the URIs that the broker sent. -/
def iterate (parent : Parent) (turns : Nat → Turn) (s : BackupTransportPool υ) : BackupTransportPool υ :=
  if s.updates.isEmpty then { (s.fill parent turns s.uriPool).2 with uriPool := (s.fill parent turns s.uriPool).1 }
  else { (s.fill parent turns s.updates).2 with updates := (s.fill parent turns s.updates).1 }

/-- One turn of the loop of `onBackupTransportFailure`: only the removal is inside the `if`. -/
def failureTurn (failed : BackupTransport υ) (s : BackupTransportPool υ) (next : BackupTransport υ) :
    BackupTransportPool υ :=
  { s with
    backups := if next.ref = failed.ref then s.backups.erase next else s.backups
    priorityBackups :=
      if failed.priority && s.priorityBackups > 0 then s.priorityBackups - 1 else s.priorityBackups
    uriPool := s.uriPool.addURI failed.uri
    closeTask := s.closeTask ++ [failed] }

def onBackupTransportFailure (failed : BackupTransport υ) (s : BackupTransportPool υ) : BackupTransportPool υ :=
  s.backups.foldl (failureTurn failed) s

/-! ### Runs -/

inductive Event (υ : Type) where
  | iterate (parent : Parent) (turns : Nat → Turn)
  | getBackup
  | onBackupTransportFailure (failed : BackupTransport υ)
  | setEnabled (value : Bool)
  | close
  | configure (uriPool updates priorityUriPool : URIPool υ) (backupPoolSize : Int)

/-- Only a backup that was created can fail. The pools of URIs and the size are the parent's to change. -/
def step (s : BackupTransportPool υ) : Event υ → Option (BackupTransportPool υ)
  | .iterate parent turns => some (s.iterate parent turns)
  | .getBackup => some (stateOf (getBackup s))
  | .onBackupTransportFailure failed =>
    if failed ∈ s.created then some (s.onBackupTransportFailure failed) else none
  | .setEnabled value => some (s.setEnabled value)
  | .close => some s.close
  | .configure uriPool updates priorityUriPool backupPoolSize =>
    some { s with uriPool, updates, priorityUriPool, backupPoolSize }

/-- The counter is the number of priority backups. -/
def Exact (s : BackupTransportPool υ) : Prop := s.priorityBackups = s.backups.countP BackupTransport.priority

/-- The backup is removed and closed, its URI is back in the pool, and the others stay. -/
structure Handled (s : BackupTransportPool υ) (failed : BackupTransport υ) (s' : BackupTransportPool υ) : Prop where
  backups : s'.backups = s.backups.erase failed
  closeTask : s'.closeTask = s.closeTask ++ [failed]
  uriPool : s'.uriPool = s.uriPool.addURI failed.uri

/-- The counter is right after the event, `getBackup` prefers priority backups, and the failure of a backup in
the list is handled. -/
structure Behaves (s : BackupTransportPool υ) (e : Event υ) : Prop where
  exact : ∀ s', step s e = some s' → s'.Exact
  prefers : ∀ b s', e = .getBackup → getBackup s = .ok (some b) s' → (∃ p ∈ s.backups, p.priority = true) →
    b.priority = true
  handles : ∀ failed s', e = .onBackupTransportFailure failed → failed ∈ s.backups → step s e = some s' →
    s.Handled failed s'

/-- No priority backup is handed out or dropped, a backup in the list fails only if it is the only one there, and
one that is not fails only if it has no priority or none in the list has. -/
def Orderly (s : BackupTransportPool υ) : Event υ → Prop
  | .getBackup => s.enabled = true → ∀ b, s.backups.head? = some b → b.priority = false
  | .onBackupTransportFailure failed =>
    if failed ∈ s.backups then s.backups = [failed]
    else failed ∈ s.created → failed.priority = true → ∀ b ∈ s.backups, b.priority = false
  | .setEnabled value => s.closed = false → value = false → ∀ b ∈ s.backups, b.priority = false
  | .close => s.closed = false → ∀ b ∈ s.backups, b.priority = false
  | .iterate _ _ => True
  | .configure _ _ _ _ => True

/-! ### What holds in every run -/

/-- The list holds backups that were created, each once and those with priority first. -/
structure Sound (s : BackupTransportPool υ) : Prop where
  numbered : s.created.map BackupTransport.ref = List.range s.created.length
  listed : ∀ b ∈ s.backups, b ∈ s.created
  nodup : s.backups.Nodup
  first : s.backups.Pairwise fun a b => b.priority = true → a.priority = true

variable {s : BackupTransportPool υ} {failed : BackupTransport υ}
variable {s' : BackupTransportPool υ} {e : Event υ}
variable {b : BackupTransport υ} {inv : BackupTransportPool υ → Prop}

omit [DecidableEq υ] in
theorem Sound.ref_inj (h : s.Sound) {a : BackupTransport υ} (ha : a ∈ s.created) (hb : b ∈ s.created)
    (href : a.ref = b.ref) : a = b := by
  have hnodup : (s.created.map BackupTransport.ref).Nodup := h.numbered ▸ nodup_range
  exact inj_on_of_nodup_map hnodup ha hb href

omit [DecidableEq υ] in
theorem Sound.addBackup (h : s.Sound) (uri : υ) (priority : Bool) : (s.addBackup uri priority).Sound := by
  have hfresh : ∀ b ∈ s.created, b.ref < s.created.length := by
    intro b hb
    have hmem := mem_map_of_mem (f := BackupTransport.ref) hb
    rw [h.numbered] at hmem
    exact mem_range.mp hmem
  have hnew : (⟨s.created.length, uri, priority⟩ : BackupTransport υ) ∉ s.backups := by
    intro hmem
    exact lt_irrefl _ (hfresh _ (h.listed _ hmem))
  constructor
  · show (s.created ++ [_]).map BackupTransport.ref = List.range (s.created ++ [_]).length
    rw [map_append, h.numbered, length_append, length_singleton, range_succ]
    rfl
  · intro b hb
    have hold : b ∈ s.backups ∨ b = ⟨s.created.length, uri, priority⟩ := by
      cases priority with
      | true => exact (mem_cons.mp hb).symm
      | false => exact (mem_append.mp hb).imp_right mem_singleton.mp
    rcases hold with hmem | rfl
    · exact mem_append_left _ (h.listed b hmem)
    · exact mem_append_right _ mem_cons_self
  · cases priority with
    | true => exact nodup_cons.mpr ⟨hnew, h.nodup⟩
    | false =>
      show (s.backups ++ [_]).Nodup
      rw [← concat_eq_append]
      exact h.nodup.concat hnew
  · cases priority with
    | true => exact pairwise_cons.mpr ⟨fun _ _ _ => rfl, h.first⟩
    | false =>
      refine pairwise_append.mpr ⟨h.first, pairwise_singleton _ _, fun a _ b hb hpriority => ?_⟩
      rw [mem_singleton.mp hb] at hpriority
      cases hpriority

omit [DecidableEq υ] in
theorem Exact.addBackup (h : s.Exact) (uri : υ) (priority : Bool) : (s.addBackup uri priority).Exact := by
  unfold Exact at h ⊢
  cases priority with
  | true => simp [BackupTransportPool.addBackup, h]
  | false => simp [BackupTransportPool.addBackup, h]

omit [DecidableEq υ] in
theorem length_getURI {index : Nat} {p p' : URIPool υ} {uri : υ} (h : p.getURI index = some (uri, p')) :
    p'.uris.length < p.uris.length := by
  obtain ⟨found, hfound, heq⟩ := Option.map_eq_some_iff.mp h
  have hlt := (List.getElem?_eq_some_iff.mp hfound).1
  cases heq
  show (p.uris.eraseIdx _).length < p.uris.length
  rw [length_eraseIdx_of_lt hlt]
  omega

/-- The loop ends because there is no URI left or no backup wanted, not for want of turns. -/
theorem buildBackups_turns (parent : Parent) (turns : Nat → Turn) {fuel fuel' n : Nat} {uriPool : URIPool υ}
    {failures : List υ} (hfuel : uriPool.uris.length < fuel) (hfuel' : uriPool.uris.length < fuel') :
    buildBackups parent turns fuel n uriPool failures s = buildBackups parent turns fuel' n uriPool failures s := by
  induction fuel generalizing fuel' n uriPool failures s with
  | zero => omega
  | succ fuel ih =>
    obtain ⟨fuel', rfl⟩ := Nat.exists_eq_succ_of_ne_zero (Nat.ne_zero_of_lt hfuel')
    rw [buildBackups, buildBackups]
    cases hget : uriPool.getURI (turns n).index with
    | none => rfl
    | some taken =>
      have hlt := length_getURI hget
      have hrest := fun s failures => @ih s fuel' (n + 1) taken.2 failures (by omega) (by omega)
      simp only [hrest]

/-- What every new backup keeps, the loop of `iterate` keeps. -/
theorem buildBackups_invariant
    (hadd : ∀ s uri priority, inv s → inv (s.addBackup uri priority)) (parent : Parent) (turns : Nat → Turn)
    (fuel n : Nat) (uriPool : URIPool υ) (failures : List υ) (h : inv s) :
    inv (buildBackups parent turns fuel n uriPool failures s).2.2 := by
  induction fuel generalizing n uriPool failures s with
  | zero => exact h
  | succ fuel ih =>
    rw [buildBackups]
    by_cases hbuild : s.shouldBuildBackup parent = true
    · rw [if_pos hbuild]
      cases uriPool.getURI (turns n).index with
      | none => exact h
      | some taken =>
        dsimp only
        split_ifs
        · exact hadd s _ _ h
        · exact ih _ _ _ (hadd s _ _ h)
        · exact ih _ _ _ h
    · rw [if_neg hbuild]
      exact h

omit [DecidableEq υ] in
theorem Sound.of_sublist (h : s.Sound) (hcreated : s'.created = s.created)
    (hsub : s'.backups.Sublist s.backups) : s'.Sound where
  numbered := hcreated ▸ h.numbered
  listed b hb := hcreated ▸ h.listed b (hsub.subset hb)
  nodup := h.nodup.sublist hsub
  first := h.first.sublist hsub

/-- What every new backup keeps, and no pool of URIs plays a part in, `iterate` keeps. -/
theorem iterate_invariant (hadd : ∀ s uri priority, inv s → inv (s.addBackup uri priority))
    (hpools : ∀ s uriPool updates, inv s → inv { s with uriPool := uriPool, updates := updates, pending := false })
    (parent : Parent) (turns : Nat → Turn) (h : inv s) : inv (s.iterate parent turns) := by
  have hfill : ∀ uriPool, inv (s.fill parent turns uriPool).2 := fun uriPool =>
    hpools _ _ _ (buildBackups_invariant hadd parent turns (uriPool.uris.length + 1) 0 uriPool [] h)
  unfold iterate
  split_ifs
  · exact hpools _ _ _ (hfill s.uriPool)
  · exact hpools _ _ _ (hfill s.updates)

theorem Sound.iterate (h : s.Sound) (parent : Parent) (turns : Nat → Turn) : (s.iterate parent turns).Sound :=
  iterate_invariant (fun _ uri priority hs => hs.addBackup uri priority)
    (fun _ _ _ hs => hs.of_sublist rfl (List.Sublist.refl _)) parent turns h

theorem Exact.iterate (h : s.Exact) (parent : Parent) (turns : Nat → Turn) : (s.iterate parent turns).Exact :=
  iterate_invariant (fun _ uri priority hs => hs.addBackup uri priority) (fun _ _ _ hs => hs) parent turns h

/-! ### The loop of `onBackupTransportFailure` -/

theorem foldl_failureTurn_backups {l : List (BackupTransport υ)} (hnodup : l.Nodup)
    (hl : ∀ next ∈ l, next.ref = failed.ref → next = failed) :
    (l.foldl (failureTurn failed) s).backups = if failed ∈ l then s.backups.erase failed else s.backups := by
  induction l generalizing s with
  | nil => rfl
  | cons next l ih =>
    obtain ⟨hnot, hrest⟩ := nodup_cons.mp hnodup
    rw [foldl_cons, ih hrest fun b hb => hl b (mem_cons_of_mem _ hb)]
    by_cases hnext : next = failed
    · subst hnext
      rw [if_neg hnot, if_pos mem_cons_self]
      exact if_pos rfl
    · have hkept : (failureTurn failed s next).backups = s.backups :=
        if_neg fun href => hnext (hl next mem_cons_self href)
      have hmem : failed ∈ next :: l ↔ failed ∈ l := by
        rw [mem_cons, or_iff_right (Ne.symm hnext)]
      simp only [hkept, hmem]

/-- The rest is done once for every backup in the list. -/
theorem foldl_failureTurn (l : List (BackupTransport υ)) (hcount : 0 ≤ s.priorityBackups) :
    (l.foldl (failureTurn failed) s).priorityBackups = (if failed.priority then
          if s.priorityBackups ≤ l.length then 0 else s.priorityBackups - l.length
        else s.priorityBackups) ∧
      (l.foldl (failureTurn failed) s).closeTask = s.closeTask ++ List.replicate l.length failed ∧
      (l.foldl (failureTurn failed) s).created = s.created := by
  induction l generalizing s with
  | nil =>
    refine ⟨?_, (append_nil _).symm, rfl⟩
    show s.priorityBackups = _
    rw [length_nil]
    split_ifs <;> omega
  | cons next l ih =>
    have hturn : (failureTurn failed s next).priorityBackups =
        if failed.priority then if s.priorityBackups ≤ 1 then 0 else s.priorityBackups - 1
        else s.priorityBackups := by
      simp only [failureTurn]
      cases failed.priority with
      | false => rfl
      | true =>
        simp only [Bool.true_and, decide_eq_true_eq, if_true]
        split_ifs <;> omega
    have hle : 0 ≤ (failureTurn failed s next).priorityBackups := by
      rw [hturn]
      split_ifs <;> omega
    obtain ⟨hpriority, hclose, hcreated⟩ := ih hle
    rw [foldl_cons]
    refine ⟨?_, ?_, hcreated⟩
    · rw [hpriority, hturn, length_cons]
      split_ifs <;> omega
    · rw [hclose, length_cons, replicate_succ]
      exact append_assoc _ _ _

theorem Sound.backups_onBackupTransportFailure (h : s.Sound) (hfailed : failed ∈ s.created) :
    (s.onBackupTransportFailure failed).backups = s.backups.erase failed := by
  have hloop := @foldl_failureTurn_backups υ _ s failed s.backups h.nodup
    fun next hnext href => h.ref_inj (h.listed next hnext) hfailed href
  rw [onBackupTransportFailure, hloop]
  split_ifs with hmem
  · rfl
  · rw [erase_of_not_mem hmem]

theorem Sound.onBackupTransportFailure (h : s.Sound) (hcount : 0 ≤ s.priorityBackups) (hfailed : failed ∈ s.created) :
    (s.onBackupTransportFailure failed).Sound := by
  refine h.of_sublist (foldl_failureTurn _ hcount).2.2 ?_
  rw [h.backups_onBackupTransportFailure hfailed]
  exact erase_sublist

/-! ### What holds in orderly runs -/

structure Inv (s : BackupTransportPool υ) : Prop where
  sound : s.Sound
  exact : s.Exact

omit [DecidableEq υ] in
theorem exact_nil_iff (h : s.Exact) : s.priorityBackups = 0 ↔ ∀ b ∈ s.backups, b.priority = false := by
  rw [h, Int.natCast_eq_zero, countP_eq_zero]
  simp

omit [DecidableEq υ] in
theorem Exact.nonneg (h : s.Exact) : 0 ≤ s.priorityBackups := by
  rw [h]
  exact Int.natCast_nonneg _

theorem Inv.sound_step (h : s.Inv) (hs : step s e = some s') : s'.Sound := by
  cases e with
  | iterate parent turns =>
    cases hs
    exact h.sound.iterate parent turns
  | getBackup =>
    cases hs
    unfold getBackup
    split_ifs
    · exact h.sound.of_sublist rfl (tail_sublist _)
    · exact h.sound
  | onBackupTransportFailure failed =>
    simp only [step] at hs
    split_ifs at hs with hfailed
    cases hs
    exact h.sound.onBackupTransportFailure h.exact.nonneg hfailed
  | setEnabled value =>
    cases hs
    unfold setEnabled
    split_ifs
    · exact h.sound
    · exact h.sound.of_sublist rfl (List.Sublist.refl _)
    · exact h.sound.of_sublist rfl (nil_sublist _)
  | close =>
    cases hs
    unfold close
    split_ifs
    · exact h.sound
    · exact h.sound.of_sublist rfl (nil_sublist _)
  | configure =>
    cases hs
    exact h.sound.of_sublist rfl (List.Sublist.refl _)

omit [DecidableEq υ] in
/-- The first in the list has priority if any has. -/
theorem Sound.prefers (h : s.Sound)
    (hget : getBackup s = .ok (some b) s') (hsome : ∃ p ∈ s.backups, p.priority = true) : b.priority = true := by
  unfold getBackup at hget
  split_ifs at hget
  cases hlist : s.backups with
  | nil =>
    obtain ⟨p, hp, -⟩ := hsome
    rw [hlist] at hp
    cases hp
  | cons first rest =>
    rw [hlist] at hget
    cases hget
    obtain ⟨p, hp, hpriority⟩ := hsome
    rw [hlist] at hp
    rcases mem_cons.mp hp with rfl | hlater
    · exact hpriority
    · have hfirst := h.first
      rw [hlist] at hfirst
      exact (pairwise_cons.mp hfirst).1 p hlater hpriority

/-- A backup that was handed out fails. -/
theorem Inv.exact_failure_iff (h : s.Inv) (hfailed : failed ∈ s.created) (hnot : failed ∉ s.backups) :
    (s.onBackupTransportFailure failed).Exact ↔
      (failed.priority = true → ∀ b ∈ s.backups, b.priority = false) := by
  have hcount := (@foldl_failureTurn υ _ s failed s.backups h.exact.nonneg).1
  have hnonneg := h.exact.nonneg
  have hle := countP_le_length (p := BackupTransport.priority) (l := s.backups)
  have hexact := h.exact
  rw [← exact_nil_iff h.exact]
  unfold Exact at hexact ⊢
  rw [h.sound.backups_onBackupTransportFailure hfailed, erase_of_not_mem hnot, onBackupTransportFailure, hcount,
    ← hexact]
  cases failed.priority with
  | false => simp
  | true =>
    simp only [if_true, true_imp_iff]
    constructor <;> intro hzero <;> omega

theorem Inv.failure_alone (h : s.Inv) (halone : s.backups = [failed]) :
    (s.onBackupTransportFailure failed).Exact ∧ s.Handled failed (s.onBackupTransportFailure failed) := by
  have hrun : s.onBackupTransportFailure failed = failureTurn failed s failed := by
    rw [onBackupTransportFailure, halone]
    rfl
  have hexact := h.exact
  unfold Exact at hexact
  rw [halone] at hexact
  rw [hrun]
  refine ⟨?_, ?_, rfl, rfl⟩
  · show (if failed.priority && s.priorityBackups > 0 then s.priorityBackups - 1 else s.priorityBackups) =
      ((if failed.ref = failed.ref then s.backups.erase failed else s.backups).countP BackupTransport.priority : Int)
    rw [if_pos rfl, halone, hexact]
    cases hpriority : failed.priority <;> simp [hpriority]
  · exact if_pos rfl

/-- A list of several backups is not handled as it should be. -/
theorem Inv.alone_of_handled (h : s.Inv) (hmem : failed ∈ s.backups)
    (hhandled : s.Handled failed (s.onBackupTransportFailure failed)) : s.backups = [failed] := by
  have hclose := (@foldl_failureTurn υ _ s failed s.backups h.exact.nonneg).2.1
  have hlength := congrArg List.length (hclose.symm.trans hhandled.closeTask)
  rw [length_append, length_append, length_replicate, length_singleton] at hlength
  obtain ⟨b, hb⟩ := length_eq_one_iff.mp (Nat.add_left_cancel hlength)
  rw [hb] at hmem ⊢
  rw [mem_singleton.mp hmem]

omit [DecidableEq υ] in
/-- A list that is dropped without the counter. -/
theorem Inv.exact_dropped_iff (h : s.Inv) (s' : BackupTransportPool υ) (hnil : s'.backups = [])
    (hcount : s'.priorityBackups = s.priorityBackups) : s'.Exact ↔ ∀ b ∈ s.backups, b.priority = false := by
  rw [← exact_nil_iff h.exact, Exact, hnil, hcount]
  rfl

omit [DecidableEq υ] in
theorem Inv.exact_getBackup_iff (h : s.Inv) :
    (stateOf (getBackup s)).Exact ↔ (s.enabled = true → ∀ b, s.backups.head? = some b → b.priority = false) := by
  have hbefore := h.exact
  rw [getBackup]
  by_cases henabled : s.enabled = true
  · rw [if_pos henabled]
    unfold Exact at hbefore ⊢
    cases hlist : s.backups with
    | nil =>
      rw [hlist] at hbefore
      simpa [stateOf, hlist] using hbefore
    | cons first rest =>
      rw [hlist, countP_cons] at hbefore
      simp only [stateOf, tail_cons, List.head?_cons, Option.some.injEq, forall_eq', henabled, true_imp_iff]
      cases hpriority : first.priority with
      | true =>
        rw [hpriority, if_pos rfl] at hbefore
        refine iff_of_false ?_ (fun h => by cases h)
        omega
      | false =>
        rw [hpriority] at hbefore
        exact iff_of_true hbefore rfl
  · rw [if_neg henabled]
    exact iff_of_true hbefore fun htrue => absurd htrue henabled

theorem Inv.orderly_of_behaves (h : s.Inv) (hbehaves : s.Behaves e) : s.Orderly e := by
  cases e with
  | getBackup => exact h.exact_getBackup_iff.mp (hbehaves.exact _ rfl)
  | onBackupTransportFailure failed =>
    rw [Orderly]
    split_ifs with hmem
    · have hstep : step s (.onBackupTransportFailure failed) = some (s.onBackupTransportFailure failed) :=
        if_pos (h.sound.listed _ hmem)
      exact h.alone_of_handled hmem (hbehaves.handles failed _ rfl hmem hstep)
    · intro hfailed
      exact (h.exact_failure_iff hfailed hmem).mp (hbehaves.exact _ (if_pos hfailed))
  | setEnabled value =>
    intro hopen hvalue
    subst hvalue
    have hafter := hbehaves.exact _ rfl
    rw [setEnabled, hopen] at hafter
    exact (h.exact_dropped_iff { s with enabled := false, backups := [] } rfl rfl).mp hafter
  | close =>
    intro hopen
    have hafter := hbehaves.exact _ rfl
    rw [BackupTransportPool.close, hopen] at hafter
    exact (h.exact_dropped_iff { s with enabled := false, closed := true, backups := [] } rfl rfl).mp hafter
  | iterate | configure => trivial

theorem Inv.exact_step (h : s.Inv) (horderly : s.Orderly e) (hs : step s e = some s') : s'.Exact := by
  cases e with
  | iterate parent turns =>
    cases hs
    exact h.exact.iterate parent turns
  | getBackup =>
    cases hs
    exact h.exact_getBackup_iff.mpr horderly
  | onBackupTransportFailure failed =>
    simp only [step] at hs
    split_ifs at hs with hfailed
    cases hs
    rw [Orderly] at horderly
    split_ifs at horderly with hmem
    · exact (h.failure_alone horderly).1
    · exact (h.exact_failure_iff hfailed hmem).mpr (horderly hfailed)
  | setEnabled value =>
    cases hs
    cases hclosed : s.closed with
    | true =>
      rw [setEnabled, if_pos hclosed]
      exact h.exact
    | false =>
      cases value with
      | true =>
        rw [setEnabled, hclosed]
        exact h.exact
      | false =>
        rw [setEnabled, hclosed]
        exact (h.exact_dropped_iff { s with enabled := false, backups := [] } rfl rfl).mpr (horderly hclosed rfl)
  | close =>
    cases hs
    cases hclosed : s.closed with
    | true =>
      rw [BackupTransportPool.close, if_pos hclosed]
      exact h.exact
    | false =>
      rw [BackupTransportPool.close, hclosed]
      exact (h.exact_dropped_iff { s with enabled := false, closed := true, backups := [] } rfl rfl).mpr
        (horderly hclosed)
  | configure =>
    cases hs
    exact h.exact

theorem behaves_iff_orderly_event (s : BackupTransportPool υ) (e : Event υ) (h : s.Inv) :
    s.Behaves e ↔ s.Orderly e := by
  refine ⟨h.orderly_of_behaves, fun horderly => ⟨fun s' hs => h.exact_step horderly hs, ?_, ?_⟩⟩
  · intro b s' _ hget hsome
    exact h.sound.prefers hget hsome
  · rintro failed s' rfl hmem hs
    rw [Orderly, if_pos hmem] at horderly
    rw [step, if_pos (h.sound.listed _ hmem)] at hs
    cases hs
    exact (h.failure_alone horderly).2

theorem inv_step (s : BackupTransportPool υ) (e : Event υ) (s' : BackupTransportPool υ) (h : s.Inv)
    (horderly : s.Orderly e) (hs : step s e = some s') : s'.Inv :=
  ⟨h.sound_step hs, h.exact_step horderly hs⟩

omit [DecidableEq υ] in
theorem inv_new (uriPool updates priorityUriPool : URIPool υ) (backupPoolSize : Int) :
    Inv ({ uriPool, updates, priorityUriPool, backupPoolSize } : BackupTransportPool υ) :=
  ⟨⟨rfl, (fun b hb => by cases hb), nodup_nil, List.Pairwise.nil⟩, rfl⟩

end BackupTransportPool

end ActiveMQCpp.Backup
