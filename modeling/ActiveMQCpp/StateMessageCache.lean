import ActiveMQCpp.StateTracker

/-! The message cache of the tracker and the counter of its size. The counter is raised when a message is
tracked back, after it has been sent, and lowered when the eldest message is evicted, while the message
itself enters the cache when it is tracked. -/

namespace ActiveMQCpp.State

open Codec MachineInt Decaf LinkedHashMap

variable {κ : Type} [LinearOrder κ]

def cachedBytes (cache : List (Nat × Message κ)) : Nat := (cache.map fun e => e.2.size).sum

inductive CacheCall (κ : Type) where
  | track (command : Command κ)
  | trackBack (command : Command κ)

def CacheCall.perform (config : Config) : CacheCall κ → Tracker κ → Tracker κ
  | .track command, t => stateOf (State.track config command t)
  | .trackBack command, t => State.trackBack config command t

/-- The message goes to the message cache when it is tracked. -/
def Message.isCached (config : Config) (m : Message κ) : Bool :=
  config.trackMessages && !(config.trackTransactions && m.transactionId.isSome)

/-- A tracker with the message that has been tracked and not yet tracked back, and the message that was put
in the cache last. -/
structure Sending (κ : Type) [LinearOrder κ] where
  tracker : Tracker κ
  underWay : Option (Message κ)
  newest : Option (Message κ)

def Sending.step (config : Config) (s : Sending κ) (call : CacheCall κ) : Sending κ :=
  match call with
  | .track (.message m) =>
    if m.isCached config then ⟨call.perform config s.tracker, some m, some m⟩
    else { s with tracker := call.perform config s.tracker }
  | .trackBack (.message m) =>
    if m.isCached config then { s with tracker := call.perform config s.tracker, underWay := none }
    else { s with tracker := call.perform config s.tracker }
  | _ => { s with tracker := call.perform config s.tracker }

def sending (config : Config) (calls : List (CacheCall κ)) : Sending κ :=
  calls.foldl (Sending.step config) ⟨Tracker.new, none, none⟩

/-- Whenever no send is under way the counter is the number of bytes held, and the cache never holds more
than its limit beyond the newest message. -/
def CacheAccounted (config : Config) (calls : List (CacheCall κ)) : Prop :=
  ∀ pre, pre <+: calls →
    ((sending config pre).underWay = none →
      (sending config pre).tracker.currentCacheSize = cachedBytes (sending config pre).tracker.messageCache) ∧
    ∀ m, (sending config pre).newest = some m →
      (cachedBytes (sending config pre).tracker.messageCache : Int) ≤ config.maxMessageCacheSize + m.size

/-- The size of the entry that is evicted next when a message is put in the cache. -/
def eldestSize (t : Tracker κ) (m : Message κ) : Nat := (t.messageCache.head?.map fun e => e.2.size).getD m.size

/-- What the accounting relies on when a message is put in the cache. A message under way is only tracked
again, after a failed attempt to send it, while it is in the cache. -/
structure Cacheable (config : Config) (s : Sending κ) (m : Message κ) : Prop where
  untransacted : m.transactionId = none
  fresh : s.underWay = none → LinkedHashMap.containsKey m.messageId s.tracker.messageCache = false
  again : ∀ p, s.underWay = some p → p = m ∧ LinkedHashMap.containsKey m.messageId s.tracker.messageCache = true
  fits : s.tracker.currentCacheSize + m.size < 2147483648
  room : s.tracker.currentCacheSize ≤ config.maxMessageCacheSize ∨
    s.tracker.currentCacheSize - eldestSize s.tracker m ≤ config.maxMessageCacheSize

def CacheCall.Sound (config : Config) (s : Sending κ) : CacheCall κ → Prop
  | .track (.message m) => m.isCached config = true → Cacheable config s m
  | .trackBack (.message m) => m.isCached config = true → s.underWay = some m
  | _ => True

def SoundCalls (config : Config) : Sending κ → List (CacheCall κ) → Prop
  | _, [] => True
  | s, call :: calls => call.Sound config s ∧ SoundCalls config (s.step config call) calls

/-! ### Everything but a message leaves the cache alone -/

/-- The program does not touch the message cache. -/
def SparesCache {α : Type} (x : Track κ α) : Prop :=
  ∀ t, (stateOf (x t)).messageCache = t.messageCache ∧ (stateOf (x t)).currentCacheSize = t.currentCacheSize

variable {α : Type} {config : Config} {m : Message κ} {s : Sending κ}

theorem SparesCache.pure (a : α) : SparesCache (pure a : Track κ α) := fun _ => ⟨rfl, rfl⟩

theorem SparesCache.throw (e : Failure) : SparesCache (throw e : Track κ α) := fun _ => ⟨rfl, rfl⟩

variable {x : Track κ α} {cache : List (Nat × Message κ)} {t : Tracker κ}

theorem SparesCache.bind {β : Type} {f : α → Track κ β} (hx : SparesCache x)
    (hf : ∀ a, SparesCache (f a)) : SparesCache (x >>= f) := by
  intro t
  have h := hx t
  cases hrun : x t with
  | ok a t' =>
    rw [hrun] at h
    rw [bind_ok hrun, (hf a t').1, (hf a t').2]
    exact h
  | error e t' =>
    rw [hrun] at h
    rw [bind_error hrun]
    exact h

theorem SparesCache.mapError {h : Failure → Failure} (hx : SparesCache x) : SparesCache (mapError h x) := by
  intro t
  have := hx t
  rw [Codec.mapError]
  cases hrun : x t with
  | ok a t' =>
    rw [hrun] at this
    exact this
  | error e t' =>
    rw [hrun] at this
    exact this

theorem sparesCache_found (o : Option α) : SparesCache (found o : Track κ α) := by
  cases o with
  | none => exact .throw _
  | some a => exact .pure a

theorem sparesCache_getConnectionState (id : ConnectionId κ) : SparesCache (getConnectionState id) :=
  SparesCache.bind (fun _ => ⟨rfl, rfl⟩) fun _ => sparesCache_found _

theorem sparesCache_setConnectionState (id : ConnectionId κ) (cs : ConnectionState κ) :
    SparesCache (setConnectionState id cs) := fun _ => ⟨rfl, rfl⟩

theorem sparesCache_modifyTransactionState (ref : Nat) (f : TransactionState κ → TransactionState κ) :
    SparesCache (modifyTransactionState ref f) := fun _ => ⟨rfl, rfl⟩

theorem sparesCache_localTransactionId (id : TransactionId κ) : SparesCache (localTransactionId id) := by
  cases id with
  | «local» x => exact .pure x
  | xa => exact .throw _

theorem sparesCache_getTransactionState (cs : ConnectionState κ) (id : TransactionId κ) :
    SparesCache (getTransactionState cs id) :=
  (sparesCache_localTransactionId id).bind fun _ => sparesCache_found _

theorem sparesCache_recordTransactionInfo (info : TransactionInfo κ) : SparesCache (recordTransactionInfo info) :=
  (sparesCache_getConnectionState _).bind fun cs =>
    (sparesCache_getTransactionState cs _).bind fun _ => sparesCache_modifyTransactionState _ _

theorem sparesCache_processRemoveInfo (info : RemoveInfo κ) : SparesCache (processRemoveInfo info) := by
  rw [processRemoveInfo]
  split
  · exact SparesCache.bind (fun _ => ⟨rfl, rfl⟩) fun _ => .pure _
  · exact (sparesCache_getConnectionState _).bind fun _ => (sparesCache_setConnectionState _ _).bind fun _ => .pure _
  · exact (sparesCache_getConnectionState _).bind fun _ => (sparesCache_found _).bind fun _ =>
      (sparesCache_setConnectionState _ _).bind fun _ => .pure _
  · refine (sparesCache_getConnectionState _).bind fun _ => (sparesCache_found _).bind fun _ =>
      (sparesCache_setConnectionState _ _).bind fun _ => ?_
    split
    · exact (sparesCache_modifyTransactionState _ _).bind fun _ => .pure _
    · exact .pure _
  · exact .throw _

theorem sparesCache_processTransactionInfo (config : Config) (info : TransactionInfo κ) :
    SparesCache (processTransactionInfo config info) := by
  have hrecord : ∀ r : Option (Tracked κ), SparesCache (recordTransactionInfo info >>= fun _ => pure r) :=
    fun r => (sparesCache_recordTransactionInfo info).bind fun _ => .pure r
  rw [processTransactionInfo]
  split
  · split
    · exact (sparesCache_getConnectionState _).bind fun _ => (sparesCache_localTransactionId _).bind fun _ _ => ⟨rfl, rfl⟩
    all_goals first | exact hrecord _ | exact .pure _
  · exact .pure _

theorem sparesCache_track (config : Config) (command : Command κ)
    (h : ∀ m, command = .message m → m.isCached config = false) : SparesCache (track config command) := by
  apply SparesCache.mapError
  cases command with
  | connectionInfo info => exact (sparesCache_setConnectionState _ _).bind fun _ => .pure _
  | sessionInfo info =>
    exact (sparesCache_getConnectionState _).bind fun _ => (sparesCache_setConnectionState _ _).bind fun _ => .pure _
  | producerInfo info =>
    exact (sparesCache_getConnectionState _).bind fun _ => (sparesCache_found _).bind fun _ =>
      (sparesCache_setConnectionState _ _).bind fun _ => .pure _
  | consumerInfo info =>
    exact (sparesCache_getConnectionState _).bind fun _ => (sparesCache_found _).bind fun _ =>
      (sparesCache_setConnectionState _ _).bind fun _ => .pure _
  | destinationInfo info =>
    refine (sparesCache_getConnectionState _).bind fun _ => ?_
    split
    · exact (sparesCache_setConnectionState _ _).bind fun _ => .pure _
    · exact .pure _
  | removeInfo info => exact sparesCache_processRemoveInfo info
  | transactionInfo info => exact sparesCache_processTransactionInfo config info
  | messagePull pull => exact SparesCache.bind (fun _ => ⟨rfl, rfl⟩) fun _ => .pure _
  | message m =>
    have hcached := h m rfl
    simp only [Message.isCached, Bool.and_eq_false_iff, Bool.not_eq_false'] at hcached
    simp only [processMessage]
    split
    · refine (sparesCache_getConnectionState _).bind fun _ => (sparesCache_getTransactionState _ _).bind fun _ =>
        (sparesCache_modifyTransactionState _ _).bind fun _ => ?_
      split
      · exact (sparesCache_found _).bind fun _ => (sparesCache_found _).bind fun _ =>
          (sparesCache_setConnectionState _ _).bind fun _ => .pure _
      · exact .pure _
    · rename_i hplain
      rcases hcached with hoff | htransacted
      · rw [hoff]
        exact .pure _
      · obtain ⟨htrack, hsome⟩ := Bool.and_eq_true_iff.mp htransacted
        obtain ⟨x, hx⟩ := Option.isSome_iff_exists.mp hsome
        exact absurd hx (hplain x htrack)
  | messageAck | connectionControl | shutdownInfo | tracked | other => exact .pure _

theorem trackBack_spares (config : Config) (command : Command κ) (t : Tracker κ)
    (h : ∀ m, command = .message m → m.isCached config = false) : trackBack config command t = t := by
  cases command with
  | message m =>
    have hcached := h m rfl
    simp only [Message.isCached, Bool.and_eq_false_iff, Bool.not_eq_false', Bool.and_eq_true] at hcached
    rw [trackBack, if_neg]
    intro hcounted
    obtain ⟨hon, hnone⟩ := Bool.and_eq_true_iff.mp hcounted
    rcases hcached with hoff | ⟨-, hsome⟩
    · rw [hon] at hoff
      cases hoff
    · rw [Option.isNone_iff_eq_none.mp hnone] at hsome
      cases hsome
  | _ => rfl

/-! ### What a message does to the cache -/

theorem track_cached (h : m.isCached config = true) (t : Tracker κ) :
    stateOf (track config (.message m) t) = cacheMessage config m t := by
  simp only [Message.isCached, Bool.and_eq_true, Bool.not_eq_true', Bool.and_eq_false_iff] at h
  obtain ⟨hon, hplain⟩ := h
  have hprocess : processMessage config m = (do modify (cacheMessage config m); pure none) := by
    simp only [processMessage]
    split
    · rename_i htrack htransaction
      rw [htrack, htransaction] at hplain
      rcases hplain with hfalse | hfalse <;> cases hfalse
    · rw [if_pos hon]
  simp only [track, hprocess]
  rfl

theorem trackBack_cached (h : m.isCached config = true) (hnone : m.transactionId = none) (t : Tracker κ) :
    trackBack config (.message m) t = { t with currentCacheSize := toInt32 (t.currentCacheSize + m.size) } := by
  have hon : config.trackMessages = true := (Bool.and_eq_true_iff.mp h).1
  rw [trackBack, if_pos]
  rw [hon, hnone]
  rfl

omit [LinearOrder κ] in
theorem putImpl_again
    (hkey : containsKey m.messageId cache = true) (hsame : ∀ e ∈ cache, e.1 = m.messageId → e.2 = m) :
    putImpl m.messageId m cache = cache := by
  rw [putImpl, if_pos hkey, replace]
  conv_rhs => rw [← List.map_id cache]
  apply List.map_congr_left
  rintro ⟨k, v⟩ he
  by_cases hk : k = m.messageId
  · obtain rfl : v = m := hsame _ he hk
    rw [if_pos hk, hk]
    rfl
  · rw [if_neg hk]
    rfl

/-- What the tracker knows between two calls. -/
structure Accounts (config : Config) (s : Sending κ) : Prop where
  idle : s.underWay = none → s.tracker.currentCacheSize = cachedBytes s.tracker.messageCache
  busy : ∀ p, s.underWay = some p →
    s.tracker.currentCacheSize + p.size = cachedBytes s.tracker.messageCache ∧ p.transactionId = none ∧
      p.size < 2147483648 ∧ s.tracker.currentCacheSize + p.size < 2147483648 ∧ ∀ e ∈ s.tracker.messageCache, e.1 = p.messageId → e.2 = p
  bounded : ∀ m, s.newest = some m →
    (cachedBytes s.tracker.messageCache : Int) ≤ config.maxMessageCacheSize + m.size

theorem accounts_evict (hput : putImpl m.messageId m t.messageCache = cache)
    (hbytes : t.currentCacheSize + m.size = cachedBytes cache) (hnone : m.transactionId = none)
    (hsame : ∀ e ∈ cache, e.1 = m.messageId → e.2 = m) (hhead : ∃ e rest, cache = e :: rest ∧ e.2.size = eldestSize t m)
    (hsmall : m.size < 2147483648) (hfits : t.currentCacheSize + m.size < 2147483648)
    (hroom : t.currentCacheSize ≤ config.maxMessageCacheSize ∨
      t.currentCacheSize - eldestSize t m ≤ config.maxMessageCacheSize) :
    Accounts config ⟨cacheMessage config m t, some m, some m⟩ := by
  obtain ⟨e, rest, rfl, hsize⟩ := hhead
  have hsum : cachedBytes (e :: rest) = e.2.size + cachedBytes rest := by simp [cachedBytes]
  by_cases hover : t.currentCacheSize > config.maxMessageCacheSize
  · have hstep : cacheMessage config m t
        = { t with messageCache := rest, currentCacheSize := t.currentCacheSize - e.2.size } := by
      simp only [cacheMessage, hput, if_pos hover, List.tail_cons, List.head?_cons, Option.map_some, Option.getD_some]
      rw [toInt32_of_range (by omega) (by omega)]
    rw [hstep]
    refine ⟨nofun, ?_, ?_⟩
    · rintro p ⟨⟩
      refine ⟨?_, hnone, hsmall, ?_, fun e' he' => hsame e' (List.mem_cons_of_mem _ he')⟩
      · show t.currentCacheSize - e.2.size + m.size = cachedBytes rest
        omega
      · show t.currentCacheSize - e.2.size + m.size < 2147483648
        omega
    · rintro p ⟨⟩
      show (cachedBytes rest : Int) ≤ _
      omega
  · have hstep : cacheMessage config m t = { t with messageCache := e :: rest } := by
      simp only [cacheMessage, hput, if_neg hover]
    rw [hstep]
    refine ⟨nofun, ?_, ?_⟩
    · rintro p ⟨⟩
      exact ⟨hbytes, hnone, hsmall, hfits, hsame⟩
    · rintro p ⟨⟩
      show (cachedBytes (e :: rest) : Int) ≤ _
      omega

theorem accounts_track (hs : Accounts config s)
    (hm : Cacheable config s m) : Accounts config ⟨cacheMessage config m s.tracker, some m, some m⟩ := by
  cases hway : s.underWay with
  | none =>
    have hkey := hm.fresh hway
    have hnew : ∀ e ∈ s.tracker.messageCache, e.1 ≠ m.messageId := by
      simpa [containsKey] using hkey
    have hidle := hs.idle hway
    have hsmall : m.size < 2147483648 := by
      have := hm.fits
      omega
    have hput : putImpl m.messageId m s.tracker.messageCache
        = s.tracker.messageCache ++ [(m.messageId, m)] := by
      rw [putImpl, if_neg (by rw [hkey]; exact Bool.false_ne_true)]
    refine accounts_evict hput ?_ hm.untransacted ?_ ?_ hsmall hm.fits hm.room
    · rw [hidle]
      simp [cachedBytes]
    · intro e he hk
      rcases List.mem_append.mp he with hold | hlast
      · exact absurd hk (hnew e hold)
      · rw [List.mem_singleton.mp hlast]
    · cases hcache : s.tracker.messageCache with
      | nil => exact ⟨_, [], rfl, by simp [eldestSize, hcache]⟩
      | cons e rest => exact ⟨e, _, rfl, by simp [eldestSize, hcache]⟩
  | some p =>
    obtain ⟨rfl, hkey⟩ := hm.again p hway
    obtain ⟨hbytes, hnone, hsmall, hfits, hsame⟩ := hs.busy p hway
    apply accounts_evict (putImpl_again hkey hsame) hbytes hnone hsame _ hsmall hm.fits hm.room
    cases hcache : s.tracker.messageCache with
    | nil =>
      rw [hcache] at hkey
      cases hkey
    | cons e rest => exact ⟨e, rest, rfl, by simp [eldestSize, hcache]⟩

theorem accounts_trackBack (hs : Accounts config s) (hcached : m.isCached config = true) (hm : s.underWay = some m) :
    Accounts config { s with tracker := trackBack config (.message m) s.tracker, underWay := none } := by
  obtain ⟨hbytes, hnone, -, hfits, -⟩ := hs.busy m hm
  rw [trackBack_cached hcached hnone, toInt32_of_range (by omega) hfits]
  exact ⟨fun _ => hbytes, nofun, hs.bounded⟩

theorem accounts_spared (hs : Accounts config s)
    (hcache : t.messageCache = s.tracker.messageCache) (hsize : t.currentCacheSize = s.tracker.currentCacheSize) :
    Accounts config { s with tracker := t } := by
  constructor
  · intro hidle
    rw [hcache, hsize]
    exact hs.idle hidle
  · intro p hp
    rw [hcache, hsize]
    exact hs.busy p hp
  · intro m hm
    rw [hcache]
    exact hs.bounded m hm

theorem accounts_step {call : CacheCall κ} (hs : Accounts config s)
    (hsound : call.Sound config s) : Accounts config (s.step config call) := by
  cases call with
  | track command =>
    by_cases hcached : ∃ m, command = .message m ∧ m.isCached config = true
    · obtain ⟨m, rfl, hm⟩ := hcached
      rw [Sending.step, if_pos hm, CacheCall.perform, track_cached hm]
      exact accounts_track hs (hsound hm)
    · have hplain : ∀ m, command = .message m → m.isCached config = false :=
        fun m hm => Bool.eq_false_iff.mpr fun h => hcached ⟨m, hm, h⟩
      have hspared := accounts_spared hs (sparesCache_track config command hplain s.tracker).1
        (sparesCache_track config command hplain s.tracker).2
      cases command with
      | message m =>
        rw [Sending.step, if_neg (by rw [hplain m rfl]; exact Bool.false_ne_true)]
        exact hspared
      | _ => exact hspared
  | trackBack command =>
    by_cases hcached : ∃ m, command = .message m ∧ m.isCached config = true
    · obtain ⟨m, rfl, hm⟩ := hcached
      rw [Sending.step, if_pos hm]
      exact accounts_trackBack hs hm (hsound hm)
    · have hplain : ∀ m, command = .message m → m.isCached config = false :=
        fun m hm => Bool.eq_false_iff.mpr fun h => hcached ⟨m, hm, h⟩
      have hsame := trackBack_spares config command s.tracker hplain
      have hspared : Accounts config { s with tracker := trackBack config command s.tracker } := by
        rw [hsame]
        exact hs
      cases command with
      | message m =>
        rw [Sending.step, if_neg (by rw [hplain m rfl]; exact Bool.false_ne_true)]
        exact hspared
      | _ => exact hspared

/-- Every run whose calls keep to the conditions is accounted for. -/
theorem cacheAccounted_of_sound (config : Config) (calls : List (CacheCall κ))
    (hsound : SoundCalls config ⟨Tracker.new, none, none⟩ calls) : CacheAccounted config calls := by
  have hstart : Accounts config (⟨Tracker.new, none, none⟩ : Sending κ) := ⟨fun _ => rfl, nofun, nofun⟩
  suffices hrun : ∀ (s : Sending κ) (pre : List (CacheCall κ)), Accounts config s → SoundCalls config s calls →
      pre <+: calls → Accounts config (pre.foldl (Sending.step config) s) by
    intro pre hpre
    have h := hrun _ pre hstart hsound hpre
    exact ⟨h.idle, h.bounded⟩
  clear hsound hstart
  induction calls with
  | nil =>
    intro s pre hs _ hpre
    rw [List.prefix_nil.mp hpre]
    exact hs
  | cons call calls ih =>
    intro s pre hs hsound hpre
    cases pre with
    | nil => exact hs
    | cons first pre =>
      obtain ⟨rfl, hrest⟩ := List.cons_prefix_cons.mp hpre
      exact ih _ pre (accounts_step hs hsound.1) hsound.2 hrest

def plainMessage (messageId size : Nat) : Message Nat := ⟨{}, messageId, ⟨0, 0, 0⟩, none, size⟩

def sendOf (m : Message Nat) : List (CacheCall Nat) := [.track (.message m), .trackBack (.message m)]

/-- A cache for one and a half messages: the third message evicts the first. -/
theorem three_messages_accounted :
    CacheAccounted { maxMessageCacheSize := 1500 }
      (sendOf (plainMessage 0 1024) ++ sendOf (plainMessage 1 1024) ++ sendOf (plainMessage 2 1024)) := by
  apply cacheAccounted_of_sound
  refine ⟨fun _ => ⟨rfl, fun _ => rfl, nofun, by decide, by decide⟩, fun _ => rfl,
    fun _ => ⟨rfl, fun _ => rfl, nofun, by decide, by decide⟩, fun _ => rfl,
    fun _ => ⟨rfl, fun _ => rfl, nofun, by decide, by decide⟩, fun _ => rfl, trivial⟩

/-- A message that grows when it is marshalled, a message that is sent twice, a message in a transaction
that is not tracked, and two large messages after a small one. -/
theorem messages_not_accounted :
    ¬CacheAccounted {} [.track (.message (plainMessage 0 1024)), .trackBack (.message (plainMessage 0 2048))] ∧
    ¬CacheAccounted {} (sendOf (plainMessage 0 1024) ++ sendOf (plainMessage 0 1024)) ∧
    ¬CacheAccounted {} (sendOf { plainMessage 0 1024 with transactionId := some (.local ⟨0, 0⟩) }) ∧
    ¬CacheAccounted {} (sendOf (plainMessage 0 1024) ++ sendOf (plainMessage 1 200000) ++
      sendOf (plainMessage 2 200000)) := by
  refine ⟨fun h => ?_, fun h => ?_, fun h => ?_, fun h => ?_⟩
  · exact absurd ((h _ (List.prefix_refl _)).1 rfl) (by decide)
  · exact absurd ((h _ (List.prefix_refl _)).1 rfl) (by decide)
  · exact absurd ((h _ (List.prefix_refl _)).1 rfl) (by decide)
  · exact absurd ((h _ (List.prefix_refl _)).2 _ rfl) (by decide)

end ActiveMQCpp.State
