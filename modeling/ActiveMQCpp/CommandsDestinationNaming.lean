import ActiveMQCpp.CommandsDestination
import ActiveMQCpp.LibRuns

/-! What a destination says after its name has been set, through any sequence of sets and of reads of its composites:
the name, the options, the advisory flag and the destinations against the string that was set last. -/

namespace ActiveMQCpp.Commands

open Codec Decaf Util Words ActiveMQDestination List OrderedMap URISupport

variable {c : ByteString}

/-! ### The law -/

/-- The part before the first `?`. -/
def nameOf (s : ByteString) : ByteString := s.takeWhile fun c => decide (c ≠ 63)

/-- The part behind the first `?`. -/
def queryOf (s : ByteString) : Option ByteString :=
  match s.dropWhile fun c => decide (c ≠ 63) with
  | [] => none
  | _ :: query => some query

def setEntries (entries : List (ByteString × ByteString)) (properties : Properties) : Properties :=
  entries.foldl (fun properties entry => properties.insert entry.1 entry.2) properties

/-- The options of a query: what stands between `&`, all of it a key, `=` and a value. -/
def queryOptions (getenv : ByteString → Except Failure ByteString) (query : ByteString) : Option Properties :=
  ((words URISupport.isAmpersand query).mapM (URISupport.optionEntry getenv)).toOption.map fun entries =>
    setEntries entries OrderedMap.empty

/-- The options that the string stands for; an initial `?` of the query does not count. -/
def optionsOf (getenv : ByteString → Except Failure ByteString) (s : ByteString) : Option Properties :=
  match queryOf s with
  | none => some OrderedMap.empty
  | some (63 :: query) => queryOptions getenv query
  | some query => queryOptions getenv query

/-- What a destination shows of the string. -/
structure Named (getenv : ByteString → Except Failure ByteString) (s : ByteString) (d : ActiveMQDestination) : Prop where
  physicalName : d.physicalName = nameOf s
  options : optionsOf getenv s = some d.options
  advisory : d.advisory = true ↔ advisoryTopicPrefix <+: nameOf s
  hashCode : d.hashCode = hashCodeOf (nameOf s)

/-- The type and the name that a component stands for. -/
def qualified (type : DestinationType) (name : ByteString) : DestinationType × ByteString :=
  match qualifiers.find? fun qualifier => qualifier.1.isPrefixOf name with
  | some (qualifier, type) => (type, name.drop qualifier.length)
  | none => (type, name)

/-- One destination for each of the different components of the name, trimmed and not empty. -/
def IsComposed (type : DestinationType) (name : ByteString) (destinations : List Destination) : Prop :=
  ∃ components : List ByteString, components.Nodup ∧
    (∀ c, c ∈ components ↔ c ≠ [] ∧ ∃ piece ∈ name.splitOn 44, trim piece = c) ∧
    destinations.map (fun d => (d.destinationType, d.physicalName)) = components.map (qualified type)

inductive DestinationOp where
  | setPhysicalName (physicalName : ByteString)
  | getCompositeDestinations

structure Tracked where
  destination : ActiveMQDestination
  last : Option ByteString := none

/-- What is expected after a set that did not throw. -/
def Tracked.Faithful (getenv : ByteString → Except Failure ByteString) (t : Tracked) : Prop :=
  ∀ s, t.last = some s → Named getenv s t.destination ∧
    (44 ∈ nameOf s → ∃ destinations d,
      ActiveMQDestination.getCompositeDestinations getenv t.destination = .ok destinations d ∧
        IsComposed t.destination.destinationType (nameOf s) destinations)

namespace DestinationOp

variable (getenv : ByteString → Except Failure ByteString)

def step (t : Tracked) : DestinationOp → Option Tracked
  | .setPhysicalName s =>
    match ActiveMQDestination.setPhysicalName getenv s t.destination with
    | .ok () d => some ⟨d, some s⟩
    | .error _ d => some ⟨d, none⟩
  | .getCompositeDestinations =>
    some { t with destination := stateOf (ActiveMQDestination.getCompositeDestinations getenv t.destination) }

/-- The first `?` of the query part, if it has one, is at its front. -/
def PlainQuery (s : ByteString) : Prop := ∀ query, queryOf s = some query → query.head? = some 63 ∨ 63 ∉ query

/-- No option of an earlier call is left that the string does not set. -/
def NothingLeft (properties : Properties) (s : ByteString) : Prop :=
  ∀ options, optionsOf getenv s = some options → ∀ key, options.find key = none → properties.find key = none

/-- A name that begins with a character of the advisory prefix begins with all of it. -/
def PlainAdvisory (s : ByteString) : Prop :=
  ∀ c, s.head? = some c → c ∈ advisoryTopicPrefix → advisoryTopicPrefix <+: nameOf s

def Settable (t : Tracked) : DestinationOp → Prop
  | .setPhysicalName s => PlainQuery s ∧ NothingLeft getenv t.destination.options s ∧ PlainAdvisory s
  | .getCompositeDestinations => True

end DestinationOp

/-! ### What a set leaves -/

theorem nameOf_of_not_mem {s : ByteString} (h : 63 ∉ s) : nameOf s = s := by
  have hall := takeWhile_append_dropWhile (p := fun c => decide (c ≠ 63)) (l := s)
  rwa [dropWhile_question h, append_nil] at hall

theorem not_mem_nameOf (s : ByteString) : 63 ∉ nameOf s := by
  intro hmem
  have hne := mem_takeWhile_imp (p := fun c => decide (c ≠ 63)) hmem
  exact absurd rfl (of_decide_eq_true hne)

def settled (s : ByteString) (options : Properties) (type : DestinationType) : ActiveMQDestination :=
  { destinationType := type
    physicalName := nameOf s
    options := options
    advisory := decide (findFirstOf s advisoryTopicPrefix (some 0) = some 0)
    hashCode := hashCodeOf (nameOf s) }

section Outcome

variable (getenv : ByteString → Except Failure ByteString)

theorem setPhysicalName_eq (s : ByteString) (d : ActiveMQDestination) : setPhysicalName getenv s d =
      match queryOf s with
      | none => .ok () (settled s d.options d.destinationType)
      | some query =>
        match parseQueryInto getenv query d.options with
        | .ok () options => .ok () (settled s options d.destinationType)
        | .error e options => .error e { d with physicalName := nameOf s, options := options } := by
  rw [queryOf]
  rcases findFirstOf_question s with ⟨hnone, hnil⟩ | ⟨k, hk, htake, hdrop⟩
  · have hname : nameOf s = s := by
      have hall := takeWhile_append_dropWhile (p := fun c => decide (c ≠ 63)) (l := s)
      rwa [hnil, append_nil] at hall
    rw [setPhysicalName, hnone, hnil, settled, hname]
    rfl
  · have hname : nameOf s = s.take k := htake.symm
    rw [setPhysicalName, hk, hdrop]
    simp only [settled, hname]
    show (parseOptions getenv (s.drop (k + 1)) >>= _) { d with physicalName := s.take k } = _
    cases hparse : parseQueryInto getenv (s.drop (k + 1)) d.options with
    | ok _ options =>
      have hoptions : parseOptions getenv (s.drop (k + 1)) { d with physicalName := s.take k }
          = .ok () { d with physicalName := s.take k, options := options } := by
        rw [ActiveMQDestination.parseOptions, hparse]
      rw [bind_ok hoptions]
      rfl
    | error e options =>
      have hoptions : parseOptions getenv (s.drop (k + 1)) { d with physicalName := s.take k }
          = .error e { d with physicalName := s.take k, options := options } := by
        rw [ActiveMQDestination.parseOptions, hparse]
      rw [bind_error hoptions]

theorem setPhysicalName_ok {s : ByteString} {d d' : ActiveMQDestination} (h : setPhysicalName getenv s d = .ok () d') :
    queryOf s = none ∧ d' = settled s d.options d.destinationType ∨
    ∃ query entries, queryOf s = some query ∧
      (words isAmpersand (stripQuery query)).mapM (optionEntry getenv) = .ok entries ∧
      d' = settled s (setEntries entries d.options) d.destinationType := by
  rw [setPhysicalName_eq] at h
  cases hquery : queryOf s with
  | none =>
    rw [hquery] at h
    injection h with _ hd
    exact .inl ⟨rfl, hd.symm⟩
  | some query =>
    rw [hquery] at h
    dsimp only at h
    cases hparse : parseQueryInto getenv query d.options with
    | error e options =>
      rw [hparse] at h
      cases h
    | ok _ options =>
      rw [hparse] at h
      injection h with _ hd
      rw [parseQueryInto_eq, mapError_eq_ok] at hparse
      rcases forM_setOption getenv (words isAmpersand (stripQuery query)) d.options
        with ⟨entries, hentries, hset⟩ | ⟨e, e', properties, -, hset⟩
      · obtain ⟨-, rfl⟩ := EStateM.Result.ok.inj (hset.symm.trans hparse)
        exact .inr ⟨query, entries, rfl, hentries, hd.symm⟩
      · rw [hset] at hparse
        cases hparse

end Outcome

theorem find_setEntries (entries : List (ByteString × ByteString)) (properties : Properties) (key : ByteString) :
    (setEntries entries properties).find key
      = ((setEntries entries empty).find key).or (properties.find key) := by
  induction entries generalizing properties with
  | nil => rfl
  | cons entry entries ih =>
    have hcons : ∀ m : Properties, setEntries (entry :: entries) m = setEntries entries (m.insert entry.1 entry.2) :=
      fun _ => rfl
    rw [hcons, hcons, ih (properties.insert _ _), ih (empty.insert _ _)]
    simp only [find_insert, find_empty]
    cases (setEntries entries empty).find key with
    | some value => rfl
    | none =>
      split_ifs <;> rfl

theorem setEntries_eq_iff (entries : List (ByteString × ByteString)) (properties : Properties) :
    setEntries entries empty = setEntries entries properties ↔
      ∀ key, (setEntries entries empty).find key = none → properties.find key = none := by
  constructor
  · intro h key hnone
    have hfind := find_setEntries entries properties key
    rw [← h, hnone] at hfind
    exact hfind.symm
  · intro h
    apply ext_find
    intro key
    rw [find_setEntries entries properties]
    cases hfind : (setEntries entries empty).find key with
    | some value => rfl
    | none => rw [h key hfind]; rfl

open DestinationOp (PlainQuery NothingLeft PlainAdvisory)

section Agreement

variable {getenv : ByteString → Except Failure ByteString} {s : ByteString}
variable {d d' : ActiveMQDestination}

theorem optionsOf_of_plain (hplain : PlainQuery s) {query : ByteString} (hquery : queryOf s = some query) :
    optionsOf getenv s = queryOptions getenv (stripQuery query) := by
  rw [optionsOf, hquery]
  rcases hplain query hquery with hhead | hno
  · obtain ⟨rest, rfl⟩ : ∃ rest, query = 63 :: rest := by
      cases query with
      | nil => cases hhead
      | cons c rest =>
        cases hhead
        exact ⟨rest, rfl⟩
    rw [stripQuery_eq]
    rfl
  · rw [stripQuery_of_not_mem hno]
    cases query with
    | nil => rfl
    | cons c rest =>
      split
      · next h => cases h
      · next rest' h =>
          cases h
          exact absurd mem_cons_self hno
      · next h => cases h; rfl

/-- The flag is set for the names that begin with any character of the prefix. -/
theorem find_advisory_iff : findFirstOf s advisoryTopicPrefix (some 0) = some 0 ↔
    ∃ c, s.head? = some c ∧ c ∈ advisoryTopicPrefix := by
  rw [findFirstOf, Option.bind_some, drop_zero, Option.map_eq_some_iff]
  cases s with
  | nil => simp
  | cons c rest =>
    rw [List.findIdx?_cons, List.head?_cons]
    cases hc : advisoryTopicPrefix.contains c with
    | true =>
      rw [if_pos rfl]
      exact iff_of_true ⟨0, rfl, rfl⟩ ⟨c, rfl, contains_iff_mem.mp hc⟩
    | false =>
      rw [if_neg Bool.false_ne_true]
      refine iff_of_false ?_ ?_
      · rintro ⟨k, hk, hzero⟩
        obtain ⟨k', -, rfl⟩ := Option.map_eq_some_iff.mp hk
        omega
      · rintro ⟨c', hhead, hmem⟩
        obtain rfl := Option.some.inj hhead
        rw [contains_iff_mem.mpr hmem] at hc
        cases hc

theorem advisory_iff :
    (findFirstOf s advisoryTopicPrefix (some 0) = some 0 ↔ advisoryTopicPrefix <+: nameOf s) ↔ PlainAdvisory s := by
  rw [find_advisory_iff, PlainAdvisory]
  constructor
  · intro h c hhead hmem
    exact h.mp ⟨c, hhead, hmem⟩
  · intro h
    refine ⟨fun ⟨c, hhead, hmem⟩ => h c hhead hmem, fun hbegins => ?_⟩
    obtain ⟨rest, hrest⟩ := hbegins.trans ( takeWhile_prefix _)
    exact ⟨65, by rw [← hrest]; rfl, by decide⟩

theorem setPhysicalName_entries (hplain : PlainQuery s) (h : setPhysicalName getenv s d = .ok () d') :
    ∃ entries, optionsOf getenv s = some (setEntries entries empty) ∧
      d' = settled s (setEntries entries d.options) d.destinationType := by
  rcases setPhysicalName_ok getenv h with ⟨hnone, hd⟩ | ⟨query, entries, hquery, hentries, hd⟩
  · refine ⟨[], ?_, hd⟩
    rw [optionsOf, hnone]
    rfl
  · refine ⟨entries, ?_, hd⟩
    rw [optionsOf_of_plain hplain hquery, queryOptions, hentries]
    rfl

theorem named_iff (hplain : PlainQuery s) (h : setPhysicalName getenv s d = .ok () d') :
    Named getenv s d' ↔ NothingLeft getenv d.options s ∧ PlainAdvisory s := by
  obtain ⟨entries, hoptions, rfl⟩ := setPhysicalName_entries hplain h
  have hleft : NothingLeft getenv d.options s ↔
      optionsOf getenv s = some (setEntries entries d.options) := by
    rw [NothingLeft, hoptions, Option.some_inj, setEntries_eq_iff]
    refine ⟨fun hall => hall _ rfl, fun hall options hsome => ?_⟩
    obtain rfl := Option.some.inj hsome
    exact hall
  have hadvisory : PlainAdvisory s ↔
      ((settled s (setEntries entries d.options) d.destinationType).advisory = true ↔
        advisoryTopicPrefix <+: nameOf s) := by
    rw [← advisory_iff, settled, decide_eq_true_eq]
  rw [hleft, hadvisory]
  exact ⟨fun hnamed => ⟨hnamed.options, hnamed.advisory⟩, fun hboth => ⟨rfl, hboth.1, hboth.2, rfl⟩⟩

end Agreement

/-! ### The composites -/

theorem mem_of_mem_trim {c : UInt8} {input : ByteString} (h : c ∈ trim input) : c ∈ input := by
  rw [trim, mem_reverse] at h
  have hfront := (dropWhile_suffix _).subset h
  rw [mem_reverse] at hfront
  exact (dropWhile_suffix _).subset hfront

theorem find_components (tokens : List ByteString) (set : OrderedMap ByteString Unit) (c : ByteString) :
    (tokens.foldl (fun set token => if trim token = [] then set else set.insert (trim token) ()) set).find c = some () ↔
      set.find c = some () ∨ c ≠ [] ∧ ∃ token ∈ tokens, trim token = c := by
  induction tokens generalizing set with
  | nil => simp
  | cons token tokens ih =>
    rw [foldl_cons, ih]
    by_cases hblank : trim token = []
    · rw [if_pos hblank]
      refine or_congr_right (and_congr_right fun hne => ?_)
      rw [exists_mem_cons_iff, or_iff_right]
      exact fun h => hne (h.symm.trans hblank)
    · rw [if_neg hblank, find_insert, exists_mem_cons_iff]
      by_cases hc : c = trim token
      · rw [if_pos hc]
        exact iff_of_true (.inl rfl) (.inr ⟨hc ▸ hblank, .inl hc.symm⟩)
      · rw [if_neg hc, or_iff_right fun h => hc (Eq.symm h)]

theorem mem_components {tokens : List ByteString} :
    c ∈ (components tokens).entries.map Prod.fst ↔ c ≠ [] ∧ ∃ token ∈ tokens, trim token = c := by
  have hfind := find_components tokens empty c
  rw [find_empty, or_iff_right (by simp)] at hfind
  rw [← hfind]
  show _ ↔ (components tokens).find c = some ()
  rw [find_eq_some, mem_map]
  constructor
  · rintro ⟨⟨c', _⟩, hmem, rfl⟩
    exact hmem
  · intro hmem
    exact ⟨_, hmem, rfl⟩

theorem nodup_components (tokens : List ByteString) : ((components tokens).entries.map Prod.fst).Nodup := by
  rw [List.Nodup, pairwise_map]
  exact (components tokens).sorted.imp fun hlt => ne_of_lt hlt

theorem trim_nil : trim [] = [] := rfl

theorem exists_word_iff {name : ByteString} (hc : c ≠ []) :
    (∃ token ∈ words (fun b => (ascii ",").contains b) name, trim token = c) ↔
      ∃ piece ∈ name.splitOn 44, trim piece = c := by
  have hsep : (fun b : UInt8 => (ascii ",").contains b) = (· == 44) := by
    funext b
    rw [Bool.eq_iff_iff, contains_iff_mem, beq_iff_eq]
    exact mem_singleton
  rw [hsep, words, splitOn_eq_splitOnP]
  constructor
  · rintro ⟨token, hmem, htrim⟩
    exact ⟨token, (mem_filter.mp hmem).1, htrim⟩
  · rintro ⟨piece, hmem, rfl⟩
    refine ⟨piece, mem_filter.mpr ⟨hmem, ?_⟩, rfl⟩
    cases piece with
    | nil => exact absurd trim_nil hc
    | cons b rest => rfl

section Composites

variable (getenv : ByteString → Except Failure ByteString)
variable {name : ByteString}

theorem new_of_not_mem (type : DestinationType) (h : 63 ∉ name) :
    ∃ destination, new getenv type name = .ok destination ∧ destination.destinationType = type ∧
      destination.physicalName = name := by
  have hquery : queryOf name = none := by rw [queryOf, dropWhile_question h]
  refine ⟨(settled name empty type).toDestination, ?_, rfl, nameOf_of_not_mem h⟩
  rw [new, setPhysicalName_eq, hquery]

theorem createDestination_of_not_mem (type : DestinationType) (h : 63 ∉ name) :
    ∃ destination, createDestination getenv type name = .ok destination ∧
      (destination.destinationType, destination.physicalName) = qualified type name := by
  rw [createDestination, qualified]
  cases qualifiers.find? fun qualifier => qualifier.1.isPrefixOf name with
  | none =>
    obtain ⟨destination, hnew, htype, hname⟩ := new_of_not_mem getenv type h
    exact ⟨destination, hnew, by rw [htype, hname]⟩
  | some found =>
    obtain ⟨qualifier, type'⟩ := found
    have hrest : 63 ∉ name.drop qualifier.length := fun hmem => h (mem_of_mem_drop hmem)
    obtain ⟨destination, hnew, htype, hname⟩ := new_of_not_mem getenv type' hrest
    exact ⟨destination, hnew, by rw [htype, hname]⟩

theorem addComposites_eq {names : List ByteString} (h : ∀ name ∈ names, 63 ∉ name) (d : ActiveMQDestination) :
    ∃ destinations, addComposites getenv names d =
        .ok () { d with compositeDestinations := d.compositeDestinations ++ destinations } ∧
      destinations.map (fun d => (d.destinationType, d.physicalName)) = names.map (qualified d.destinationType) := by
  induction names generalizing d with
  | nil =>
    refine ⟨[], ?_, rfl⟩
    rw [append_nil]
    rfl
  | cons name names ih =>
    obtain ⟨destination, hcreate, hqualified⟩ :=
      createDestination_of_not_mem getenv d.destinationType (h name mem_cons_self)
    obtain ⟨destinations, hrest, hmap⟩ := ih (fun name' hname' => h name' (mem_cons_of_mem _ hname'))
      { d with compositeDestinations := d.compositeDestinations ++ [destination] }
    refine ⟨destination :: destinations, ?_, ?_⟩
    · have hget : (get : EStateM Failure ActiveMQDestination ActiveMQDestination) d = .ok d d := rfl
      rw [addComposites, bind_ok hget, hcreate]
      show addComposites getenv names _ = _
      rw [hrest, append_assoc]
      rfl
    · rw [map_cons, map_cons, hqualified, hmap]

theorem isComposite_iff (d : ActiveMQDestination) : d.isComposite = true ↔ 44 ∈ d.physicalName := by
  rw [isComposite, findFirstOf, Option.bind_some, drop_zero, Option.isSome_map, List.findIdx?_isSome, any_eq_true]
  constructor
  · rintro ⟨c, hmem, hc⟩
    rwa [mem_singleton.mp (contains_iff_mem.mp hc)] at hmem
  · intro hmem
    exact ⟨44, hmem, rfl⟩

theorem getCompositeDestinations_eq {d : ActiveMQDestination} (hname : 63 ∉ d.physicalName)
    (hcomma : 44 ∈ d.physicalName) (hcache : d.compositeDestinations = [] ∨
      IsComposed d.destinationType d.physicalName d.compositeDestinations) :
    ∃ destinations, getCompositeDestinations getenv d = .ok destinations { d with compositeDestinations := destinations } ∧
      IsComposed d.destinationType d.physicalName destinations := by
  have hget : (get : EStateM Failure ActiveMQDestination ActiveMQDestination) d = .ok d d := rfl
  by_cases hnil : d.compositeDestinations = []
  · obtain ⟨t', htokens⟩ := Text.StringTokenizer.toArray_eq
      (rfl : (Text.StringTokenizer.mk d.physicalName (ascii ",") (some 0) false).returnDelims = false)
    rw [Text.StringTokenizer.tokens_mk] at htokens
    generalize hwords : words (fun c => (ascii ",").contains c) d.physicalName = tokens at htokens
    have hplain : ∀ name ∈ (components tokens).entries.map Prod.fst, 63 ∉ name := by
      intro name hmem hquestion
      obtain ⟨-, token, htoken, rfl⟩ := mem_components.mp hmem
      rw [← hwords] at htoken
      exact hname (mem_of_mem_words htoken (mem_of_mem_trim hquestion))
    obtain ⟨destinations, hadd, hmap⟩ := addComposites_eq getenv hplain d
    rw [hnil, nil_append] at hadd
    refine ⟨destinations, ?_, _, nodup_components tokens, fun c => ?_, hmap⟩
    · rw [getCompositeDestinations, bind_ok hget, if_neg (not_not_intro hnil), if_pos ((isComposite_iff d).mpr hcomma),
        htokens]
      dsimp only
      rw [bind_ok hadd]
      rfl
    · rw [mem_components, ← hwords]
      exact and_congr_right fun hc => exists_word_iff hc
  · refine ⟨d.compositeDestinations, ?_, hcache.resolve_left hnil⟩
    rw [getCompositeDestinations, bind_ok hget, if_pos hnil]
    rfl

end Composites

/-! ### Runs -/

def Cached (d : ActiveMQDestination) : Prop :=
  d.compositeDestinations = [] ∨
    44 ∈ d.physicalName ∧ IsComposed d.destinationType d.physicalName d.compositeDestinations

namespace Tracked

variable (getenv : ByteString → Except Failure ByteString)

def Kept (t : Tracked) : Prop := ∀ s, t.last = some s → Named getenv s t.destination ∧ Cached t.destination

variable {getenv}
variable {t : Tracked}

theorem faithful_of_kept (h : Kept getenv t) : t.Faithful getenv := by
  intro s hs
  obtain ⟨hnamed, hcached⟩ := h s hs
  refine ⟨hnamed, fun hcomma => ?_⟩
  have hname := hnamed.physicalName
  rw [← hname] at hcomma ⊢
  have hquestion : 63 ∉ t.destination.physicalName := hname ▸ not_mem_nameOf s
  obtain ⟨destinations, hget, hcomposed⟩ :=
    getCompositeDestinations_eq getenv hquestion hcomma (hcached.imp_right And.right)
  exact ⟨destinations, _, hget, hcomposed⟩

theorem stateOf_getCompositeDestinations {d : ActiveMQDestination} (hname : 63 ∉ d.physicalName) (hcached : Cached d) :
    ∃ destinations, stateOf (getCompositeDestinations getenv d) = { d with compositeDestinations := destinations } ∧
      Cached { d with compositeDestinations := destinations } := by
  by_cases hcomma : 44 ∈ d.physicalName
  · obtain ⟨destinations, hget, hcomposed⟩ :=
      getCompositeDestinations_eq getenv hname hcomma (hcached.imp_right And.right)
    rw [hget]
    exact ⟨destinations, rfl, .inr ⟨hcomma, hcomposed⟩⟩
  · have hnil : d.compositeDestinations = [] := hcached.resolve_right fun h => hcomma h.1
    have hplain : ¬ d.isComposite = true := fun h => hcomma ((isComposite_iff d).mp h)
    have hget : (get : EStateM Failure ActiveMQDestination ActiveMQDestination) d = .ok d d := rfl
    refine ⟨[], ?_, .inl rfl⟩
    rw [getCompositeDestinations, bind_ok hget, if_neg (not_not_intro hnil), if_neg hplain]
    rw [← hnil]
    rfl

theorem kept_step {t' : Tracked} {op : DestinationOp} (h : Kept getenv t) (hop : DestinationOp.Settable getenv t op)
    (hstep : DestinationOp.step getenv t op = some t') : Kept getenv t' := by
  cases op with
  | setPhysicalName s =>
    rw [DestinationOp.step] at hstep
    cases hset : setPhysicalName getenv s t.destination with
    | error e d =>
      rw [hset] at hstep
      cases hstep
      intro s' hs'
      cases hs'
    | ok _ d =>
      rw [hset] at hstep
      cases hstep
      intro s' hs'
      cases hs'
      obtain ⟨hplain, hleft, hadvisory⟩ := hop
      obtain ⟨entries, -, hd⟩ := setPhysicalName_entries hplain hset
      exact ⟨(named_iff hplain hset).mpr ⟨hleft, hadvisory⟩, .inl (by rw [hd]; rfl)⟩
  | getCompositeDestinations =>
    cases hstep
    intro s hs
    obtain ⟨hnamed, hcached⟩ := h s hs
    have hquestion : 63 ∉ t.destination.physicalName := hnamed.physicalName ▸ not_mem_nameOf s
    obtain ⟨destinations, hstate, hkept⟩ := @stateOf_getCompositeDestinations getenv _ hquestion hcached
    rw [hstate]
    exact ⟨⟨hnamed.physicalName, hnamed.options, hnamed.advisory, hnamed.hashCode⟩, hkept⟩

/-- In a run whose sets all have the condition, the destination says at every point what was set last. -/
theorem naming_faithful (d : ActiveMQDestination) (ops : List DestinationOp)
    (h : Runs.Always (DestinationOp.step getenv) (DestinationOp.Settable getenv) ⟨d, none⟩ ops) :
    Runs.Throughout (DestinationOp.step getenv) (Faithful getenv) ⟨d, none⟩ ops := by
  have hstart : Kept getenv ⟨d, none⟩ := by
    intro s hs
    cases hs
  apply Runs.Always.throughout _ _ hstart h
  · intro t op t' hkept hop hstep
    exact kept_step hkept hop hstep
  · intro t hkept
    exact faithful_of_kept hkept

/-- A composite name with an option, on a new queue. -/
theorem naming_faithful_composite :
    Runs.Throughout (DestinationOp.step fun _ => .ok []) (Faithful fun _ => .ok []) ⟨{ destinationType := .queue }, none⟩
      [.setPhysicalName (ascii "a,topic://b?x=1"), .getCompositeDestinations] := by
  apply naming_faithful
  refine ⟨⟨?_, ?_, ?_⟩, fun _ _ => ⟨trivial, fun _ _ => trivial⟩⟩
  · intro query hquery
    obtain rfl : ascii "x=1" = query := Option.some.inj hquery
    exact .inr (by decide)
  · intro options _ key _
    exact find_empty key
  · intro c hhead hmem
    obtain rfl : 97 = c := Option.some.inj hhead
    exact absurd hmem (by decide)

/-- `o` is a character of the advisory prefix, and an option outlives the set that had it. -/
theorem naming_unfaithful :
    (¬ Runs.Throughout (DestinationOp.step fun _ => .ok []) (Faithful fun _ => .ok [])
      ⟨{ destinationType := .queue }, none⟩ [.setPhysicalName (ascii "orders")]) ∧
    ¬ Runs.Throughout (DestinationOp.step fun _ => .ok []) (Faithful fun _ => .ok [])
      ⟨{ destinationType := .queue }, none⟩ [.setPhysicalName (ascii "a?x=1"), .setPhysicalName (ascii "b")] := by
  have hset : ∀ t : Tracked, ∀ s, queryOf s = none →
      DestinationOp.step (fun _ => .ok []) t (.setPhysicalName s) =
        some ⟨settled s t.destination.options t.destination.destinationType, some s⟩ := by
    intro t s hquery
    rw [DestinationOp.step, setPhysicalName_eq, hquery]
  constructor
  · rintro ⟨hgood, -⟩
    have hnamed := (hgood _ (hset _ (ascii "orders") (by decide)) _ rfl).1
    exact absurd (hnamed.advisory.mp (by decide)) (by decide)
  · rintro ⟨-, hrest⟩
    have hquery : queryOf (ascii "a?x=1") = some (ascii "x=1") := by decide
    have hparse : parseQueryInto (fun _ => .ok []) (ascii "x=1") empty =
        .ok () (empty.insert (ascii "x") (ascii "1")) := by
      rw [parseQueryInto_eq]
      rfl
    have hfirst : DestinationOp.step (fun _ => .ok []) ⟨{ destinationType := .queue }, none⟩
        (.setPhysicalName (ascii "a?x=1")) =
        some ⟨settled (ascii "a?x=1") (empty.insert (ascii "x") (ascii "1")) .queue, some (ascii "a?x=1")⟩ := by
      rw [DestinationOp.step, setPhysicalName_eq, hquery]
      dsimp only
      rw [hparse]
    obtain ⟨hgood, -⟩ := hrest _ hfirst
    have hnamed := (hgood _ (hset _ (ascii "b") (by decide)) _ rfl).1
    have hempty : empty = empty.insert (ascii "x") (ascii "1") := Option.some.inj hnamed.options
    exact absurd hempty (by decide)

end Tracked

end ActiveMQCpp.Commands
