import ActiveMQCpp.UtilCompositeRoundTrip

/-! `URISupport::applyParameters`: the query is cut off the URI, and put back with the parameters behind it. -/

namespace ActiveMQCpp.Util

open Codec Decaf Words Decaf.URIHelper Decaf.URIEncoderDecoder List URI URIComponents

namespace URISupport

def isCompositeURI (u : URI) : Bool :=
  let ssp := stripPrefix u.uri.schemeSpecificPart (ascii "//")
  find 40 ssp 0 = some 0 && checkParenthesis ssp

variable (getenv : ByteString → Except Failure ByteString)
variable {legal s : ByteString}

def parseParametersOf (u : URI) : Except CompositeException Properties :=
  if !isCompositeURI u then do
    let query ← u.getQuery.mapError .uri
    if query = [] then pure OrderedMap.empty else (parseQuery getenv (stripPrefix query (ascii "?"))).mapError .query
  else do
    let result ← parseComposite getenv u
    pure result.parameters

/-- The scheme specific part up to its last `?`, if that does not stand before the last `)`. -/
def stripQueryOf (ssp : ByteString) : ByteString :=
  match rfind 63 ssp with
  | some questionMark => if (rfind 41 ssp).any (questionMark < ·) then ssp else ssp.take questionMark
  | none => ssp

def createURIWithQuery (u : URI) (query : ByteString) : Except URIException URI := do
  let ssp := stripQueryOf u.uri.schemeSpecificPart
  let ssp := if query ≠ [] then ssp ++ ascii "?" ++ query else ssp
  let fragment ← u.getFragment
  URI.ofSchemeSpecificPart u.uri.scheme ssp fragment

def appendParameter (optionPrefix newQuery : ByteString) (entry : ByteString × ByteString) : ByteString :=
  if optionPrefix <+: entry.1 then
    (if newQuery.length ≠ 0 then newQuery ++ ascii "&" else newQuery) ++
      (if optionPrefix ≠ [] then entry.1.drop optionPrefix.length else entry.1) ++ ascii "=" ++ entry.2
  else newQuery

/-- Without parameters the URI that is returned is the one that `result` was made with. -/
def applyParameters (u : URI) (queryParameters : Properties) (optionPrefix : ByteString) : Except URIException URI :=
  if queryParameters.entries ≠ [] then
    createURIWithQuery u (queryParameters.entries.foldl (appendParameter optionPrefix) u.uri.query)
  else pure {}

/-! ### What is to be applied -/

/-- The parameters that carry the prefix, without it. -/
def selected (optionPrefix : ByteString) (entries : List (ByteString × ByteString)) : List (ByteString × ByteString) :=
  (entries.filter fun entry => optionPrefix <+: entry.1).map fun entry => (entry.1.drop optionPrefix.length, entry.2)

def override (parameters : Properties) (entries : List (ByteString × ByteString)) : Properties :=
  entries.foldl (fun parameters entry => parameters.insert entry.1 entry.2) parameters

/-- A character that stands for itself everywhere in a URI. -/
def isUnreserved (c : UInt8) : Bool := Character.isLetterOrDigit c || (ascii "-._~").contains c

/-- A text of characters that are safe in a URI. -/
def Safe (text : ByteString) : Prop := ∀ c ∈ text, isUnreserved c = true

instance (text : ByteString) : Decidable (Safe text) := inferInstanceAs (Decidable (∀ c ∈ text, isUnreserved c = true))

/-- The parts of a URI besides its query. -/
structure SameParts (u other : URI) : Prop where
  scheme : other.uri.scheme = u.uri.scheme
  authority : other.uri.authority = u.uri.authority
  userinfo : other.uri.userinfo = u.uri.userinfo
  host : other.uri.host = u.uri.host
  port : other.uri.port = u.uri.port
  path : other.uri.path = u.uri.path
  isOpaque : other.uri.isOpaque = u.uri.isOpaque
  fragment : other.getFragment = u.getFragment

/-- The components and the path of a composite stay. -/
def SameComponents (u other : URI) : Prop :=
  isCompositeURI other = isCompositeURI u ∧
    ∀ result, parseComposite getenv u = .ok result → isCompositeURI u = true →
      ∃ result', parseComposite getenv other = .ok result' ∧ result'.texts = result.texts ∧ result'.path = result.path

/-- The parameters that are read of the result are those of the URI, overridden by the ones that were to be applied. -/
def Applied (u : URI) (queryParameters : Properties) (optionPrefix : ByteString) : Prop :=
  ∃ other, applyParameters u queryParameters optionPrefix = .ok other ∧ SameParts u other ∧ SameComponents getenv u other ∧
    ∀ parameters, parseParametersOf getenv u = .ok parameters →
      parseParametersOf getenv other = .ok (override parameters (selected optionPrefix queryParameters.entries))

/-- Every character of the URI is kept by quoting. The query that is cut off is the one that is put back: there is no other
`?` behind the components, and no parenthesis is closed in it. -/
structure Reattached (u : URI) (front : ByteString) (query : Option ByteString) : Prop where
  kept : ∀ c ∈ u.uri.schemeSpecificPart, isQuoted allLegal c = false
  split : u.uri.schemeSpecificPart = front ++ marked 63 query
  raw : u.uri.query = query.getD []
  plain : ∀ q ∈ query, 63 ∉ q ∧ 41 ∉ q
  only : ∀ a b, front = a ++ 63 :: b → 41 ∈ b
  readable : u.uri.isOpaque = false ∨ isCompositeURI u = true

/-! ### The new query -/

/-- An option behind those that are there. -/
def appendOption (query : ByteString) (entry : ByteString × ByteString) : ByteString :=
  (if query = [] then [] else query ++ ascii "&") ++ (entry.1 ++ ascii "=" ++ entry.2)

theorem selected_cons (optionPrefix : ByteString) (entry : ByteString × ByteString) (entries : List (ByteString × ByteString)) :
    selected optionPrefix (entry :: entries) =
      if optionPrefix <+: entry.1 then (entry.1.drop optionPrefix.length, entry.2) :: selected optionPrefix entries
      else selected optionPrefix entries := by
  rw [selected, filter_cons]
  simp only [decide_eq_true_eq]
  split_ifs <;> rfl

theorem foldl_appendParameter (optionPrefix query : ByteString) (entries : List (ByteString × ByteString)) :
    entries.foldl (appendParameter optionPrefix) query = (selected optionPrefix entries).foldl appendOption query := by
  induction entries generalizing query with
  | nil => rfl
  | cons entry entries ih =>
    rw [foldl_cons, ih]
    by_cases hcarries : optionPrefix <+: entry.1
    · have hkey : (if optionPrefix ≠ [] then entry.1.drop optionPrefix.length else entry.1) =
          entry.1.drop optionPrefix.length := by
        split_ifs with hempty
        · rfl
        · rw [not_not.mp hempty]
          rfl
      have hquery : (if query.length ≠ 0 then query ++ ascii "&" else query) =
          if query = [] then [] else query ++ ascii "&" := by
        by_cases hnil : query = []
        · rw [hnil]
          rfl
        · rw [if_pos fun hzero => hnil (eq_nil_of_length_eq_zero hzero), if_neg hnil]
      rw [appendParameter, if_pos hcarries, hkey, hquery, selected_cons, if_pos hcarries, foldl_cons, appendOption,
        append_assoc, append_assoc, append_assoc]
    · rw [appendParameter, if_neg hcarries, selected_cons, if_neg hcarries]

/-- An entry that is read as it is written. -/
structure Readable (entry : ByteString × ByteString) : Prop where
  key : entry.1 ≠ [] ∧ Safe entry.1
  value : entry.2 ≠ [] ∧ Safe entry.2

theorem safe_not_mem {text : ByteString} (h : Safe text) {c : UInt8} (hc : isUnreserved c = false) : c ∉ text := by
  intro hmem
  rw [h c hmem] at hc
  cases hc

section Options

variable {options : List (ByteString × ByteString)} {c : UInt8}
variable {query : ByteString}

theorem count_appended (hoptions : ∀ entry ∈ options, Readable entry) (hc : isUnreserved c = false) (hmarks : c ≠ 38 ∧ c ≠ 61)
    (query : ByteString) : (options.foldl appendOption query).count c = query.count c := by
  induction options generalizing query with
  | nil => rfl
  | cons entry options ih =>
    obtain ⟨hkey, hvalue⟩ := hoptions entry mem_cons_self
    have hequals : (ascii "=").count c = 0 := count_eq_zero.mpr fun hmem => hmarks.2 (mem_singleton.mp hmem)
    have hand : (ascii "&").count c = 0 := count_eq_zero.mpr fun hmem => hmarks.1 (mem_singleton.mp hmem)
    rw [foldl_cons, ih fun other hother => hoptions other (mem_cons_of_mem _ hother), appendOption,
      count_append, count_append, count_append, count_eq_zero.mpr (safe_not_mem hkey.2 hc),
      count_eq_zero.mpr (safe_not_mem hvalue.2 hc), hequals]
    split_ifs with hnil
    · rw [hnil]
      rfl
    · rw [count_append, hand]
      rfl

theorem not_mem_appended (hoptions : ∀ entry ∈ options, Readable entry) (hc : isUnreserved c = false)
    (hmarks : c ≠ 38 ∧ c ≠ 61) (h : c ∉ query) : c ∉ options.foldl appendOption query := by
  apply count_eq_zero.mp
  rw [count_appended hoptions hc hmarks]
  exact count_eq_zero.mpr h

/-- Every character comes from the query, from the options or stands between them. -/
theorem kept_appended (hoptions : ∀ entry ∈ options, Readable entry)
    (h : ∀ c ∈ query, isQuoted allLegal c = false) : ∀ c ∈ options.foldl appendOption query, isQuoted allLegal c = false := by
  have hsafe : ∀ {text : ByteString}, Safe text → ∀ c ∈ text, isQuoted allLegal c = false := by
    intro text htext c hc
    have hunreserved := htext c hc
    rw [isUnreserved, Bool.or_eq_true] at hunreserved
    have hlegal : Character.isLetterOrDigit c = true ∨ allLegal.contains c = true := by
      refine hunreserved.imp_right fun hmark => ?_
      rw [contains_iff_mem] at hmark ⊢
      have hsub : ∀ d ∈ ascii "-._~", d ∈ allLegal := by decide
      exact hsub c hmark
    rw [isQuoted, Bool.not_eq_false', Bool.or_eq_true, Bool.or_eq_true]
    exact .inl hlegal
  induction options generalizing query with
  | nil => exact h
  | cons entry options ih =>
    obtain ⟨hkey, hvalue⟩ := hoptions entry mem_cons_self
    apply ih fun other hother => hoptions other (mem_cons_of_mem _ hother)
    intro c hc
    rw [appendOption, mem_append, mem_append, mem_append] at hc
    obtain hquery | (hc | hc) | hc := hc
    · split_ifs at hquery with hnil
      · cases hquery
      · obtain hc | hc := mem_append.mp hquery
        · exact h c hc
        · rw [mem_singleton.mp hc]
          decide
    · exact hsafe hkey.2 c hc
    · rw [mem_singleton.mp hc]
      decide
    · exact hsafe hvalue.2 c hc

theorem words_appended (hoptions : ∀ entry ∈ options, Readable entry) (query : ByteString) :
    words isAmpersand (options.foldl appendOption query) =
      words isAmpersand query ++ options.map fun entry => entry.1 ++ ascii "=" ++ entry.2 := by
  induction options generalizing query with
  | nil => exact (append_nil _).symm
  | cons entry options ih =>
    obtain ⟨hkey, hvalue⟩ := hoptions entry mem_cons_self
    have hword : Word isAmpersand (entry.1 ++ ascii "=" ++ entry.2) := by
      refine ⟨append_ne_nil_of_right_ne_nil _ hvalue.1, fun c hc => ?_⟩
      refine Bool.eq_false_iff.mpr fun hand => ?_
      rw [isAmpersand_iff.mp hand, mem_append, mem_append] at hc
      obtain (hc | hc) | hc := hc
      · exact safe_not_mem hkey.2 (by decide) hc
      · exact absurd (mem_singleton.mp hc) (by decide)
      · exact safe_not_mem hvalue.2 (by decide) hc
    rw [foldl_cons, ih fun other hother => hoptions other (mem_cons_of_mem _ hother), appendOption, map_cons]
    split_ifs with hnil
    · rw [hnil, nil_append, words_of_word hword]
      rfl
    · have hsep : query ++ ascii "&" ++ (entry.1 ++ ascii "=" ++ entry.2) = query ++ 38 :: (entry.1 ++ ascii "=" ++ entry.2) :=
        append_assoc _ _ _
      rw [hsep, words_append rfl, words_of_word hword, append_assoc]
      rfl

variable {getenv : ByteString → Except Failure ByteString}
variable {parameters : Properties}

theorem optionEntry_readable {entry : ByteString × ByteString} (h : Readable entry) :
    optionEntry getenv (entry.1 ++ ascii "=" ++ entry.2) = .ok entry := by
  obtain ⟨⟨hkey, hsafeKey⟩, hvalue, hsafeValue⟩ := h
  have hequals : ∀ {text : ByteString}, Safe text → ∀ c ∈ text, isEquals c = false := by
    intro text htext c hc
    refine Bool.eq_false_iff.mpr fun hsep => ?_
    rw [isEquals_iff.mp hsep] at hc
    exact safe_not_mem htext (by decide) hc
  have hwords : words isEquals (entry.1 ++ ascii "=" ++ entry.2) = [entry.1, entry.2] := by
    rw [append_assoc]
    show words isEquals (entry.1 ++ 61 :: entry.2) = _
    rw [words_append_sep ⟨hkey, hequals hsafeKey⟩ rfl, words_of_word ⟨hvalue, hequals hsafeValue⟩]
  obtain ⟨first, rest, hfirst⟩ := exists_cons_of_ne_nil hvalue
  have hdollar : first ≠ 36 := by
    intro heq
    apply safe_not_mem hsafeValue (c := 36) (by decide)
    rw [hfirst, heq]
    exact mem_cons_self
  have hplain : replaceEnvValues getenv entry.2 = .ok entry.2 := by
    rw [hfirst, replaceEnvValues]
    simp only [if_neg hdollar]
    rfl
  rw [optionEntry, hwords]
  dsimp only
  rw [hplain]
  rfl

theorem mapM_readable (hoptions : ∀ entry ∈ options, Readable entry) :
    (options.map fun entry => entry.1 ++ ascii "=" ++ entry.2).mapM (optionEntry getenv) = .ok options := by
  induction options with
  | nil => rfl
  | cons entry options ih =>
    rw [map_cons, mapM_cons, optionEntry_readable (hoptions entry mem_cons_self),
      ih fun other hother => hoptions other (mem_cons_of_mem _ hother)]
    rfl

theorem parseQuery_ok : parseQuery getenv query = .ok parameters ↔
      ∃ entries, (words isAmpersand (stripQuery query)).mapM (optionEntry getenv) = .ok entries ∧
        override OrderedMap.empty entries = parameters := by
  rw [parseQuery, parseQueryInto_eq, mapError, mapError]
  obtain ⟨entries, hentries, hset⟩ | ⟨e, e', rest, herror, hset⟩ :=
    forM_setOption getenv (words isAmpersand (stripQuery query)) OrderedMap.empty
  · rw [hset, hentries]
    constructor
    · intro h
      exact ⟨entries, rfl, Except.ok.inj h⟩
    · rintro ⟨_, ⟨⟩, h⟩
      exact congrArg Except.ok h
  · rw [hset, herror]
    constructor
    · intro h
      cases h
    · rintro ⟨_, h, -⟩
      cases h

/-- **What is appended to a query overrides what is read of it.** -/
theorem parseQuery_appended (hoptions : ∀ entry ∈ options, Readable entry) (hquery : 63 ∉ query)
    (h : parseQuery getenv query = .ok parameters) :
    parseQuery getenv (options.foldl appendOption query) = .ok (override parameters options) := by
  obtain ⟨entries, hentries, rfl⟩ := parseQuery_ok.mp h
  rw [stripQuery_of_not_mem hquery] at hentries
  apply parseQuery_ok.mpr
  rw [stripQuery_of_not_mem (not_mem_appended hoptions (by decide) (by decide) hquery), words_appended hoptions,
    mapM_append, hentries, mapM_readable hoptions]
  exact ⟨entries ++ options, rfl, foldl_append⟩

end Options

/-! ### Where the query is cut off -/

section Cut

variable {u : URI} {front : ByteString} {query : Option ByteString}

/-- The query is cut off at the mark in front of it. -/
theorem stripQueryOf_reattached (h : Reattached u front query) : stripQueryOf u.uri.schemeSpecificPart = front := by
  rw [h.split, stripQueryOf]
  cases query with
  | none =>
    rw [marked, append_nil]
    by_cases hmark : 63 ∈ front
    · obtain ⟨a, b, rfl, hb⟩ := exists_last hmark
      obtain ⟨c, d, rfl, hd⟩ := exists_last (h.only a b rfl)
      rw [rfind_append a hb]
      have hclosing : rfind 41 (a ++ 63 :: (c ++ 41 :: d)) = some (a.length + (c.length + 1)) := by
        have hassoc : a ++ 63 :: (c ++ 41 :: d) = (a ++ 63 :: c) ++ 41 :: d := by
          rw [append_assoc, cons_append]
        rw [hassoc, rfind_append _ hd, length_append, length_cons]
      dsimp only
      rw [hclosing, Option.any_some, if_pos (decide_eq_true (by omega))]
    · rw [rfind_none hmark]
  | some q =>
    obtain ⟨hmark, hclosing⟩ := h.plain q rfl
    rw [marked, rfind_append front hmark]
    have hbefore : (rfind 41 (front ++ 63 :: q)).any (front.length < ·) = false := by
      by_cases hmem : 41 ∈ front
      · obtain ⟨a, b, hsplit, hb⟩ := exists_last hmem
        have hlast : 41 ∉ b ++ 63 :: q := by
          rw [mem_append, mem_cons, not_or, not_or]
          exact ⟨hb, by decide, hclosing⟩
        have hassoc : front ++ 63 :: q = a ++ 41 :: (b ++ 63 :: q) := by
          rw [hsplit, append_assoc, cons_append]
        have hlength := congrArg List.length hsplit
        rw [length_append, length_cons] at hlength
        rw [hassoc, rfind_append a hlast, Option.any_some, decide_eq_false (by omega)]
      · have hnone : 41 ∉ front ++ 63 :: q := by
          rw [mem_append, mem_cons, not_or, not_or]
          exact ⟨hmem, by decide, hclosing⟩
        rw [rfind_none hnone, Option.any_none]
    dsimp only
    rw [hbefore, if_neg Bool.false_ne_true, take_left]

theorem find_opening {s : ByteString} : find 40 s 0 = some 0 ↔ s.head? = some 40 := by
  cases s with
  | nil => exact iff_of_false (fun h => by cases h) fun h => by cases h
  | cons c s =>
    rw [find, drop_zero, List.findIdx?_cons]
    by_cases hc : c = 40
    · rw [hc]
      simp
    · simp [hc]

theorem stripPrefix_cases (s : ByteString) : (∃ rest, s = 47 :: 47 :: rest ∧ stripPrefix s (ascii "//") = rest) ∨
      (¬ [47, 47] <+: s ∧ stripPrefix s (ascii "//") = s) := by
  by_cases h : ascii "//" <+: s
  · obtain ⟨rest, rfl⟩ := h
    exact .inl ⟨rest, rfl, if_pos (prefix_append _ _)⟩
  · exact .inr ⟨h, if_neg h⟩

theorem checkParenthesis_stripPrefix (s : ByteString) : checkParenthesis (stripPrefix s (ascii "//")) = checkParenthesis s := by
  obtain ⟨rest, rfl, hstrip⟩ | ⟨-, hstrip⟩ := stripPrefix_cases s
  · rw [hstrip, checkParenthesis, checkParenthesis, count_cons_of_ne (by decide), count_cons_of_ne (by decide),
      count_cons_of_ne (by decide), count_cons_of_ne (by decide)]
  · rw [hstrip]

theorem isCompositeURI_iff : isCompositeURI u = true ↔
    (stripPrefix u.uri.schemeSpecificPart (ascii "//")).head? = some 40 ∧
      checkParenthesis u.uri.schemeSpecificPart = true := by
  rw [isCompositeURI, Bool.and_eq_true, decide_eq_true_eq, find_opening, checkParenthesis_stripPrefix]

/-- Whether a parenthesis is opened first does not depend on the query. -/
theorem opening_marked (front : ByteString) (query : Option ByteString) :
    (stripPrefix (front ++ marked 63 query) (ascii "//")).head? = some 40 ↔ (stripPrefix front (ascii "//")).head? = some 40 := by
  have hhead : ∀ rest : ByteString, (rest ++ marked 63 query).head? = some 40 ↔ rest.head? = some 40 := by
    intro rest
    cases rest with
    | nil => cases query <;> exact iff_of_false (fun h => by cases h) fun h => by cases h
    | cons c rest => exact Iff.rfl
  obtain ⟨rest, rfl, hstrip⟩ | ⟨hnot, hstrip⟩ := stripPrefix_cases front
  · have hwhole : stripPrefix (47 :: 47 :: rest ++ marked 63 query) (ascii "//") = rest ++ marked 63 query :=
      if_pos ⟨rest ++ marked 63 query, rfl⟩
    rw [hstrip, hwhole, hhead]
  · have hstay : ¬ ascii "//" <+: front ++ marked 63 query := fun h => hnot (prefix_path (n := 2) h)
    rw [hstrip, stripPrefix, if_neg hstay, hhead]

theorem stripPrefix_marked (h : (stripPrefix front (ascii "//")).head? = some 40) (query : Option ByteString) :
    stripPrefix (front ++ marked 63 query) (ascii "//") = stripPrefix front (ascii "//") ++ marked 63 query := by
  obtain ⟨rest, rfl, hstrip⟩ | ⟨hnot, hstrip⟩ := stripPrefix_cases front
  · rw [hstrip]
    exact if_pos ⟨rest ++ marked 63 query, rfl⟩
  · rw [hstrip]
    exact if_neg fun hslashes => hnot (prefix_path (n := 2) hslashes)

theorem not_mem_marked {c : UInt8} (hmark : c ≠ 63) {query : Option ByteString} (h : ∀ q ∈ query, c ∉ q) :
    c ∉ marked 63 query := by
  cases query with
  | none => exact not_mem_nil
  | some q => exact fun hmem => (mem_cons.mp hmem).elim hmark (h q rfl)

theorem composite_front (h : Reattached u front query) (hcomposite : isCompositeURI u = true) :
    ∃ inside path, stripPrefix front (ascii "//") = 40 :: (inside ++ 41 :: path) ∧ 41 ∉ path ∧ 63 ∉ path := by
  obtain ⟨hopening, hcheck⟩ := isCompositeURI_iff.mp hcomposite
  rw [h.split, opening_marked] at hopening
  rw [h.split] at hcheck
  obtain ⟨rest, hrest⟩ : ∃ rest, stripPrefix front (ascii "//") = 40 :: rest := by
    cases hstripped : stripPrefix front (ascii "//") with
    | nil =>
      rw [hstripped] at hopening
      cases hopening
    | cons c rest =>
      rw [hstripped] at hopening
      cases hopening
      exact ⟨rest, rfl⟩
  have hclosing : 41 ∈ rest := by
    have hcount := of_decide_eq_true ((checkParenthesis_stripPrefix _).trans hcheck)
    rw [stripPrefix_marked hopening, hrest, count_append, count_append,
      count_eq_zero.mpr (not_mem_marked (by decide) fun q hq => (h.plain q hq).2), count_cons_self,
      count_cons_of_ne (by decide)] at hcount
    apply one_le_count_iff.mp
    omega
  obtain ⟨inside, path, rfl, hpath⟩ := exists_last hclosing
  refine ⟨inside, path, hrest, hpath, fun hmark => ?_⟩
  obtain ⟨a, b, rfl⟩ := append_of_mem hmark
  -- a mark behind the last parenthesis would be another one than that of the query
  have hb : 41 ∈ b := by
    obtain ⟨all, rfl, hstrip⟩ | ⟨-, hstrip⟩ := stripPrefix_cases front
    · rw [hstrip] at hrest
      apply h.only (47 :: 47 :: 40 :: (inside ++ 41 :: a)) b
      rw [hrest]
      simp
    · rw [hstrip] at hrest
      apply h.only (40 :: (inside ++ 41 :: a)) b
      rw [hrest]
      simp
  exact hpath (mem_append_right a (mem_cons_of_mem 63 hb))

end Cut

/-! ### The URI that is created -/

theorem quoteIllegal_of_kept (h : ∀ c ∈ s, isQuoted legal c = false) : quoteIllegal s legal = s := by
  induction s with
  | nil => rfl
  | cons c s ih =>
    have hrest : s.flatMap (quoteChar legal) = s := ih fun d hd => h d (mem_cons_of_mem c hd)
    rw [quoteIllegal, flatMap_cons, quoteChar_of_kept (h c mem_cons_self), hrest]
    rfl

theorem decodes_of_legal (h : Legal legal s) : ∃ t, decode s = .ok t := by
  induction h with
  | nil => exact ⟨[], rfl⟩
  | char hne _ _ ih =>
    obtain ⟨t, ht⟩ := ih
    rw [decode_char hne, ht]
    exact ⟨_, rfl⟩
  | escape hd1 hd2 _ ih =>
    obtain ⟨t, ht⟩ := ih
    rw [decode_escape hd1 hd2, ht]
    exact ⟨_, rfl⟩

section Created

variable {u : URI} {front : ByteString} {query : Option ByteString} {text newQuery : ByteString} {forceServer : Bool}
variable {ref : URIReference} {server : Option ServerAuthority}

def newMark (newQuery : ByteString) : Option ByteString := URIComponents.optional newQuery newQuery

/-- Nothing is quoted in the new scheme specific part. -/
theorem kept_marked (h : Reattached u front query) (hkept : ∀ c ∈ newQuery, isQuoted allLegal c = false) :
    ∀ c ∈ front ++ marked 63 (newMark newQuery), isQuoted allLegal c = false := by
  intro c hc
  obtain hc | hc := mem_append.mp hc
  · apply h.kept
    rw [h.split]
    exact mem_append_left _ hc
  · rw [newMark, URIComponents.optional] at hc
    split_ifs at hc
    · cases hc
    · obtain rfl | hc := mem_cons.mp hc
      · decide
      · exact hkept c hc

theorem createURIWithQuery_eq (h : Reattached u front query) {fragment : ByteString} (hfragment : u.getFragment = .ok fragment)
    (hkept : ∀ c ∈ newQuery, isQuoted allLegal c = false) :
    createURIWithQuery u newQuery =
      (URI.parseURI (URI.before u.uri.scheme (ascii ":") ++ (front ++ marked 63 (newMark newQuery)) ++
        marked 35 (URIComponents.optional fragment (quoteIllegal fragment allLegal))) false >>= fun uri => pure { uri }) := by
  have hssp : (if newQuery ≠ [] then front ++ ascii "?" ++ newQuery else front) = front ++ marked 63 (newMark newQuery) := by
    rw [newMark, URIComponents.optional]
    by_cases hempty : newQuery = []
    · rw [if_neg (not_not_intro hempty), if_pos hempty]
      exact (append_nil front).symm
    · rw [if_pos hempty, if_neg hempty, append_assoc]
      rfl
  have hquote : quoteIllegal (front ++ marked 63 (newMark newQuery)) allLegal = front ++ marked 63 (newMark newQuery) := by
    exact quoteIllegal_of_kept (kept_marked h hkept)
  have hbehind : behind (ascii "#") fragment (quoteIllegal fragment allLegal) =
      marked 35 (optional fragment (quoteIllegal fragment allLegal)) := by
    rw [URI.behind, URIComponents.optional]
    split_ifs <;> rfl
  rw [createURIWithQuery, stripQueryOf_reattached h, hssp, hfragment]
  show ofSchemeSpecificPart _ _ _ = _
  rw [ofSchemeSpecificPart, hquote, hbehind]

theorem kept_query (h : Reattached u front query) : ∀ c ∈ u.uri.query, isQuoted allLegal c = false := by
  intro c hc
  rw [h.raw] at hc
  apply h.kept
  rw [h.split]
  cases query with
  | none => cases hc
  | some q => exact mem_append_right _ (mem_cons_of_mem _ hc)

theorem legal_of_kept {s : ByteString} (h : ∀ c ∈ s, isQuoted allLegal c = false) : Legal allLegal s := by
  have hlegal : Legal allLegal (quoteIllegal s allLegal) := legal_quoteIllegal (by decide) s
  rwa [quoteIllegal_of_kept h] at hlegal

theorem getD_newMark (newQuery : ByteString) : (newMark newQuery).getD [] = newQuery := getD_optional newQuery

theorem mem_newMark {q : ByteString} (h : q ∈ newMark newQuery) : q = newQuery := by
  rw [newMark, URIComponents.optional] at h
  split_ifs at h
  · cases h
  · exact (Option.mem_some.mp h).symm

theorem before_schemed {scheme : Option ByteString} (h : ∀ a ∈ scheme, ValidScheme a) :
    before (scheme.getD []) (ascii ":") = schemed scheme := by
  cases scheme with
  | none => rfl
  | some a => exact if_neg (h a rfl).ne_nil

theorem front_hierarchy (h : Reattached u front query) (hdelimited : ref.Delimited) (huri : u.uri = ref.type server) :
    front = slashed ref.authority ++ ref.path ∧ query = ref.query := by
  have hsplit : front ++ marked 63 query = slashed ref.authority ++ ref.path ++ marked 63 ref.query := by
    rw [← h.split, huri]
    rfl
  have hraw : ref.query.getD [] = query.getD [] := by
    rw [← h.raw, huri]
    rfl
  have hhier := hdelimited.not_mem_mark
  cases query with
  | none =>
    cases hquery : ref.query with
    | none =>
      rw [hquery, marked, append_nil, append_nil] at hsplit
      exact ⟨hsplit, rfl⟩
    | some q =>
      rw [hquery] at hraw hsplit
      have hnil : q = [] := hraw
      rw [hnil, marked, append_nil] at hsplit
      exact absurd (h.only _ [] hsplit) not_mem_nil
  | some q =>
    cases hquery : ref.query with
    | none =>
      rw [hquery, marked, marked, append_nil] at hsplit
      rw [← hsplit] at hhier
      exact absurd (mem_append_right front mem_cons_self) hhier
    | some q' =>
      rw [hquery] at hraw hsplit
      have hsame : q' = q := hraw
      rw [hsame] at hsplit ⊢
      exact ⟨append_cancel_right hsplit, rfl⟩

theorem legal_fragment (fragment : ByteString) :
    Legal allLegal ((optional fragment (quoteIllegal fragment allLegal)).getD []) := by
  rw [URIComponents.optional]
  split_ifs
  · exact .nil
  · exact legal_quoteIllegal (by decide) fragment

/-- What the URI that is created has of the other one. -/
structure Created (u : URI) (front newQuery : ByteString) (other : URI) : Prop where
  ssp : other.uri.schemeSpecificPart = front ++ marked 63 (newMark newQuery)
  parts : SameParts u other
  query : u.uri.isOpaque = false → other.uri.query = newQuery

theorem createURIWithQuery_hierarchy (h : Reattached u front query)
    (hdelimited : ref.Delimited) (hvalid : ref.Valid) (huri : u.uri = ref.type server)
    (hserver : parseAuthority forceServer (ref.authority.getD []) = .ok server)
    (hkept : ∀ c ∈ newQuery, isQuoted allLegal c = false) (hempty : newQuery = [] → u.uri.query = []) :
    ∃ other, createURIWithQuery u newQuery = .ok other ∧ Created u front newQuery other := by
  obtain ⟨hfront, hquery⟩ := front_hierarchy h hdelimited huri
  obtain ⟨fragment, hdecode⟩ := decodes_of_legal hvalid.fragment
  have hfragment : u.getFragment = .ok fragment := by
    rw [URI.getFragment, huri]
    exact hdecode
  let ref' : URIReference := { ref with
    query := newMark newQuery
    fragment := URIComponents.optional fragment (quoteIllegal fragment allLegal) }
  have hlegalQuery := legal_of_kept hkept
  have hdelimited' : ref'.Delimited := by
    refine ⟨hdelimited.scheme, hdelimited.schemeless, hdelimited.leading, hdelimited.rooted, hdelimited.authority,
      hdelimited.path, fun q hq => ?_⟩
    rw [mem_newMark hq]
    exact hlegalQuery.not_mem (by decide) (by decide) (by decide) (by decide)
  have hdecode' : decode (ref'.fragment.getD []) = .ok fragment := URIComponents.optional_quoted (by decide)
  have hvalid' : ref'.Valid := by
    refine ⟨hvalid.scheme, hvalid.authority, hvalid.path, ?_, ?_, ?_⟩
    · show Legal allLegal ((newMark newQuery).getD [])
      rw [getD_newMark]
      exact hlegalQuery
    · exact legal_fragment fragment
    · rintro ⟨hauthority, hpath, hnoQuery, hnoFragment⟩
      apply hvalid.present
      have hqueryNil : newQuery = [] := by
        rw [← getD_newMark newQuery]
        exact hnoQuery
      have hrawQuery : ref.query.getD [] = [] := by
        have huriQuery := hempty hqueryNil
        rw [huri] at huriQuery
        exact huriQuery
      have hfragmentNil : fragment = [] := by
        rw [hnoFragment] at hdecode'
        exact (Except.ok.inj hdecode').symm
      rw [hfragmentNil] at hdecode
      exact ⟨hauthority, hpath, hrawQuery, (decodes_of_decode hdecode).eq_nil⟩
  have htext : URI.before u.uri.scheme (ascii ":") ++ (front ++ marked 63 (newMark newQuery)) ++
      marked 35 (URIComponents.optional fragment (quoteIllegal fragment allLegal)) = ref'.text := by
    have hscheme : u.uri.scheme = ref.scheme.getD [] := by
      rw [huri]
      rfl
    rw [hscheme, before_schemed hvalid.scheme, hfront]
    rfl
  have hparse : URI.parseURI ref'.text false = .ok (ref'.type server) :=
    convert_eq_ok.mpr
      ((URIReference.parseURI_text hdelimited').mpr ⟨hvalid', server, URIComponents.server_forced hserver, rfl⟩)
  refine ⟨{ uri := ref'.type server }, ?_, ?_, ?_, fun _ => getD_newMark newQuery⟩
  · rw [createURIWithQuery_eq h hfragment hkept, htext, hparse]
    rfl
  · rw [hfront]
    rfl
  · have hfragment' : URI.getFragment { uri := ref'.type server } = u.getFragment := hdecode'.trans hfragment.symm
    constructor <;> first | exact hfragment' | rw [huri]; rfl

theorem createURIWithQuery_rootless {ref : RootlessReference} (h : Reattached u front query) (hdelimited : ref.Delimited)
    (hvalid : ref.Valid) (huri : u.uri = ref.type) (hkept : ∀ c ∈ newQuery, isQuoted allLegal c = false) :
    ∃ other, createURIWithQuery u newQuery = .ok other ∧ Created u front newQuery other := by
  have hkind : u.uri.isOpaque = true := by
    rw [huri]
    rfl
  have hcomposite : isCompositeURI u = true := h.readable.resolve_left fun hfalse => by
    rw [hkind] at hfalse
    cases hfalse
  obtain ⟨inside, path, hinside, -, -⟩ := composite_front h hcomposite
  obtain ⟨c, rest, hfront⟩ : ∃ c rest, front = c :: rest := by
    apply List.exists_cons_of_ne_nil
    rintro rfl
    cases hinside
  have hssp : ref.schemeSpecificPart = front ++ marked 63 query := by
    rw [← h.split, huri]
    rfl
  obtain ⟨fragment, hdecode⟩ := decodes_of_legal hvalid.fragment
  have hfragment : u.getFragment = .ok fragment := by
    rw [URI.getFragment, huri]
    exact hdecode
  let ref' : RootlessReference :=
    ⟨ref.scheme, front ++ marked 63 (newMark newQuery), URIComponents.optional fragment (quoteIllegal fragment allLegal)⟩
  have hlegal : Legal allLegal (front ++ marked 63 (newMark newQuery)) := by
    exact legal_of_kept (kept_marked h hkept)
  have hdelimited' : ref'.Delimited := by
    refine ⟨hdelimited.scheme, ?_, hlegal.not_mem (by decide) (by decide) (by decide) (by decide)⟩
    have hrootless := hdelimited.rootless
    rw [hssp, hfront] at hrootless
    show (front ++ marked 63 (newMark newQuery)).head? ≠ some 47
    rw [hfront]
    exact hrootless
  have hvalid' : ref'.Valid := by
    refine ⟨hvalid.scheme, ?_, hlegal, legal_fragment fragment⟩
    show front ++ marked 63 (newMark newQuery) ≠ []
    rw [hfront]
    exact List.cons_ne_nil _ _
  have htext : URI.before u.uri.scheme (ascii ":") ++ (front ++ marked 63 (newMark newQuery)) ++
      marked 35 (URIComponents.optional fragment (quoteIllegal fragment allLegal)) = ref'.text := by
    rw [huri]
    show URI.before ref.scheme (ascii ":") ++ _ ++ _ = _
    rw [URI.before, if_neg hvalid.scheme.ne_nil]
    rfl
  have hparse : URI.parseURI ref'.text false = .ok ref'.type :=
    convert_eq_ok.mpr ((RootlessReference.parseURI_text hdelimited').mpr ⟨hvalid', rfl⟩)
  refine ⟨{ uri := ref'.type }, ?_, rfl, ?_, fun hfalse => ?_⟩
  · rw [createURIWithQuery_eq h hfragment hkept, htext, hparse]
    rfl
  · have hfragment' : URI.getFragment { uri := ref'.type } = u.getFragment := by
      rw [hfragment]
      exact URIComponents.optional_quoted (by decide)
    constructor <;> first | exact hfragment' | rw [huri]; rfl
  · rw [hkind] at hfalse
    cases hfalse

theorem createURIWithQuery_ok (hparse : URIHelper.parseURI text forceServer = .ok u.uri) (h : Reattached u front query)
    (hkept : ∀ c ∈ newQuery, isQuoted allLegal c = false) (hempty : newQuery = [] → u.uri.query = []) :
    ∃ other, createURIWithQuery u newQuery = .ok other ∧ Created u front newQuery other := by
  obtain ⟨ref, server, hdelimited, hvalid, -, hserver, huri⟩ | ⟨ref, hdelimited, hvalid, -, huri⟩ := parseURI_ok hparse
  · exact createURIWithQuery_hierarchy h hdelimited hvalid huri hserver hkept hempty
  · exact createURIWithQuery_rootless h hdelimited hvalid huri hkept

end Created

/-! ### What is read of the result -/

section Result

variable {u other : URI} {front : ByteString} {query : Option ByteString} {newQuery : ByteString}
  {getenv : ByteString → Except Failure ByteString}
variable {result : CompositeData}

theorem plain_string {u : URI} (h : ∀ c ∈ u.uri.schemeSpecificPart, isQuoted allLegal c = false) :
    decode u.uri.schemeSpecificPart = .ok u.uri.schemeSpecificPart := by
  apply decode_eq_self.mpr
  intro hpercent
  exact absurd (h 37 hpercent) (by decide)

/-- The query counts the same parentheses when it has those of the other one. -/
theorem isCompositeURI_marked {query query' : Option ByteString} (hssp : u.uri.schemeSpecificPart = front ++ marked 63 query)
    (hother : other.uri.schemeSpecificPart = front ++ marked 63 query')
    (hcount : ∀ c, c = 40 ∨ c = 41 → (query'.getD []).count c = (query.getD []).count c) :
    isCompositeURI other = isCompositeURI u := by
  have hmarks : ∀ (o : Option ByteString) (c : UInt8), c = 40 ∨ c = 41 → (marked 63 o).count c = (o.getD []).count c := by
    intro o c hc
    cases o with
    | none => rfl
    | some q =>
      obtain rfl | rfl := hc
      · exact count_cons_of_ne (by decide)
      · exact count_cons_of_ne (by decide)
  have hcheck : checkParenthesis (front ++ marked 63 query') = checkParenthesis (front ++ marked 63 query) := by
    rw [checkParenthesis, checkParenthesis, count_append, count_append, count_append, count_append,
      hmarks query' 40 (.inl rfl), hmarks query' 41 (.inr rfl), hmarks query 40 (.inl rfl), hmarks query 41 (.inr rfl),
      hcount 40 (.inl rfl), hcount 41 (.inr rfl)]
  rw [Bool.eq_iff_iff, isCompositeURI_iff, isCompositeURI_iff, hssp, hother, hcheck, opening_marked, opening_marked]

theorem readQuery_eq (query : Option ByteString) :
    readQuery getenv query = (parseQuery getenv (query.getD [])).mapError .query := by
  cases query with
  | none =>
    rw [Option.getD_none, parseQuery_nil]
    rfl
  | some q => rfl

/-- The parameters of a URI that is no composite are those of its query. -/
theorem parseParametersOf_plain (hplain : isCompositeURI u = false) (hdecode : decode u.uri.query = .ok u.uri.query)
    (hmark : 63 ∉ u.uri.query) : parseParametersOf getenv u = (parseQuery getenv u.uri.query).mapError .query := by
  have hquery : u.getQuery = .ok u.uri.query := hdecode
  have hstrip : stripPrefix u.uri.query (ascii "?") = u.uri.query := by
    apply if_neg
    rintro ⟨rest, hrest⟩
    rw [← hrest] at hmark
    exact hmark mem_cons_self
  rw [parseParametersOf, hplain, hquery]
  show (if u.uri.query = [] then pure OrderedMap.empty
    else (parseQuery getenv (stripPrefix u.uri.query (ascii "?"))).mapError CompositeException.query) = _
  rw [hstrip]
  split_ifs with hnil
  · rw [hnil, parseQuery_nil]
    rfl
  · rfl

theorem kept_created (h : Reattached u front query) (hcreated : Created u front newQuery other)
    (hkept : ∀ c ∈ newQuery, isQuoted allLegal c = false) :
    ∀ c ∈ other.uri.schemeSpecificPart, isQuoted allLegal c = false := by
  rw [hcreated.ssp]
  exact kept_marked h hkept

/-- A composite is read up to its query. -/
theorem parseComposite_reattached (hkept : ∀ c ∈ u.uri.schemeSpecificPart, isQuoted allLegal c = false)
    (hssp : u.uri.schemeSpecificPart = front ++ marked 63 query) (hcomposite : isCompositeURI u = true)
    {inside path : ByteString} (hfront : stripPrefix front (ascii "//") = 40 :: (inside ++ 41 :: path))
    (hclosing : 41 ∉ path ++ marked 63 query) (hmark : 63 ∉ path) :
    parseComposite getenv u = .ok result ↔
      ∃ components parameters fragment, (splitComponents inside).mapM uriOf = .ok components ∧
        readQuery getenv query = .ok parameters ∧ decode u.uri.fragment = .ok fragment ∧
        result = { scheme := u.uri.scheme, components, path := stripPrefix path (ascii "/"), parameters, fragment } := by
  have hopening : (stripPrefix front (ascii "//")).head? = some 40 := by
    rw [hfront]
    rfl
  have hstrip : stripPrefix u.uri.schemeSpecificPart (ascii "//") = 40 :: (inside ++ 41 :: (path ++ marked 63 query)) := by
    rw [hssp, stripPrefix_marked hopening, hfront, cons_append, append_assoc]
    rfl
  have hcheck : checkParenthesis (40 :: (inside ++ 41 :: (path ++ marked 63 query))) = true := by
    rw [← hstrip, checkParenthesis_stripPrefix]
    exact (isCompositeURI_iff.mp hcomposite).2
  rw [parseComposite_iff getenv (plain_string hkept) hstrip hclosing hmark]
  exact and_iff_right hcheck

/-- **The composite that is created** has the components and the path of the other one, and the new parameters. -/
theorem parseComposite_created (h : Reattached u front query) (hcreated : Created u front newQuery other)
    (hkept : ∀ c ∈ newQuery, isQuoted allLegal c = false) (hclosing : 41 ∉ newQuery) (hcomposite : isCompositeURI u = true)
    (hother : isCompositeURI other = true) (hresult : parseComposite getenv u = .ok result) :
    parseQuery getenv (query.getD []) = .ok result.parameters ∧
      ∀ parameters, parseQuery getenv newQuery = .ok parameters → ∃ result', parseComposite getenv other = .ok result' ∧
        result'.texts = result.texts ∧ result'.path = result.path ∧ result'.parameters = parameters := by
  obtain ⟨inside, path, hinside, hpath, hmark⟩ := composite_front h hcomposite
  have hnone : ∀ {o : Option ByteString}, (∀ q ∈ o, 41 ∉ q) → 41 ∉ path ++ marked 63 o := fun ho =>
    not_mem_append hpath (not_mem_marked (by decide) ho)
  obtain ⟨components, parameters, fragment, hcomponents, hquery, hfragment, rfl⟩ :=
    (parseComposite_reattached h.kept h.split hcomposite hinside (hnone fun q hq => (h.plain q hq).2) hmark).mp hresult
  rw [readQuery_eq, except_mapError_ok] at hquery
  refine ⟨hquery, fun parameters' hparameters => ?_⟩
  have hnew : readQuery getenv (newMark newQuery) = .ok parameters' := by
    rw [readQuery_eq, getD_newMark, except_mapError_ok]
    exact hparameters
  have hfragment' : decode other.uri.fragment = .ok fragment := hcreated.parts.fragment.trans hfragment
  have hlast : 41 ∉ path ++ marked 63 (newMark newQuery) := by
    apply hnone
    intro q hq
    rw [mem_newMark hq]
    exact hclosing
  refine ⟨_, (parseComposite_reattached (kept_created h hcreated hkept) hcreated.ssp hother hinside hlast hmark).mpr
    ⟨components, parameters', fragment, hcomponents, hnew, hfragment', rfl⟩, rfl, rfl, rfl⟩

/-- The URI that is created is the one with the parameters applied. -/
theorem applied_of_created (getenv : ByteString → Except Failure ByteString) (h : Reattached u front query) {options : List (ByteString × ByteString)}
    (hoptions : ∀ entry ∈ options, Readable entry) (hcreated : Created u front (options.foldl appendOption u.uri.query) other) :
    SameComponents getenv u other ∧ ∀ parameters, parseParametersOf getenv u = .ok parameters →
      parseParametersOf getenv other = .ok (override parameters options) := by
  have hraw := h.raw
  have hkeptQuery := kept_query h
  have hplain : 63 ∉ u.uri.query ∧ 41 ∉ u.uri.query := by
    rw [hraw]
    cases query with
    | none => exact ⟨not_mem_nil, not_mem_nil⟩
    | some q => exact h.plain q rfl
  have hkept := kept_appended hoptions hkeptQuery
  have hmark := not_mem_appended hoptions (c := 63) (by decide) (by decide) hplain.1
  have hclosing := not_mem_appended hoptions (c := 41) (by decide) (by decide) hplain.2
  have hsame : isCompositeURI other = isCompositeURI u := by
    apply isCompositeURI_marked h.split hcreated.ssp
    intro c hc
    rw [getD_newMark, ← hraw]
    obtain rfl | rfl := hc
    · exact count_appended hoptions (by decide) (by decide) u.uri.query
    · exact count_appended hoptions (by decide) (by decide) u.uri.query
  have hreads : ∀ {parameters}, parseQuery getenv u.uri.query = .ok parameters →
      parseQuery getenv (options.foldl appendOption u.uri.query) = .ok (override parameters options) :=
    fun hparameters => parseQuery_appended hoptions hplain.1 hparameters
  refine ⟨⟨hsame, fun result hresult hcomposite => ?_⟩, fun parameters hparameters => ?_⟩
  · obtain ⟨hquery, hcreate⟩ := parseComposite_created h hcreated hkept hclosing hcomposite (hsame.trans hcomposite) hresult
    rw [← hraw] at hquery
    obtain ⟨result', hresult', htexts, hpath, -⟩ := hcreate _ (hreads hquery)
    exact ⟨result', hresult', htexts, hpath⟩
  · cases hcomposite : isCompositeURI u with
    | true =>
      rw [parseParametersOf, hcomposite] at hparameters
      obtain ⟨result, hresult, heq⟩ := except_bind_eq_ok.mp hparameters
      cases heq
      obtain ⟨hquery, hcreate⟩ := parseComposite_created h hcreated hkept hclosing hcomposite (hsame.trans hcomposite) hresult
      rw [← hraw] at hquery
      obtain ⟨result', hresult', -, -, hoverridden⟩ := hcreate _ (hreads hquery)
      rw [parseParametersOf, hsame, hcomposite]
      show (parseComposite getenv other >>= _) = _
      rw [hresult', ← hoverridden]
      rfl
    | false =>
      have hkind : u.uri.isOpaque = false := h.readable.resolve_right fun htrue => by
        rw [hcomposite] at htrue
        cases htrue
      have hdecode : ∀ {s : ByteString}, (∀ c ∈ s, isQuoted allLegal c = false) → decode s = .ok s := fun hs =>
        decode_eq_self.mpr fun hpercent => absurd (hs 37 hpercent) (by decide)
      have hnew := hcreated.query hkind
      rw [parseParametersOf_plain hcomposite (hdecode hkeptQuery) hplain.1, except_mapError_ok] at hparameters
      rw [parseParametersOf_plain (hsame.trans hcomposite) (by rw [hnew]; exact hdecode hkept) (by rw [hnew]; exact hmark),
        except_mapError_ok, hnew]
      exact hreads hparameters

end Result

theorem foldl_appendOption_eq_nil {options : List (ByteString × ByteString)} {query : ByteString}
    (h : options.foldl appendOption query = []) : query = [] := by
  induction options generalizing query with
  | nil => exact h
  | cons entry options ih =>
    have happended := ih h
    rw [appendOption] at happended
    have hequals : entry.1 ++ ascii "=" = [] := (append_eq_nil_iff.mp (append_eq_nil_iff.mp happended).2).1
    cases (append_eq_nil_iff.mp hequals).2

/-- **Where the parameters are applied.** The empty set gives the empty URI for any URI. Otherwise the query that is put back
has to be the one that was cut off. -/
theorem applyParameters_applied (getenv : ByteString → Except Failure ByteString) {text : ByteString} {forceServer : Bool}
    {u : URI} (hparse : URIHelper.parseURI text forceServer = .ok u.uri) :
    (∀ optionPrefix, applyParameters u OrderedMap.empty optionPrefix = .ok u ↔ u = {}) ∧
      ∀ (queryParameters : Properties) (optionPrefix : ByteString), queryParameters.entries ≠ [] →
        (∀ entry ∈ selected optionPrefix queryParameters.entries, Readable entry) →
        (∃ front query, Reattached u front query) → Applied getenv u queryParameters optionPrefix := by
  refine ⟨fun optionPrefix => ?_, fun queryParameters optionPrefix hne hoptions hreattached => ?_⟩
  · constructor
    · intro h
      exact (Except.ok.inj h).symm
    · intro h
      rw [h]
      rfl
  · obtain ⟨front, query, h⟩ := hreattached
    obtain ⟨other, hcreate, hcreated⟩ :=
      createURIWithQuery_ok hparse h (kept_appended hoptions (kept_query h)) foldl_appendOption_eq_nil
    obtain ⟨hcomponents, hparameters⟩ := applied_of_created getenv h hoptions hcreated
    refine ⟨other, ?_, hcreated.parts, hcomponents, hparameters⟩
    rw [applyParameters, if_pos hne, foldl_appendParameter]
    exact hcreate

/-- `tcp://a:1?x=y`. -/
def brokerURI : URI where
  uri :=
    { scheme := ascii "tcp"
      schemeSpecificPart := ascii "//a:1?x=y"
      authority := ascii "a:1"
      host := ascii "a"
      port := 1
      query := ascii "x=y"
      absolute := true
      serverAuthority := true }
  uriString := ascii "tcp://a:1?x=y"

/-- The empty set of parameters makes another URI of it. -/
theorem empty_set_lost : URI.ofString (ascii "tcp://a:1?x=y") = .ok brokerURI ∧
    applyParameters brokerURI OrderedMap.empty [] ≠ .ok brokerURI := by
  refine ⟨by decide +kernel, fun h => ?_⟩
  have hscheme : ([] : ByteString) = ascii "tcp" := congrArg (fun u : URI => u.uri.scheme) (Except.ok.inj h)
  cases hscheme

theorem brokerURI_applied : Applied (fun _ => .ok []) brokerURI (OrderedMap.empty.insert (ascii "k") (ascii "v")) [] := by
  have hparse : URIHelper.parseURI (ascii "tcp://a:1?x=y") false = .ok brokerURI.uri := by decide +kernel
  have hmark : 63 ∉ ascii "//a:1" := by decide
  refine (applyParameters_applied (fun _ => .ok []) hparse).2 _ [] (cons_ne_nil _ _) ?_ ⟨ascii "//a:1", some (ascii "x=y"),
    by decide +kernel, by decide +kernel, rfl, ?_, ?_, .inl rfl⟩
  · intro entry hentry
    obtain rfl := mem_singleton.mp (show entry ∈ [(ascii "k", ascii "v")] from hentry)
    exact ⟨⟨by decide, by decide +kernel⟩, by decide, by decide +kernel⟩
  · rintro _ ⟨⟩
    decide +kernel
  · intro a b hfront
    rw [hfront] at hmark
    exact absurd (mem_append_right a mem_cons_self) hmark

end URISupport

end ActiveMQCpp.Util
