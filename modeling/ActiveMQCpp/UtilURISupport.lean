import ActiveMQCpp.DecafProperties
import ActiveMQCpp.DecafStringTokenizer

/-! The query strings of `URISupport`: the parser, which takes the words between `&` and between `=`, and the writer,
which encodes with `URLEncoder`. -/

namespace ActiveMQCpp.Util

open Codec Decaf Words List Text.StringTokenizer

/-! ### `URLEncoder` -/

namespace URLEncoder

def isLetterOrDigit (c : UInt8) : Bool :=
  (97 ≤ c.toNat && c.toNat ≤ 122) || (65 ≤ c.toNat && c.toNat ≤ 90) || (48 ≤ c.toNat && c.toNat ≤ 57)

def digit (n : Nat) : UInt8 := (ascii "0123456789ABCDEF").getD n 0

def encodeChar (ch : UInt8) : ByteString :=
  if isLetterOrDigit ch || (ascii ".-*_").contains ch then [ch]
  else if ch = 32 then [43]
  else [37, digit (ch.toNat / 16), digit (ch.toNat % 16)]

def encode (src : ByteString) : ByteString := src.flatMap encodeChar

end URLEncoder

namespace URISupport

/-- `AMQ_CATCH_RETHROW(IllegalArgumentException) AMQ_CATCH_EXCEPTION_CONVERT(Exception, IllegalArgumentException)
AMQ_CATCHALL_THROW(IllegalArgumentException)`. -/
def catchIllegalArgument : Failure → Failure
  | .thrown type message =>
    if type.isException then .thrown .illegalArgumentException message
    else .thrown .illegalArgumentException "caught unknown exception"
  | .undefined => .undefined

/-- `throw new` throws a pointer, and `at` and `substr` what the C++ library has for it: neither is an `Exception`. -/
def thrownPointer : Failure := .thrown .stdException ""

/-- A value that starts with `$` is the name of an environment variable between braces. -/
def replaceEnvValues (getenv : ByteString → Except Failure ByteString) (value : ByteString) : Except Failure ByteString :=
  Except.mapError catchIllegalArgument <|
    match value with
    | [] => throw thrownPointer
    | first :: _ =>
      if first = 36 then
        if value.length > 3 ∧ value.getD 1 0 ≠ 123 ∧ value.getD (value.length - 1) 0 ≠ 125 then throw thrownPointer
        else if value.length < 2 then throw thrownPointer
        else do
          let var ← getenv ((value.drop 2).take (value.length - 3))
          if var = [] then throw thrownPointer else pure var
      else pure value

/-! ### The parser -/

def invalidOption : Failure := .thrown .illegalArgumentException "URISupport::parseQuery - Invalid URI Option."

def tokenOr (t : Text.StringTokenizer) : Except Failure (ByteString × Text.StringTokenizer) :=
  if t.hasMoreTokens then
    match t.nextToken with
    | .ok w t' => .ok (w, t')
    | .error e _ => .error e
  else .ok ([], t)

/-- One turn of the loop of `parseQuery`, with the tokenizer that all turns share. -/
def parseOption (getenv : ByteString → Except Failure ByteString) (tokenizer : Text.StringTokenizer) (option : ByteString) :
    Except Failure ((ByteString × ByteString) × Text.StringTokenizer) := do
  let tokenizer := tokenizer.reset option (ascii "=") false
  if tokenizer.countTokens ≠ 2 then throw invalidOption
  let (key, tokenizer) ← tokenOr tokenizer
  if tokenizer.hasMoreTokens then
    let (value, tokenizer) ← tokenOr tokenizer
    let value ← replaceEnvValues getenv value
    pure ((key, value), tokenizer)
  else pure ((key, []), tokenizer)

def parseOptions (getenv : ByteString → Except Failure ByteString) :
    Text.StringTokenizer → List ByteString → EStateM Failure Properties Unit
  | _, [] => pure ()
  | tokenizer, option :: options =>
    match parseOption getenv tokenizer option with
    | .ok (entry, tokenizer) => do
      modify fun properties => properties.insert entry.1 entry.2
      parseOptions getenv tokenizer options
    | .error e => throw e

/-- The initial `?`, and all that is before it, is stripped. -/
def stripQuery (query : ByteString) : ByteString :=
  match findFirstOf query (ascii "?") (some 0) with
  | some pos => query.drop (pos + 1)
  | none => query

def parseQueryInto (getenv : ByteString → Except Failure ByteString) (query : ByteString) :
    EStateM Failure Properties Unit :=
  mapError catchIllegalArgument <|
    match (Text.StringTokenizer.mk (stripQuery query) (ascii "&") (some 0) false).toArray with
    | .ok options tokenizer => parseOptions getenv tokenizer options
    | .error e _ => throw e

def parseQuery (getenv : ByteString → Except Failure ByteString) (query : ByteString) : Except Failure Properties :=
  match mapError catchIllegalArgument (parseQueryInto getenv query) OrderedMap.empty with
  | .ok () properties => .ok properties
  | .error e _ => .error e

/-! ### The writer -/

def joinOptions (entries : List (ByteString × ByteString)) : ByteString :=
  (ascii "&").intercalate (entries.map fun entry => URLEncoder.encode entry.1 ++ ascii "=" ++ URLEncoder.encode entry.2)

/-- The string is written for properties without entries. -/
def createQueryString (options : Properties) : ByteString :=
  if options.entries = [] then joinOptions options.entries else []

/-! ### What is parsed -/

def isAmpersand (c : UInt8) : Bool := (ascii "&").contains c

def isEquals (c : UInt8) : Bool := (ascii "=").contains c

variable (getenv : ByteString → Except Failure ByteString)
variable {c : UInt8} {text : ByteString}

/-- The entry that an option stands for: the two words around `=`. -/
def optionEntry (option : ByteString) : Except Failure (ByteString × ByteString) :=
  match words isEquals option with
  | [key, value] => (replaceEnvValues getenv value).map (key, ·)
  | _ => .error invalidOption

def setOption (option : ByteString) : EStateM Failure Properties Unit :=
  match optionEntry getenv option with
  | .ok entry => modify fun properties => properties.insert entry.1 entry.2
  | .error e => throw e

theorem tokenOr_eq {t : Text.StringTokenizer} (h : t.returnDelims = false) {w : ByteString} {ws : List ByteString}
    (htokens : t.tokens = w :: ws) :
    ∃ t', t.hasMoreTokens = true ∧ tokenOr t = .ok (w, t') ∧ t'.returnDelims = false ∧ t'.tokens = ws := by
  rcases nextToken_cases h with ⟨-, hnil, -⟩ | ⟨w', t', hmore, hnext, hplain, hcons⟩
  · rw [hnil] at htokens
    cases htokens
  · obtain ⟨rfl, rfl⟩ := List.cons.inj (hcons.symm.trans htokens)
    refine ⟨t', hmore, ?_, hplain, rfl⟩
    rw [tokenOr, hmore, if_pos rfl, hnext]

/-- An option is read from a tokenizer with any past. -/
theorem parseOption_eq (tokenizer : Text.StringTokenizer) {option : ByteString} (h : option ≠ []) :
    (parseOption getenv tokenizer option).map Prod.fst = optionEntry getenv option := by
  have hplain : (tokenizer.reset option (ascii "=") false).returnDelims = false := rfl
  have htokens : (tokenizer.reset option (ascii "=") false).tokens = words isEquals option := by
    rw [reset, if_neg h, if_neg (by decide)]
    rfl
  rw [parseOption, optionEntry]
  simp only [countTokens_eq hplain]
  generalize tokenizer.reset option (ascii "=") false = t at hplain htokens
  rw [htokens]
  match hwords : words isEquals option with
  | [] => rfl
  | [w] => rfl
  | _ :: _ :: _ :: ws =>
    rw [if_pos (by simp)]
    rfl
  | [key, value] =>
    obtain ⟨t', -, hkey, hplain', htokens'⟩ := tokenOr_eq hplain (htokens.trans hwords)
    obtain ⟨t'', hmore, hvalue, -, -⟩ := tokenOr_eq hplain' htokens'
    rw [if_neg (by simp), hkey]
    show Except.map Prod.fst (if t'.hasMoreTokens = true then tokenOr t' >>= _ else _) = _
    rw [hmore, if_pos rfl, hvalue]
    show Except.map Prod.fst (replaceEnvValues getenv value >>= fun v => pure ((key, v), t''))
      = (replaceEnvValues getenv value).map (key, ·)
    cases replaceEnvValues getenv value <;> rfl

theorem parseOptions_eq {options : List ByteString} (h : ∀ option ∈ options, option ≠ []) (tokenizer : Text.StringTokenizer) :
    parseOptions getenv tokenizer options = options.forM (setOption getenv) := by
  induction options generalizing tokenizer with
  | nil => rfl
  | cons option options ih =>
    have hentry := parseOption_eq getenv tokenizer (h option mem_cons_self)
    show parseOptions getenv tokenizer (option :: options)
      = (setOption getenv option >>= fun _ => options.forM (setOption getenv))
    rw [parseOptions, setOption, ← hentry]
    cases parseOption getenv tokenizer option with
    | error e => rfl
    | ok result =>
      dsimp only [Except.map]
      rw [ih fun option' hoption' => h option' (mem_cons_of_mem _ hoption')]

theorem forM_setOption (options : List ByteString) (properties : Properties) :
    (∃ entries, options.mapM (optionEntry getenv) = .ok entries ∧ options.forM (setOption getenv) properties =
      .ok () (entries.foldl (fun properties entry => properties.insert entry.1 entry.2) properties)) ∨
    ∃ e e' properties', options.mapM (optionEntry getenv) = .error e ∧
      options.forM (setOption getenv) properties = .error e' properties' := by
  induction options generalizing properties with
  | nil => exact .inl ⟨[], rfl, rfl⟩
  | cons option options ih =>
    have hloop : (option :: options).forM (setOption getenv) =
        (setOption getenv option >>= fun _ => options.forM (setOption getenv)) := rfl
    rw [mapM_cons, hloop]
    cases hentry : optionEntry getenv option with
    | error e =>
      have hset : setOption getenv option properties = .error e properties := by
        rw [setOption, hentry]
        rfl
      exact .inr ⟨e, e, properties, rfl, bind_error hset⟩
    | ok entry =>
      have hset : setOption getenv option properties = .ok () (properties.insert entry.1 entry.2) := by
        rw [setOption, hentry]
        rfl
      rw [bind_ok hset]
      rcases ih (properties.insert entry.1 entry.2) with ⟨entries, hentries, hrest⟩ | ⟨e, e', rest, herror, hrest⟩
      · refine .inl ⟨entry :: entries, ?_, hrest⟩
        rw [hentries]
        rfl
      · refine .inr ⟨e, e', rest, ?_, hrest⟩
        rw [herror]
        rfl

theorem parseQueryInto_eq (query : ByteString) : parseQueryInto getenv query =
    mapError catchIllegalArgument ((words isAmpersand (stripQuery query)).forM (setOption getenv)) := by
  have hplain : (mk (stripQuery query) (ascii "&") (some 0) false).returnDelims = false := rfl
  obtain ⟨t', ht'⟩ := toArray_eq hplain
  rw [tokens_mk] at ht'
  rw [parseQueryInto, ht']
  dsimp only
  rw [parseOptions_eq getenv fun option hoption => (mem_words hoption).1]
  rfl

/-! ### The round trip -/

/-- The condition of the writer is the wrong way round: it writes nothing, for any properties. -/
theorem createQueryString_eq_nil (options : Properties) : createQueryString options = [] := by
  rw [createQueryString]
  split_ifs with hnil
  · rw [hnil]
    rfl
  · rfl

theorem parseQuery_nil : parseQuery getenv [] = .ok OrderedMap.empty := by
  rw [parseQuery, parseQueryInto_eq]
  rfl

/-- Only properties without entries come back from their query string. -/
theorem queryString_roundTrip_iff (options : Properties) :
    parseQuery getenv (createQueryString options) = .ok options ↔ options = OrderedMap.empty := by
  rw [createQueryString_eq_nil, parseQuery_nil]
  constructor
  · intro h
    injection h with h
    exact h.symm
  · rintro rfl
    rfl

theorem queryString_lost :
    parseQuery (fun _ => .ok []) (createQueryString (OrderedMap.empty.insert [97] [98])) ≠
      .ok (OrderedMap.empty.insert [97] [98]) := by
  rw [createQueryString_eq_nil, parseQuery_nil]
  intro h
  injection h with h
  exact absurd h (by decide)

/-! ### What the parser strips -/

theorem isAmpersand_iff : isAmpersand c = true ↔ c = 38 := by
  rw [isAmpersand, contains_iff_mem]
  exact mem_singleton

theorem isEquals_iff : isEquals c = true ↔ c = 61 := by
  rw [isEquals, contains_iff_mem]
  exact mem_singleton

theorem contains_question : (fun c => !(ascii "?").contains c) = fun c : UInt8 => decide (c ≠ 63) := by
  funext c
  rw [Bool.eq_iff_iff, Bool.not_eq_true', decide_eq_true_eq, ← Bool.not_eq_true, contains_iff_mem]
  exact not_congr mem_singleton

theorem findFirstOf_question (text : ByteString) :
    findFirstOf text (ascii "?") (some 0) = none ∧ text.dropWhile (fun c => decide (c ≠ 63)) = [] ∨
    ∃ k, findFirstOf text (ascii "?") (some 0) = some k ∧ text.take k = text.takeWhile (fun c => decide (c ≠ 63)) ∧
      text.dropWhile (fun c => decide (c ≠ 63)) = 63 :: text.drop (k + 1) := by
  rcases find_cases (fun c => (ascii "?").contains c) 0 (rfl : findFirstOf text (ascii "?") (some 0) = _) with
    ⟨hnone, hnil⟩ | ⟨k, hk, -, hlt, hdrop, hlength⟩
  · rw [contains_question, drop_zero] at hnil
    exact .inl ⟨hnone, hnil⟩
  · rw [contains_question, drop_zero] at hdrop hlength
    refine .inr ⟨k, hk, ?_, ?_⟩
    · have hall := takeWhile_append_dropWhile (p := fun c => decide (c ≠ 63)) (l := text)
      conv_lhs => rw [← hall]
      rw [hlength, Nat.zero_add, take_left]
    · have hcons := drop_eq_getElem_cons hlt
      have hne : text.dropWhile (fun c => decide (c ≠ 63)) ≠ [] := by
        rw [← hdrop, hcons]
        exact cons_ne_nil _ _
      have hhead := head_dropWhile_not (fun c => decide (c ≠ 63)) hne
      simp only [← hdrop, hcons, head_cons, decide_eq_false_iff_not, not_not] at hhead
      rw [← hdrop, hcons, hhead]

theorem stripQuery_eq (query : ByteString) : stripQuery query = match query.dropWhile (fun c => decide (c ≠ 63)) with
      | [] => query
      | _ :: rest => rest := by
  rw [stripQuery]
  rcases findFirstOf_question query with ⟨hnone, hnil⟩ | ⟨k, hk, -, hdrop⟩
  · rw [hnone, hnil]
  · rw [hk, hdrop]

theorem dropWhile_question (h : 63 ∉ text) : text.dropWhile (fun c => decide (c ≠ 63)) = [] := by
  rw [dropWhile_eq_nil_iff]
  intro c hc
  refine decide_eq_true ?_
  rintro rfl
  exact h hc

theorem stripQuery_of_not_mem {query : ByteString} (h : 63 ∉ query) : stripQuery query = query := by
  rw [stripQuery_eq, dropWhile_question h]

end URISupport

end ActiveMQCpp.Util
