import ActiveMQCpp.UtilURISupport

/-! `parseURL` beside `parseQuery`: which texts are refused, and what a call that throws leaves in the properties. -/

namespace ActiveMQCpp.Util

open Codec Decaf Words List Text.StringTokenizer

/-- `System::getenv` over `apr_env_get`, which gives a value or another status than success. -/
def System.getenv (aprEnvGet : ByteString → Option ByteString) (name : ByteString) : Except Failure ByteString :=
  match aprEnvGet name with
  | some value => .ok value
  | none => .error (.thrown .nullPointerException "System::getenv - ")

/-- `apr_pvsprintf` without arguments. A `%` that is no `%%` asks for an argument that is not there. -/
def printed : ByteString → Option ByteString
  | [] => some []
  | 37 :: 37 :: format => (printed format).map (37 :: ·)
  | 37 :: _ => none
  | c :: format => (printed format).map (c :: ·)

/-- `IllegalArgumentException(__FILE__, __LINE__, (start + text).c_str())`: the text is a part of the format. -/
def illegalArgument (start : String) (text : ByteString) : Failure :=
  match printed (text.takeWhile fun c => decide (c ≠ 0)) with
  | some message => .thrown .illegalArgumentException (start ++ String.ofList (message.map fun c => Char.ofNat c.toNat))
  | none => .undefined

namespace URISupport

/-! ### `parseURL` -/

def malformedURI (uri : ByteString) : Failure := illegalArgument "URISupport::parseURL - Marlformed URI: " uri

def malformedParameter (token : ByteString) : Failure :=
  illegalArgument "URISupport::parseURL - Marlformed Parameter = " token

def nextToken (t : Text.StringTokenizer) : Except Failure (ByteString × Text.StringTokenizer) :=
  match t.nextToken with
  | .ok w t' => .ok (w, t')
  | .error e _ => .error e

def parseParameter (getenv : ByteString → Except Failure ByteString) (tokenizer : Text.StringTokenizer)
    (token : ByteString) : Except Failure ((ByteString × ByteString) × Text.StringTokenizer) := do
  let tokenizer := tokenizer.reset token (ascii "=") false
  if tokenizer.countTokens ≠ 2 then throw (malformedParameter token)
  let (key, tokenizer) ← nextToken tokenizer
  let (value, tokenizer) ← nextToken tokenizer
  let value ← replaceEnvValues getenv value
  pure ((key, value), tokenizer)

def parseParameters (getenv : ByteString → Except Failure ByteString) :
    Text.StringTokenizer → List ByteString → EStateM Failure Properties Unit
  | _, [] => pure ()
  | tokenizer, token :: tokens =>
    match parseParameter getenv tokenizer token with
    | .ok (entry, tokenizer) => do
      modify fun properties => properties.insert entry.1 entry.2
      parseParameters getenv tokenizer tokens
    | .error e => throw e

/-- The location and the parameters; `substr(3)` of a shorter token throws. -/
def parseLocation (getenv : ByteString → Except Failure ByteString) (tokenizer : Text.StringTokenizer) :
    EStateM Failure Properties Unit := do
  match nextToken { tokenizer with delim := ascii "&?" } with
  | .ok (location, tokenizer) =>
    if location.length < 3 then throw thrownPointer
    modify fun properties => properties.insert (ascii "transport.uri") (location.drop 3)
    match tokenizer.toArray with
    | .ok tokens tokenizer => parseParameters getenv tokenizer tokens
    | .error e _ => throw e
  | .error e => throw e

def parseURL (getenv : ByteString → Except Failure ByteString) (uri : ByteString) : EStateM Failure Properties Unit :=
  mapError catchIllegalArgument <|
    if (Text.StringTokenizer.mk uri (ascii ":/") (some 0) false).countTokens < 3 then throw (malformedURI uri)
    else
      match nextToken (Text.StringTokenizer.mk uri (ascii ":/") (some 0) false) with
      | .ok (protocol, tokenizer) => do
        modify fun properties => properties.insert (ascii "transport.protocol") protocol
        parseLocation getenv tokenizer
      | .error e => throw e

/-! ### What is malformed -/

/-- The name that is looked up for a reference: what stands between its second character and its last one. -/
def referenceName (value : ByteString) : ByteString := (value.drop 2).take (value.length - 3)

variable (aprEnvGet : ByteString → Option ByteString)
variable {t : Text.StringTokenizer}

/-- A reference is a value that starts with `$`. A bad one is `$` alone, is longer than three characters and has neither
brace, or is to a variable without a value. -/
def BadReference (value : ByteString) : Prop :=
  value.head? = some 36 ∧
    (value = [36] ∨ (value.length > 3 ∧ value.getD 1 0 ≠ 123 ∧ value.getD (value.length - 1) 0 ≠ 125) ∨
      (aprEnvGet (referenceName value)).getD [] = [])

/-- A parameter that is no key and value around `=`, or has a bad reference. -/
def Malformed (parameter : ByteString) : Prop :=
  (words isEquals parameter).length ≠ 2 ∨
    ∃ key value, words isEquals parameter = [key, value] ∧ BadReference aprEnvGet value

/-! ### The entries that are stored -/

def overridden (properties : Properties) (entries : List (ByteString × ByteString)) : Properties :=
  entries.foldl (fun properties entry => properties.insert entry.1 entry.2) properties

section Loop

variable (entry : ByteString → Except Failure (ByteString × ByteString))

/-- The entries of the parameters before the first one without an entry. -/
def entriesBefore : List ByteString → List (ByteString × ByteString)
  | [] => []
  | parameter :: parameters =>
    match entry parameter with
    | .ok e => e :: entriesBefore parameters
    | .error _ => []

def setEntry (parameter : ByteString) : EStateM Failure Properties Unit :=
  match entry parameter with
  | .ok e => modify fun properties => properties.insert e.1 e.2
  | .error e => throw e

theorem forM_setEntry (parameters : List ByteString) (properties : Properties) :
    ((∀ parameter ∈ parameters, ∃ e, entry parameter = .ok e) ∧
      parameters.forM (setEntry entry) properties = .ok () (overridden properties (entriesBefore entry parameters))) ∨
    ∃ parameter ∈ parameters, ∃ e, entry parameter = .error e ∧
      parameters.forM (setEntry entry) properties = .error e (overridden properties (entriesBefore entry parameters)) := by
  induction parameters generalizing properties with
  | nil => exact .inl ⟨fun _ h => absurd h not_mem_nil, rfl⟩
  | cons parameter parameters ih =>
    have hloop : (parameter :: parameters).forM (setEntry entry) =
        (setEntry entry parameter >>= fun _ => parameters.forM (setEntry entry)) := rfl
    rw [hloop, entriesBefore]
    cases hentry : entry parameter with
    | error e =>
      have hset : setEntry entry parameter properties = .error e properties := by
        rw [setEntry, hentry]
        rfl
      exact .inr ⟨parameter, mem_cons_self, e, hentry, bind_error hset⟩
    | ok e =>
      have hset : setEntry entry parameter properties = .ok () (properties.insert e.1 e.2) := by
        rw [setEntry, hentry]
        rfl
      rw [bind_ok hset]
      rcases ih (properties.insert e.1 e.2) with ⟨hall, hrest⟩ | ⟨bad, hmem, e', hbad, hrest⟩
      · refine .inl ⟨?_, hrest⟩
        intro other hother
        rcases mem_cons.mp hother with rfl | hother
        · exact ⟨e, hentry⟩
        · exact hall other hother
      · exact .inr ⟨bad, mem_cons_of_mem _ hmem, e', hbad, hrest⟩

end Loop

/-- `IllegalArgumentException`. -/
def IsIllegalArgument (e : Failure) : Prop := ∃ message, e = .thrown .illegalArgumentException message

theorem isIllegalArgument_catch {type : ExceptionType} {message : String} :
    IsIllegalArgument (catchIllegalArgument (.thrown type message)) := by
  rw [catchIllegalArgument]
  split_ifs
  · exact ⟨message, rfl⟩
  · exact ⟨_, rfl⟩

/-- A reference gives the value of its variable, or it is a bad one. -/
theorem replaceEnvValues_cases {value : ByteString} (hne : value ≠ []) :
    (BadReference aprEnvGet value ∧ ∃ e, replaceEnvValues (System.getenv aprEnvGet) value = .error e ∧ IsIllegalArgument e) ∨
    ¬ BadReference aprEnvGet value ∧ ∃ result, replaceEnvValues (System.getenv aprEnvGet) value = .ok result := by
  obtain ⟨first, rest, rfl⟩ := exists_cons_of_ne_nil hne
  by_cases hfirst : first = 36
  · subst hfirst
    have hlookup : replaceEnvValues (System.getenv aprEnvGet) (36 :: rest) = Except.mapError catchIllegalArgument
        (if (36 :: rest).length > 3 ∧ (36 :: rest).getD 1 0 ≠ 123 ∧ (36 :: rest).getD ((36 :: rest).length - 1) 0 ≠ 125 then
          throw thrownPointer
        else if (36 :: rest).length < 2 then throw thrownPointer
        else do
          let var ← System.getenv aprEnvGet (referenceName (36 :: rest))
          if var = [] then throw thrownPointer else pure var) := rfl
    rw [hlookup]
    by_cases hunbraced : (36 :: rest).length > 3 ∧ (36 :: rest).getD 1 0 ≠ 123 ∧
        (36 :: rest).getD ((36 :: rest).length - 1) 0 ≠ 125
    · rw [if_pos hunbraced]
      exact .inl ⟨⟨rfl, .inr (.inl hunbraced)⟩, _, rfl, isIllegalArgument_catch⟩
    rw [if_neg hunbraced]
    cases hrest : rest with
    | nil => exact .inl ⟨⟨rfl, .inl rfl⟩, _, rfl, isIllegalArgument_catch⟩
    | cons second rest' =>
      rw [hrest] at hunbraced
      rw [if_neg (by simp), System.getenv]
      cases hvariable : aprEnvGet (referenceName (36 :: second :: rest')) with
      | none =>
        refine .inl ⟨⟨rfl, .inr (.inr ?_)⟩, _, rfl, isIllegalArgument_catch⟩
        rw [hvariable]
        rfl
      | some var =>
        cases var with
        | nil =>
          refine .inl ⟨⟨rfl, .inr (.inr ?_)⟩, _, rfl, isIllegalArgument_catch⟩
          rw [hvariable]
          rfl
        | cons c var =>
          refine .inr ⟨?_, _, rfl⟩
          rintro ⟨-, halone | hbraces | hunset⟩
          · cases halone
          · exact hunbraced hbraces
          · rw [hvariable] at hunset
            cases hunset
  · have hplain : replaceEnvValues (System.getenv aprEnvGet) (first :: rest) = Except.mapError catchIllegalArgument
        (if first = 36 then _ else pure (first :: rest)) := rfl
    rw [hplain, if_neg hfirst]
    refine .inr ⟨fun hbad => hfirst (Option.some.inj hbad.1), _, rfl⟩

/-- The entry of a parameter, or the failure for one without two parts. -/
def entryOr (getenv : ByteString → Except Failure ByteString) (malformed : ByteString → Failure)
    (parameter : ByteString) : Except Failure (ByteString × ByteString) :=
  match words isEquals parameter with
  | [key, value] => (replaceEnvValues getenv value).map (key, ·)
  | _ => .error (malformed parameter)

theorem optionEntry_eq (getenv : ByteString → Except Failure ByteString) :
    optionEntry getenv = entryOr getenv fun _ => invalidOption := rfl

theorem entryOr_cases (malformed : ByteString → Failure) (parameter : ByteString) :
    (Malformed aprEnvGet parameter ∧ ∃ e, entryOr (System.getenv aprEnvGet) malformed parameter = .error e ∧
      (IsIllegalArgument e ∨ e = malformed parameter)) ∨
    ¬ Malformed aprEnvGet parameter ∧ ∃ entry, entryOr (System.getenv aprEnvGet) malformed parameter = .ok entry := by
  rw [entryOr, Malformed]
  match hwords : words isEquals parameter with
  | [] => exact .inl ⟨.inl (by simp), _, rfl, .inr rfl⟩
  | [_] => exact .inl ⟨.inl (by simp), _, rfl, .inr rfl⟩
  | _ :: _ :: _ :: _ => exact .inl ⟨.inl (by simp), _, rfl, .inr rfl⟩
  | [key, value] =>
    have hne : value ≠ [] := (mem_words (hwords ▸ mem_cons_of_mem key mem_cons_self)).1
    dsimp only
    rcases replaceEnvValues_cases aprEnvGet hne with ⟨hbad, e, he, hillegal⟩ | ⟨hgood, result, hresult⟩
    · rw [he]
      exact .inl ⟨.inr ⟨key, value, rfl, hbad⟩, e, rfl, .inl hillegal⟩
    · rw [hresult]
      refine .inr ⟨?_, (key, result), rfl⟩
      rintro (hlength | ⟨key', value', heq, hbad⟩)
      · exact hlength rfl
      · cases heq
        exact hgood hbad

theorem entriesBefore_entryOr (getenv : ByteString → Except Failure ByteString)
    (malformed malformed' : ByteString → Failure) (parameters : List ByteString) :
    entriesBefore (entryOr getenv malformed) parameters = entriesBefore (entryOr getenv malformed') parameters := by
  induction parameters with
  | nil => rfl
  | cons parameter parameters ih =>
    rw [entriesBefore, entriesBefore, ih, entryOr, entryOr]
    match words isEquals parameter with
    | [] => rfl
    | [_] => rfl
    | [_, _] => rfl
    | _ :: _ :: _ :: _ => rfl

/-- A loop over parameters stores the entries before the first malformed one, and throws for that one. -/
theorem forM_entryOr_cases (malformed : ByteString → Failure) (parameters : List ByteString) (properties : Properties) :
    ((∀ parameter ∈ parameters, ¬ Malformed aprEnvGet parameter) ∧
      parameters.forM (setEntry (entryOr (System.getenv aprEnvGet) malformed)) properties =
        .ok () (overridden properties (entriesBefore (optionEntry (System.getenv aprEnvGet)) parameters))) ∨
    ∃ parameter ∈ parameters, Malformed aprEnvGet parameter ∧ ∃ e,
      parameters.forM (setEntry (entryOr (System.getenv aprEnvGet) malformed)) properties =
        .error e (overridden properties (entriesBefore (optionEntry (System.getenv aprEnvGet)) parameters)) ∧
      (IsIllegalArgument e ∨ e = malformed parameter) := by
  rw [optionEntry_eq, entriesBefore_entryOr _ _ malformed]
  rcases forM_setEntry (entryOr (System.getenv aprEnvGet) malformed) parameters properties with
    ⟨hall, hrun⟩ | ⟨parameter, hmem, e, herror, hrun⟩
  · refine .inl ⟨fun parameter hmem hmalformed => ?_, hrun⟩
    obtain ⟨entry, hentry⟩ := hall parameter hmem
    rcases entryOr_cases aprEnvGet malformed parameter with ⟨-, e, he, -⟩ | ⟨hgood, -⟩
    · rw [hentry] at he
      cases he
    · exact hgood hmalformed
  · rcases entryOr_cases aprEnvGet malformed parameter with ⟨hbad, e', he', hkind⟩ | ⟨-, entry, hentry⟩
    · rw [herror] at he'
      cases he'
      exact .inr ⟨parameter, hmem, hbad, e, hrun, hkind⟩
    · rw [herror] at hentry
      cases hentry

def queryParameters (query : ByteString) : List ByteString := words isAmpersand (stripQuery query)

theorem parseQueryInto_cases (query : ByteString) (properties : Properties) :
    ((∀ parameter ∈ queryParameters query, ¬ Malformed aprEnvGet parameter) ∧
      parseQueryInto (System.getenv aprEnvGet) query properties = .ok ()
        (overridden properties (entriesBefore (optionEntry (System.getenv aprEnvGet)) (queryParameters query)))) ∨
    (∃ parameter ∈ queryParameters query, Malformed aprEnvGet parameter) ∧ ∃ e,
      parseQueryInto (System.getenv aprEnvGet) query properties = .error e
        (overridden properties (entriesBefore (optionEntry (System.getenv aprEnvGet)) (queryParameters query))) ∧
      IsIllegalArgument e := by
  rw [parseQueryInto_eq]
  have hset : setOption (System.getenv aprEnvGet) =
      setEntry (entryOr (System.getenv aprEnvGet) fun _ => invalidOption) := rfl
  rw [hset]
  rcases forM_entryOr_cases aprEnvGet (fun _ => invalidOption) (queryParameters query) properties with
    ⟨hall, hrun⟩ | ⟨parameter, hmem, hbad, e, hrun, hkind⟩
  · exact .inl ⟨hall, mapError_eq_ok.mpr hrun⟩
  · refine .inr ⟨⟨parameter, hmem, hbad⟩, _, mapError_error hrun, ?_⟩
    obtain ⟨message, rfl⟩ : IsIllegalArgument e := hkind.elim id fun h => ⟨_, h⟩
    exact isIllegalArgument_catch

theorem nextToken_eq (h : t.returnDelims = false) {w : ByteString} {ws : List ByteString}
    (htokens : t.tokens = w :: ws) :
    ∃ t', t.nextToken = .ok w t' ∧ nextToken t = .ok (w, t') ∧ t'.returnDelims = false ∧ t'.tokens = ws := by
  rcases nextToken_cases h with ⟨-, hnil, -⟩ | ⟨w', t', -, hnext, hplain, hcons⟩
  · rw [hnil] at htokens
    cases htokens
  · obtain ⟨rfl, rfl⟩ := List.cons.inj (hcons.symm.trans htokens)
    refine ⟨t', hnext, ?_, hplain, rfl⟩
    rw [nextToken, hnext]

/-- A parameter is read from a tokenizer with any past. -/
theorem parseParameter_eq (getenv : ByteString → Except Failure ByteString) (tokenizer : Text.StringTokenizer)
    {token : ByteString} (h : token ≠ []) :
    (parseParameter getenv tokenizer token).map Prod.fst = entryOr getenv malformedParameter token := by
  have hplain : (tokenizer.reset token (ascii "=") false).returnDelims = false := rfl
  have htokens : (tokenizer.reset token (ascii "=") false).tokens = words isEquals token := by
    rw [reset, if_neg h, if_neg (by decide)]
    rfl
  rw [parseParameter, entryOr]
  simp only [countTokens_eq hplain]
  generalize tokenizer.reset token (ascii "=") false = t at hplain htokens
  rw [htokens]
  rcases hwords : words isEquals token with - | ⟨key, - | ⟨value, - | -⟩⟩
  · rfl
  · rfl
  · obtain ⟨t', -, hkey, hplain', htokens'⟩ := nextToken_eq hplain (htokens.trans hwords)
    obtain ⟨t'', -, hvalue, -, -⟩ := nextToken_eq hplain' htokens'
    rw [if_neg (by simp), hkey]
    show Except.map Prod.fst (nextToken t' >>= _) = _
    rw [hvalue]
    show Except.map Prod.fst (replaceEnvValues getenv value >>= fun v => pure ((key, v), t''))
      = (replaceEnvValues getenv value).map (key, ·)
    cases replaceEnvValues getenv value <;> rfl
  · rw [if_pos (by simp)]
    rfl

theorem parseParameters_eq (getenv : ByteString → Except Failure ByteString) {tokens : List ByteString}
    (h : ∀ token ∈ tokens, token ≠ []) (tokenizer : Text.StringTokenizer) :
    parseParameters getenv tokenizer tokens = tokens.forM (setEntry (entryOr getenv malformedParameter)) := by
  induction tokens generalizing tokenizer with
  | nil => rfl
  | cons token tokens ih =>
    have hentry := parseParameter_eq getenv tokenizer (h token mem_cons_self)
    show parseParameters getenv tokenizer (token :: tokens)
      = (setEntry (entryOr getenv malformedParameter) token >>= fun _ =>
          tokens.forM (setEntry (entryOr getenv malformedParameter)))
    rw [parseParameters, setEntry, ← hentry]
    cases parseParameter getenv tokenizer token with
    | error e => rfl
    | ok result =>
      dsimp only [Except.map]
      rw [ih fun token' htoken' => h token' (mem_cons_of_mem _ htoken')]

/-! ### The parts of a URL -/

def isColonOrSlash (c : UInt8) : Bool := (ascii ":/").contains c

def isAmpersandOrQuestion (c : UInt8) : Bool := (ascii "&?").contains c

def behindProtocol (uri : ByteString) : ByteString :=
  (uri.dropWhile isColonOrSlash).dropWhile fun c => !isColonOrSlash c

def locationAndParameters (uri : ByteString) : List ByteString := words isAmpersandOrQuestion (behindProtocol uri)

/-- Fewer than three tokens, a location without the characters of `://`, or a malformed parameter. -/
def MalformedURL (uri : ByteString) : Prop :=
  (words isColonOrSlash uri).length < 3 ∨ (∃ location ∈ (locationAndParameters uri).head?, location.length < 3) ∨
    ∃ parameter ∈ (locationAndParameters uri).tail, Malformed aprEnvGet parameter

/-- The entries that are stored before the first malformed part. -/
def urlEntriesBefore (uri : ByteString) : List (ByteString × ByteString) :=
  if (words isColonOrSlash uri).length < 3 then []
  else
    ((words isColonOrSlash uri).take 1).map (ascii "transport.protocol", ·) ++
      match locationAndParameters uri with
      | [] => []
      | location :: parameters =>
        if location.length < 3 then []
        else (ascii "transport.uri", location.drop 3) :: entriesBefore (optionEntry (System.getenv aprEnvGet)) parameters

theorem isIllegalArgument_of_plain (start : String) {text : ByteString} (h : 37 ∉ text) :
    IsIllegalArgument (illegalArgument start text) := by
  have hprinted : ∀ format : ByteString, 37 ∉ format → printed format = some format := by
    intro format hformat
    induction format with
    | nil => rfl
    | cons c format ih =>
      have hc : c ≠ 37 := fun hc => hformat (hc ▸ mem_cons_self)
      have hrest := ih fun hmem => hformat (mem_cons_of_mem _ hmem)
      unfold printed
      split
      · next heq => cases heq
      · next heq => exact absurd (List.cons.inj heq).1 hc
      · next heq => exact absurd (List.cons.inj heq).1 hc
      · next heq =>
          cases heq
          rw [hrest]
          rfl
  rw [illegalArgument, hprinted _ fun hmem => h ((takeWhile_subset _) hmem)]
  exact ⟨_, rfl⟩

/-- Such a failure stays what it is, unless the text has a `%`. -/
theorem catch_illegalArgument_cases (start : String) (text : ByteString) :
    IsIllegalArgument (catchIllegalArgument (illegalArgument start text)) ∨
      catchIllegalArgument (illegalArgument start text) = .undefined ∧ 37 ∈ text := by
  by_cases hplain : 37 ∈ text
  · rw [illegalArgument]
    cases printed (text.takeWhile fun c => decide (c ≠ 0)) with
    | some message => exact .inl isIllegalArgument_catch
    | none => exact .inr ⟨rfl, hplain⟩
  · obtain ⟨message, hmessage⟩ := isIllegalArgument_of_plain start hplain
    rw [hmessage]
    exact .inl isIllegalArgument_catch

/-- What is behind the first of two tokens begins with a delimiter, so it has a location. -/
theorem locationAndParameters_ne_nil {uri : ByteString} (h : 2 ≤ (words isColonOrSlash uri).length) :
    locationAndParameters uri ≠ [] := by
  have hdelimited : behindProtocol uri ≠ [] := by
    intro hnil
    rw [← words_dropWhile] at h
    cases hstart : uri.dropWhile isColonOrSlash with
    | nil =>
      rw [hstart] at h
      exact absurd h (by decide)
    | cons c s =>
      have hc : isColonOrSlash c = false := by
        have hhead := head_dropWhile_not isColonOrSlash (l := uri) (by rw [hstart]; exact cons_ne_nil _ _)
        simpa [hstart] using hhead
      rw [behindProtocol, hstart] at hnil
      rw [hstart, words_eq_cons hc, hnil, words_nil] at h
      exact absurd h (by simp)
  obtain ⟨c, s, hcons⟩ := exists_cons_of_ne_nil hdelimited
  have hc : isColonOrSlash c = true := by
    have hhead := head_dropWhile_not (fun c => !isColonOrSlash c) (l := uri.dropWhile isColonOrSlash)
      (by rw [← behindProtocol]; exact hdelimited)
    rw [behindProtocol] at hcons
    simpa [hcons] using hhead
  have hother : isAmpersandOrQuestion c = false := by
    rw [isColonOrSlash, contains_iff_mem] at hc
    rcases mem_cons.mp hc with rfl | hc
    · rfl
    · rw [mem_singleton.mp hc]
      rfl
  rw [locationAndParameters, hcons, words_eq_cons hother]
  exact cons_ne_nil _ _

/-- The location and the parameters, from a tokenizer that stands behind the protocol. -/
theorem parseLocation_cases (h : t.returnDelims = false) {location : ByteString} {parameters : List ByteString}
    (hparts : words isAmpersandOrQuestion (suffix t.str t.pos) = location :: parameters) (properties : Properties) :
    (location.length < 3 ∧ parseLocation (System.getenv aprEnvGet) t properties = .error thrownPointer properties) ∨
    ¬ location.length < 3 ∧ parseLocation (System.getenv aprEnvGet) t properties =
      parameters.forM (setEntry (entryOr (System.getenv aprEnvGet) malformedParameter))
        (properties.insert (ascii "transport.uri") (location.drop 3)) := by
  have htokens : ({ t with delim := ascii "&?" } : Text.StringTokenizer).tokens = location :: parameters := hparts
  obtain ⟨t', -, hnext, hplain, htokens'⟩ := nextToken_eq (t := { t with delim := ascii "&?" }) h htokens
  obtain ⟨t'', harray⟩ := toArray_eq hplain
  rw [parseLocation, hnext]
  dsimp only
  by_cases hshort : location.length < 3
  · rw [if_pos hshort]
    exact .inl ⟨hshort, rfl⟩
  · rw [if_neg hshort, harray, htokens']
    have hne : ∀ token ∈ parameters, token ≠ [] := by
      intro token hmem
      have hword : token ∈ words isAmpersandOrQuestion (suffix t.str t.pos) := by
        rw [hparts]
        exact mem_cons_of_mem _ hmem
      exact (mem_words hword).1
    dsimp only
    rw [parseParameters_eq _ hne]
    exact .inr ⟨hshort, rfl⟩

theorem parseURL_cases (uri : ByteString) (properties : Properties) :
    (¬ MalformedURL aprEnvGet uri ∧ parseURL (System.getenv aprEnvGet) uri properties =
      .ok () (overridden properties (urlEntriesBefore aprEnvGet uri))) ∨
    MalformedURL aprEnvGet uri ∧ ∃ e, parseURL (System.getenv aprEnvGet) uri properties =
      .error e (overridden properties (urlEntriesBefore aprEnvGet uri)) ∧
      (IsIllegalArgument e ∨ e = .undefined ∧ 37 ∈ uri) := by
  have hplain : (mk uri (ascii ":/") (some 0) false).returnDelims = false := rfl
  have htokens : (mk uri (ascii ":/") (some 0) false).tokens = words isColonOrSlash uri := rfl
  rw [parseURL, countTokens_eq hplain, htokens]
  by_cases hfew : (words isColonOrSlash uri).length < 3
  · rw [if_pos hfew, urlEntriesBefore, if_pos hfew]
    exact .inr ⟨.inl hfew, _, rfl, catch_illegalArgument_cases _ uri⟩
  rw [if_neg hfew]
  obtain ⟨protocol, rest, hwords⟩ : ∃ protocol rest, words isColonOrSlash uri = protocol :: rest :=
    exists_cons_of_length_pos (by omega)
  obtain ⟨t, hnext, hprotocol, hplain', -⟩ := nextToken_eq hplain (htokens.trans hwords)
  obtain ⟨hstr, hsuffix⟩ := nextToken_suffix hplain hnext
  have hbehind : suffix t.str t.pos = behindProtocol uri := hsuffix
  have hlength : 2 ≤ (words isColonOrSlash uri).length := by omega
  obtain ⟨location, parameters, hparts⟩ := exists_cons_of_ne_nil (locationAndParameters_ne_nil hlength)
  have hmalformed : MalformedURL aprEnvGet uri ↔
      location.length < 3 ∨ ∃ parameter ∈ parameters, Malformed aprEnvGet parameter := by
    rw [MalformedURL, hparts, or_iff_right hfew]
    simp
  have hstored : urlEntriesBefore aprEnvGet uri = (ascii "transport.protocol", protocol) ::
      if location.length < 3 then []
      else (ascii "transport.uri", location.drop 3) :: entriesBefore (optionEntry (System.getenv aprEnvGet)) parameters := by
    rw [urlEntriesBefore, if_neg hfew, hwords, hparts]
    rfl
  rw [hprotocol, hmalformed, hstored]
  show (_ ∧ mapError catchIllegalArgument (fun properties =>
      parseLocation (System.getenv aprEnvGet) t (properties.insert (ascii "transport.protocol") protocol)) properties = _) ∨
    _ ∧ ∃ e, mapError catchIllegalArgument (fun properties =>
      parseLocation (System.getenv aprEnvGet) t (properties.insert (ascii "transport.protocol") protocol)) properties = _ ∧ _
  have hlocation : words isAmpersandOrQuestion (suffix t.str t.pos) = location :: parameters := by
    rw [hbehind]
    exact hparts
  rcases parseLocation_cases aprEnvGet hplain' hlocation (properties.insert (ascii "transport.protocol") protocol) with
    ⟨hshort, hrun⟩ | ⟨hlong, hrun⟩
  · rw [if_pos hshort]
    exact .inr ⟨.inl hshort, _, mapError_error hrun, .inl isIllegalArgument_catch⟩
  rw [if_neg hlong, or_iff_right hlong]
  rcases forM_entryOr_cases aprEnvGet malformedParameter parameters
    ((properties.insert (ascii "transport.protocol") protocol).insert (ascii "transport.uri") (location.drop 3)) with
    ⟨hall, hloop⟩ | ⟨parameter, hmem, hbad, e, hloop, hkind⟩
  · refine .inl ⟨?_, mapError_eq_ok.mpr (hrun.trans hloop)⟩
    rintro ⟨parameter, hmem, hbad⟩
    exact hall parameter hmem hbad
  · refine .inr ⟨⟨parameter, hmem, hbad⟩, _, mapError_error (hrun.trans hloop), ?_⟩
    rcases hkind with ⟨message, rfl⟩ | rfl
    · exact .inl isIllegalArgument_catch
    · refine (catch_illegalArgument_cases _ parameter).imp_right (And.imp_right fun hpercent => ?_)
      have hin : 37 ∈ behindProtocol uri := by
        have hword : parameter ∈ locationAndParameters uri := by
          rw [hparts]
          exact mem_cons_of_mem _ hmem
        exact mem_of_mem_words hword hpercent
      exact (dropWhile_suffix _).subset ((dropWhile_suffix _).subset hin)

/-- A call that throws throws an `IllegalArgumentException` and has set what comes before the first malformed part;
what is malformed makes it throw. -/
theorem options_before_malformed (text : ByteString) (properties : Properties) :
    (∀ type message properties',
      parseQueryInto (System.getenv aprEnvGet) text properties = .error (.thrown type message) properties' →
      type = .illegalArgumentException ∧ properties' =
        overridden properties (entriesBefore (optionEntry (System.getenv aprEnvGet)) (queryParameters text))) ∧
    (∀ type message properties',
      parseURL (System.getenv aprEnvGet) text properties = .error (.thrown type message) properties' →
      type = .illegalArgumentException ∧ properties' = overridden properties (urlEntriesBefore aprEnvGet text)) ∧
    ((∃ parameter ∈ queryParameters text, Malformed aprEnvGet parameter) → ∃ message properties',
      parseQueryInto (System.getenv aprEnvGet) text properties =
        .error (.thrown .illegalArgumentException message) properties') ∧
    (MalformedURL aprEnvGet text → 37 ∉ text → ∃ message properties',
      parseURL (System.getenv aprEnvGet) text properties =
        .error (.thrown .illegalArgumentException message) properties') := by
  refine ⟨?_, ?_, ?_, ?_⟩
  · intro type message properties' h
    rcases parseQueryInto_cases aprEnvGet text properties with ⟨-, hok⟩ | ⟨-, e, herror, message', rfl⟩
    · rw [h] at hok
      cases hok
    · rw [h] at herror
      cases herror
      exact ⟨rfl, rfl⟩
  · intro type message properties' h
    rcases parseURL_cases aprEnvGet text properties with ⟨-, hok⟩ | ⟨-, e, herror, ⟨message', rfl⟩ | ⟨rfl, -⟩⟩
    · rw [h] at hok
      cases hok
    · rw [h] at herror
      cases herror
      exact ⟨rfl, rfl⟩
    · rw [h] at herror
      cases herror
  · rintro ⟨parameter, hmem, hbad⟩
    rcases parseQueryInto_cases aprEnvGet text properties with ⟨hall, -⟩ | ⟨-, e, herror, message, rfl⟩
    · exact absurd hbad (hall parameter hmem)
    · exact ⟨message, _, herror⟩
  · intro hbad hplain
    rcases parseURL_cases aprEnvGet text properties with ⟨hgood, -⟩ | ⟨-, e, herror, ⟨message, rfl⟩ | ⟨-, hpercent⟩⟩
    · exact absurd hbad hgood
    · exact ⟨message, _, herror⟩
    · exact absurd hpercent hplain

/-- The first option stays when the second one is refused. -/
theorem options_half_parsed : ∃ e properties',
    parseQueryInto (System.getenv fun _ => none) (ascii "a=1&b") OrderedMap.empty = .error e properties' ∧
      properties' ≠ OrderedMap.empty := by
  refine ⟨invalidOption, OrderedMap.empty.insert (ascii "a") (ascii "1"), ?_, by decide⟩
  rw [parseQueryInto_eq]
  rfl

end URISupport

end ActiveMQCpp.Util
