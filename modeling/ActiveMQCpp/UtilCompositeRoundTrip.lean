import ActiveMQCpp.UtilCompositeData

/-! When a composite URI comes back: `parseComposite` of what `toURI` prints. -/

namespace ActiveMQCpp.Util

open Codec Decaf Decaf.URIHelper Decaf.URIEncoderDecoder Nesting URISupport CompositeData List URI
  URIComponents

def CompositeData.texts (d : CompositeData) : List ByteString := d.components.map URI.toString

/-- A scheme, and components in each of which as many parentheses are opened as are closed. -/
structure IsComposite (d : CompositeData) : Prop where
  scheme : ValidScheme d.scheme
  host : d.host = []
  components : d.components ≠ []
  balanced : ∀ component ∈ d.components, depthAfter parentheses 0 component.toString = 0

/-- The components, the path, the parameters and the fragment come back. -/
def RoundTrips (getenv : ByteString → Except Failure ByteString) (d : CompositeData) : Prop :=
  ∃ u result, d.toURI = .ok u ∧ parseComposite getenv u = .ok result ∧
    result.texts = d.texts ∧ result.path = d.path ∧ result.parameters = d.parameters ∧ result.fragment = d.fragment

/-- One component at most stands behind an empty first one, there are no parameters, and the path and the fragment have
nothing in them that is read in another way. -/
structure Kept (d : CompositeData) : Prop where
  parameters : d.parameters = OrderedMap.empty
  components : d.texts = [[]] ∨ ∃ text, d.texts = [[], text] ∧ text ≠ [] ∧ Whole parentheses 0 text ∧
    ∃ u, URI.ofString text = .ok u
  path : 40 ∉ d.path ∧ 41 ∉ d.path ∧ 63 ∉ d.path
  body : Legal allLegal d.body ∧ 37 ∉ d.body
  fragment : Legal allLegal d.fragment ∧ 37 ∉ d.fragment

/-! ### What is printed -/

section Printed

variable {d : CompositeData}

theorem printComponents_false (components : List URI) :
    printComponents false components = (components.map toString).flatten := by
  induction components with
  | nil => rfl
  | cons component components ih =>
    rw [printComponents, ih, map_cons, flatten_cons]
    rfl

theorem printComponents_true {components : List URI} (hne : components ≠ []) :
    printComponents true components = 44 :: (components.map toString).flatten := by
  obtain ⟨component, components, rfl⟩ := exists_cons_of_ne_nil hne
  rw [printComponents, printComponents_false, map_cons, flatten_cons]
  rfl

def queryMark (d : CompositeData) : Option ByteString := if d.parameters.entries = [] then none else some []

theorem body_eq (h : IsComposite d) :
    d.body = 40 :: 44 :: (d.texts.flatten ++ 41 :: (behind (ascii "/") d.path d.path ++ marked 63 (queryMark d))) := by
  have hquery : (if d.parameters.entries ≠ [] then ascii "?" ++ createQueryString d.parameters else []) =
      marked 63 (queryMark d) := by
    rw [createQueryString_eq_nil, queryMark]
    by_cases hempty : d.parameters.entries = []
    · rw [if_neg (not_not_intro hempty), if_pos hempty]
      rfl
    · rw [if_pos hempty, if_neg hempty]
      rfl
  rw [body, hquery, if_neg (not_not_intro h.host), printComponents_true h.components]
  simp only [texts, append_assoc, cons_append]
  rfl

theorem text_eq (h : IsComposite d) :
    d.text = schemed (some d.scheme) ++ d.body ++ marked 35 (optional d.fragment d.fragment) := by
  rw [CompositeData.text, URI.before, if_neg h.scheme.ne_nil, URI.behind, URIComponents.optional]
  split_ifs <;> rfl

theorem balanced_texts (h : IsComposite d) : d.texts.flatten.count 40 = d.texts.flatten.count 41 := by
  have hall : ∀ text ∈ d.texts, text.count 40 = text.count 41 := by
    intro text htext
    obtain ⟨component, hcomponent, rfl⟩ := mem_map.mp htext
    exact of_decide_eq_true (checkParenthesis_iff.mpr (h.balanced component hcomponent))
  rw [count_flatten, count_flatten, map_congr_left hall]

end Printed

/-! ### What is read -/

section Read

variable (getenv : ByteString → Except Failure ByteString)
variable {u : URI}
variable {path s : ByteString} {result : CompositeData}

/-- The last parenthesis that is closed ends the components. -/
theorem splitComposite_eq (inside : ByteString) {params : ByteString} (h : 41 ∉ params) :
    splitComposite (40 :: (inside ++ 41 :: params)) = (inside, params) := by
  have hopening : find 40 (40 :: (inside ++ 41 :: params)) 0 = some 0 := rfl
  have hclosing : rfind 41 (40 :: (inside ++ 41 :: params)) = some (inside.length + 1) := by
    rw [← cons_append, rfind_append (40 :: inside) h, length_cons]
  have hparams : (40 :: (inside ++ 41 :: params)).drop (inside.length + 1 + 1) = params := by
    rw [drop_succ_cons, ← drop_drop, drop_left]
    rfl
  rw [splitComposite, if_pos hopening, hclosing]
  dsimp only
  rw [hparams, Nat.add_sub_cancel, drop_succ_cons, drop_zero, take_left]

def readQuery (query : Option ByteString) : Except CompositeException Properties :=
  match query with
  | none => .ok OrderedMap.empty
  | some query => (parseQuery getenv query).mapError .query

theorem readParams_marked (h : 63 ∉ path) (query : Option ByteString) :
    readParams getenv (path ++ marked 63 query) = (readQuery getenv query).map (stripPrefix path (ascii "/"), ·) := by
  have hempty : (if path.length > 0 then stripPrefix path (ascii "/") else []) = stripPrefix path (ascii "/") := by
    split_ifs with hlength
    · rfl
    · rw [eq_nil_of_length_eq_zero (Nat.eq_zero_of_not_pos hlength)]
      rfl
  cases query with
  | none =>
    rw [marked, append_nil, readParams, find_none h]
    dsimp only
    rw [hempty]
    rfl
  | some query =>
    have hdrop : (path ++ 63 :: query).drop (path.length + 1) = query := by
      rw [← drop_drop, drop_left]
      rfl
    rw [marked, readParams, find_append h]
    dsimp only
    rw [hdrop, take_left, hempty, readQuery]
    cases parseQuery getenv query <;> rfl

theorem toString_ofString (h : ofString s = .ok u) : u.toString = s := by
  obtain ⟨r, hparse, hu⟩ := except_bind_eq_ok.mp h
  cases hu
  show (if s = [] then compose r else s) = s
  split_ifs with hempty
  · rw [hempty] at hparse
    cases hparse
    exact hempty.symm
  · rfl

theorem except_mapError_ok {α ε δ : Type} {f : ε → δ} {x : Except ε α} {a : α} : x.mapError f = .ok a ↔ x = .ok a := by
  cases x with
  | ok b => exact ⟨fun h => congrArg _ (Except.ok.inj h), fun h => congrArg _ (Except.ok.inj h)⟩
  | error e => exact iff_of_false (fun h => by cases h) fun h => by cases h

theorem uriOf_ok : uriOf s = .ok u ↔ ofString s = .ok u := except_mapError_ok

theorem texts_of_mapM {components : List ByteString} {uris : List URI} (h : components.mapM uriOf = .ok uris) :
    uris.map toString = components ∧ ∀ component ∈ components, ∃ u, ofString component = .ok u := by
  induction components generalizing uris with
  | nil =>
    cases h
    exact ⟨rfl, nofun⟩
  | cons component components ih =>
    rw [mapM_cons] at h
    obtain ⟨u, hu, hrest⟩ := except_bind_eq_ok.mp h
    obtain ⟨us, hus, heq⟩ := except_bind_eq_ok.mp hrest
    cases heq
    obtain ⟨htexts, hall⟩ := ih hus
    rw [map_cons, htexts, toString_ofString (uriOf_ok.mp hu)]
    refine ⟨rfl, fun other hother => ?_⟩
    obtain rfl | hother := mem_cons.mp hother
    · exact ⟨u, uriOf_ok.mp hu⟩
    · exact hall other hother

/-- Two slashes are stripped, a parenthesis is not. -/
theorem stripPrefix_opening (string : ByteString) : stripPrefix (40 :: string) (ascii "//") = 40 :: string := by
  apply if_neg
  rintro ⟨rest, hrest⟩
  cases (List.cons.inj hrest).1

/-- A scheme specific part that starts with a parenthesis is read up to its last one, and its path up to the `?`. -/
theorem parseComposite_iff {string inside : ByteString} {query : Option ByteString}
    (hdecode : decode u.uri.schemeSpecificPart = .ok string)
    (hstrip : stripPrefix string (ascii "//") = 40 :: (inside ++ 41 :: (path ++ marked 63 query)))
    (hclosing : 41 ∉ path ++ marked 63 query) (hmark : 63 ∉ path) :
    parseComposite getenv u = .ok result ↔
      checkParenthesis (40 :: (inside ++ 41 :: (path ++ marked 63 query))) = true ∧
      ∃ components parameters fragment, (splitComponents inside).mapM uriOf = .ok components ∧
        readQuery getenv query = .ok parameters ∧ decode u.uri.fragment = .ok fragment ∧
        result = { scheme := u.uri.scheme, components, path := stripPrefix path (ascii "/"), parameters, fragment } := by
  rw [parseComposite, hdecode]
  show (parseCompositeInto getenv u _ (stripPrefix _ _) >>= _) = _ ↔ _
  rw [hstrip, parseCompositeInto, splitComposite_eq inside hclosing]
  dsimp only
  rw [readParams_marked getenv hmark]
  split_ifs with hcheck
  · constructor
    · intro h
      obtain ⟨_, hinto, hrest⟩ := except_bind_eq_ok.mp h
      obtain ⟨components, hcomponents, hinto⟩ := except_bind_eq_ok.mp hinto
      obtain ⟨_, hparams, hinto⟩ := except_bind_eq_ok.mp hinto
      obtain ⟨fragment, hfragment, hresult⟩ := except_bind_eq_ok.mp hrest
      cases hinto
      cases hresult
      cases hquery : readQuery getenv query with
      | error e =>
        rw [hquery] at hparams
        cases hparams
      | ok parameters =>
        rw [hquery] at hparams
        cases hparams
        exact ⟨hcheck, components, parameters, fragment, hcomponents, rfl, except_mapError_ok.mp hfragment, rfl⟩
    · rintro ⟨-, components, parameters, fragment, hcomponents, hquery, hfragment, rfl⟩
      rw [hcomponents, hquery, getFragment, hfragment]
      rfl
  · exact iff_of_false (fun h => by cases h) fun h => hcheck h.1

theorem parseComposite_decodes (h : parseComposite getenv u = .ok result) :
    (∃ string, decode u.uri.schemeSpecificPart = .ok string) ∧ decode u.uri.fragment = .ok result.fragment := by
  obtain ⟨string, hstring, hrest⟩ := except_bind_eq_ok.mp h
  obtain ⟨_, -, hrest⟩ := except_bind_eq_ok.mp hrest
  obtain ⟨fragment, hfragment, hresult⟩ := except_bind_eq_ok.mp hrest
  cases hresult
  exact ⟨⟨string, except_mapError_ok.mp hstring⟩, except_mapError_ok.mp hfragment⟩

end Read

/-! ### What comes back -/

section Back

variable {d : CompositeData} {getenv : ByteString → Except Failure ByteString}
variable {c : UInt8} {s ssp path text : ByteString} {query mark : Option ByteString}
variable {decoded t : ByteString}

theorem exists_last (h : c ∈ s) : ∃ a b, s = a ++ c :: b ∧ c ∉ b := by
  obtain ⟨a, b, hsplit, ha⟩ := eq_append_cons_of_mem (mem_reverse.mpr h)
  refine ⟨b.reverse, a.reverse, ?_, fun hmem => ha (mem_reverse.mp hmem)⟩
  rw [← reverse_reverse s, hsplit, reverse_append, reverse_cons, append_assoc]
  rfl

theorem length_stripPrefix_le (value strip : ByteString) : (stripPrefix value strip).length ≤ value.length := by
  rw [stripPrefix]
  split_ifs
  · rw [length_drop]
    exact Nat.sub_le _ _
  · exact le_rfl

theorem stripPrefix_slash (path : ByteString) : stripPrefix (47 :: path) (ascii "/") = path := if_pos ⟨path, rfl⟩

theorem getD_optional (component : ByteString) : (optional component component).getD [] = component := by
  rw [URIComponents.optional]
  split_ifs with hnil
  · exact hnil.symm
  · rfl

theorem delimited_of_composite (h : IsComposite d) (fragment : Option ByteString) (hhash : 35 ∉ ssp)
    (hhead : ssp.head? ≠ some 47) : RootlessReference.Delimited ⟨d.scheme, ssp, fragment⟩ := by
  have hmark : ∀ {c : UInt8}, c ∉ ascii "+-." → Character.isLetterOrDigit c = false → c ∉ d.scheme :=
    fun hlegal hletter => h.scheme.not_mem hlegal hletter
  exact ⟨⟨⟨hmark (by decide) (by decide), hmark (by decide) (by decide), hmark (by decide) (by decide)⟩,
    hmark (by decide) (by decide)⟩, hhead, hhash⟩

theorem toURI_ok (h : IsComposite d) {u : URI} (hu : d.toURI = .ok u) :
    ∃ ssp fragment, 35 ∉ ssp ∧ d.body ++ marked 35 (optional d.fragment d.fragment) = ssp ++ marked 35 fragment ∧
      Legal allLegal ssp ∧ Legal allLegal (fragment.getD []) ∧
      u.uri.schemeSpecificPart = ssp ∧ u.uri.fragment = fragment.getD [] := by
  obtain ⟨r, hparse, hr⟩ := except_bind_eq_ok.mp hu
  cases hr
  obtain ⟨ssp, fragment, hhash, hsplit⟩ := marked_cases 35 (d.body ++ marked 35 (optional d.fragment d.fragment))
  have hhead : ssp.head? ≠ some 47 := by
    rw [body_eq h] at hsplit
    cases ssp with
    | nil => exact fun hnone => by cases hnone
    | cons c ssp =>
      obtain ⟨rfl, -⟩ := List.cons.inj hsplit
      exact fun heq => by cases heq
  have hdelimited := delimited_of_composite h fragment hhash hhead
  have htext : d.text = RootlessReference.text ⟨d.scheme, ssp, fragment⟩ := by
    rw [text_eq h, append_assoc, hsplit, ← append_assoc]
    rfl
  have hread := convert_eq_ok.mp hparse
  rw [htext, RootlessReference.parseURI_text hdelimited] at hread
  obtain ⟨hvalid, rfl⟩ := hread
  exact ⟨ssp, fragment, hhash, hsplit, hvalid.schemeSpecificPart, hvalid.fragment, rfl, rfl⟩

/-- If the fragment comes back, no `#` stands before it, but one may be the last character. -/
theorem ssp_of_fragment {fragment : Option ByteString} (hhash : 35 ∉ ssp)
    (hsplit : d.body ++ marked 35 (optional d.fragment d.fragment) = ssp ++ marked 35 fragment)
    (hlegal : Legal allLegal (fragment.getD [])) (hdecode : decode (fragment.getD []) = .ok d.fragment) :
    (ssp = d.body ∧ fragment = optional d.fragment d.fragment) ∨ d.body = ssp ++ [35] := by
  by_cases hmem : 35 ∈ d.body
  · obtain ⟨before, behind, hbody, hbefore⟩ := eq_append_cons_of_mem hmem
    rw [hbody, append_assoc, cons_append] at hsplit
    obtain ⟨rfl, hfragment⟩ := marked_injective hhash hbefore (show ssp ++ marked 35 fragment = before ++ marked 35 (some _) from
      hsplit.symm)
    rw [hfragment] at hlegal hdecode
    have hnone : 35 ∉ marked 35 (optional d.fragment d.fragment) := fun hin =>
      hlegal.not_mem (c := 35) (by decide) (by decide) (by decide) (by decide) (mem_append_right _ hin)
    have hempty : d.fragment = [] := by
      by_contra hne
      rw [URIComponents.optional, if_neg hne] at hnone
      exact hnone mem_cons_self
    rw [hempty] at hdecode
    have hbehind : behind = [] := (append_eq_nil_iff.mp (decodes_of_decode hdecode).eq_nil).1
    rw [hbehind] at hbody
    exact .inr hbody
  · exact .inl (marked_injective hhash hmem hsplit.symm)

def slashPath (path text : ByteString) : ByteString := if path = [] then [] else 47 :: text

theorem queryMark_cases (d : CompositeData) : queryMark d = none ∨ queryMark d = some [] := by
  rw [queryMark]
  split_ifs
  · exact .inl rfl
  · exact .inr rfl

theorem ssp_cases (h : IsComposite d) (hssp : ssp = d.body ∨ d.body = ssp ++ [35]) :
    ∃ text, ssp = 40 :: 44 :: (d.texts.flatten ++ 41 :: (slashPath d.path text ++ marked 63 (queryMark d))) ∧
      text.length ≤ d.path.length ∧ (text = d.path → ssp = d.body) := by
  have hbehind : behind (ascii "/") d.path d.path = slashPath d.path d.path := rfl
  have hbody := body_eq h
  rw [hbehind] at hbody
  obtain rfl | hlast := hssp
  · exact ⟨d.path, hbody, le_rfl, fun _ => rfl⟩
  -- the last character is that of the path: neither the parenthesis nor the mark of the query is a `#`
  rw [hlast] at hbody
  have hends : ∀ {c : UInt8} {front : ByteString}, d.body = front ++ [c] → c = 35 ∧ front = ssp := by
    intro c front hfront
    obtain ⟨hsame, hc⟩ := append_inj' (hlast.symm.trans hfront) rfl
    exact ⟨(List.cons.inj hc).1.symm, hsame.symm⟩
  have hmark : queryMark d = none := by
    refine (queryMark_cases d).resolve_right fun hsome => ?_
    have hfront : d.body = (40 :: 44 :: (d.texts.flatten ++ 41 :: slashPath d.path d.path)) ++ [63] := by
      rw [hlast, hbody, hsome, cons_append, cons_append, append_assoc, cons_append]
      rfl
    cases (hends hfront).1
  rw [hmark] at hbody
  rw [hmark]
  obtain hpath | ⟨text, c, hpath⟩ := eq_nil_or_concat' d.path
  · have hfront : d.body = (40 :: 44 :: d.texts.flatten) ++ [41] := by
      rw [hlast, hbody, slashPath, if_pos hpath]
      rfl
    cases (hends hfront).1
  · have hne : d.path ≠ [] := by
      rw [hpath]
      exact append_ne_nil_of_right_ne_nil text (cons_ne_nil c [])
    have hfront : d.body = (40 :: 44 :: (d.texts.flatten ++ 41 :: 47 :: text)) ++ [c] := by
      rw [hlast, hbody, slashPath, if_neg hne, hpath, marked, append_nil, cons_append, cons_append, append_assoc, cons_append, cons_append]
    have hlength : d.path.length = text.length + 1 := by
      rw [hpath, length_append, length_singleton]
    refine ⟨text, ?_, by omega, fun heq => ?_⟩
    · rw [slashPath, if_neg hne, ← (hends hfront).2, marked, append_nil]
    · rw [heq] at hlength
      omega

theorem prefix_of_marked (hpath : 63 ∉ path)
    (hmark : mark = none ∨ mark = some []) (h : path ++ marked 63 query = text ++ marked 63 mark) : path <+: text := by
  obtain rfl | rfl := hmark
  · rw [marked, append_nil] at h
    exact ⟨marked 63 query, h⟩
  · cases query with
    | none =>
      rw [marked, append_nil] at h
      rw [h] at hpath
      exact absurd (mem_append_right text mem_cons_self) hpath
    | some query =>
      obtain rfl | ⟨query, c, rfl⟩ := eq_nil_or_concat' query
      · obtain ⟨hsame, -⟩ := append_inj' (show path ++ [63] = text ++ [63] from h) rfl
        exact ⟨[], by rw [hsame, append_nil]⟩
      · obtain ⟨hsame, -⟩ := append_inj' (show (path ++ 63 :: query) ++ [c] = text ++ [63] by
          rw [append_assoc]
          exact h) rfl
        exact ⟨63 :: query, hsame⟩

/-- The last parenthesis that is closed is the given one, or stands behind it. -/
theorem last_closing (inside params : ByteString) :
    ∃ inside' params', inside ++ 41 :: params = inside' ++ 41 :: params' ∧ 41 ∉ params' ∧
      ((inside' = inside ∧ params' = params) ∨ ∃ between, params = between ++ 41 :: params') := by
  by_cases hmem : 41 ∈ params
  · obtain ⟨between, params', rfl, hlast⟩ := exists_last hmem
    refine ⟨inside ++ 41 :: between, params', ?_, hlast, .inr ⟨between, rfl⟩⟩
    rw [append_assoc, cons_append]
  · exact ⟨inside, params, rfl, hmem, .inl ⟨rfl, rfl⟩⟩

/-- **The path comes back only as it is**: a shorter part of the text would have to be as long. -/
theorem path_back {params read : ByteString} (hne : path ≠ [])
    (hmark : mark = none ∨ mark = some []) (hlength : text.length ≤ path.length) (hdecodes : Decodes text decoded)
    (hparams : params = 47 :: decoded ++ marked 63 mark ∨ ∃ between, 47 :: decoded ++ marked 63 mark = between ++ 41 :: params)
    (hread : params = read ++ marked 63 query) (hplain : 63 ∉ read) (hback : stripPrefix read (ascii "/") = path) :
    text = path ∧ decoded = path ∧ 37 ∉ path ∧ read = 47 :: path ∧ params = 47 :: path ++ marked 63 mark := by
  have hdecoded := hdecodes.length_le
  have hstripped := length_stripPrefix_le read (ascii "/")
  rw [hback] at hstripped
  obtain hwhole | ⟨between, hlater⟩ := hparams
  · obtain ⟨rest, hrest⟩ := prefix_of_marked hplain hmark (hread.symm.trans hwhole)
    cases read with
    | nil => exact absurd hback.symm hne
    | cons c read =>
      obtain rfl : c = 47 := (List.cons.inj hrest).1
      have hsame : read ++ rest = decoded := (List.cons.inj hrest).2
      rw [stripPrefix_slash] at hback
      have hsum := congrArg List.length hsame
      have hpath := congrArg List.length hback
      rw [length_append] at hsum
      have hrestNil : rest = [] := eq_nil_of_length_eq_zero (by omega)
      rw [hrestNil, append_nil, hback] at hsame
      obtain ⟨heq, hpercent⟩ := hdecodes.eq_of_length_le (by omega)
      rw [heq] at hsame
      refine ⟨hsame.symm, heq.trans hsame.symm, hsame ▸ hpercent, by rw [hback], ?_⟩
      rw [hwhole, heq, hsame]
  · -- a later parenthesis leaves too little for the path
    exfalso
    have hpath := length_pos_of_ne_nil hne
    obtain ⟨behind, hbehind, hsplit⟩ :
        ∃ behind, params = behind ++ marked 63 mark ∧ 47 :: decoded = between ++ 41 :: behind := by
      obtain rfl | rfl := hmark
      · rw [marked, append_nil] at hlater
        exact ⟨params, (append_nil params).symm, hlater⟩
      · obtain hnil | ⟨behind, c, hbehind⟩ := eq_nil_or_concat' params
        · rw [hnil] at hread
          rw [(append_eq_nil_iff.mp hread.symm).1] at hstripped
          exact absurd hstripped (not_le.mpr hpath)
        · rw [hbehind] at hlater
          obtain ⟨hsame, hc⟩ := append_inj' (show (47 :: decoded) ++ [63] = (between ++ 41 :: behind) ++ [c] by
            rw [append_assoc]
            exact hlater) rfl
          refine ⟨behind, ?_, hsame⟩
          rw [hbehind, ← hc]
          rfl
    have hle := (prefix_of_marked hplain hmark (hread.symm.trans hbehind)).length_le
    have hsum := congrArg List.length hsplit
    rw [length_append, length_cons, length_cons] at hsum
    cases between with
    | nil => cases (List.cons.inj hsplit).1
    | cons c between =>
      rw [length_cons] at hsum
      omega

/-- **The components come back only if there is one at most behind an empty first one**: more pieces would need commas. -/
theorem components_back {texts : List ByteString} (hdecodes : Decodes texts.flatten decoded)
    (h : splitComponents (44 :: decoded) = texts) :
    decoded = texts.flatten ∧ 37 ∉ texts.flatten ∧
      (texts = [[]] ∨ ∃ text, texts = [[], text] ∧ text ≠ [] ∧ Whole parentheses 0 text) := by
  obtain ⟨before, last, hpieces, hsplit⟩ := splitComponents_eq decoded
  have hflatten : (splitComponents decoded).flatten = (before ++ [last]).flatten := by
    rw [hsplit]
    split_ifs with hlast
    · rw [hlast, flatten_append, flatten_singleton, append_nil]
    · rfl
  have htexts : texts = [] :: splitComponents decoded := by
    rw [← h, splitComponents_comma]
  have hcount := length_pieces (m := parentheses) 0 [] decoded
  rw [hpieces, ← hflatten, length_append, length_singleton, length_nil] at hcount
  have hle := hdecodes.length_le
  rw [htexts, flatten_cons, nil_append] at hle hdecodes ⊢
  have hone : (pieces parentheses 0 [] decoded).length = 1 := by
    rw [hpieces, length_append, length_singleton]
    omega
  obtain ⟨hsame, hpercent⟩ := hdecodes.eq_of_length_le (by omega)
  refine ⟨hsame, hpercent, ?_⟩
  have hwhole := whole_of_length hone
  rw [splitComponents_of_whole hwhole]
  split_ifs with hempty
  · exact .inl rfl
  · exact .inr ⟨decoded, rfl, hempty, hwhole⟩

theorem readQuery_mark {parameters : Properties} (h : readQuery getenv (queryMark d) = .ok parameters)
    (hback : parameters = d.parameters) : d.parameters = OrderedMap.empty := by
  rw [queryMark] at h
  split_ifs at h with hempty
  · exact OrderedMap.eq_empty hempty
  · rw [readQuery, parseQuery_nil] at h
    cases h
    exact hback.symm

theorem decodes_marked (hmark : mark = none ∨ mark = some [])
    (h : Decodes (s ++ marked 63 mark) t) : ∃ t', t = t' ++ marked 63 mark ∧ Decodes s t' := by
  obtain rfl | rfl := hmark
  · rw [marked, append_nil] at h
    exact ⟨t, (append_nil t).symm, h⟩
  · obtain ⟨t', rest, rfl, ht, hrest⟩ := h.split (by decide) (by decide)
    cases hrest
    exact ⟨t', rfl, ht⟩

theorem decodes_cons (hpercent : c ≠ 37) (h : Decodes (c :: s) t) : ∃ t', t = c :: t' ∧ Decodes s t' := by
  cases h with
  | char _ h => exact ⟨_, rfl, h⟩
  | escape => exact absurd rfl hpercent

theorem parts_back {dpath slash inside inside' : ByteString}
    (hmark : mark = none ∨ mark = some []) (hlength : text.length ≤ dpath.length)
    (hslash : Decodes (slashPath dpath text) slash)
    (hwhere : (inside' = inside ∧ path ++ marked 63 query = slash ++ marked 63 mark) ∨
      ∃ between, slash ++ marked 63 mark = between ++ 41 :: (path ++ marked 63 query))
    (hplain : 63 ∉ path) (hback : stripPrefix path (ascii "/") = dpath) :
    text = dpath ∧ 37 ∉ dpath ∧ slash = slashPath dpath dpath ∧ path = slash ∧ query = mark ∧ inside' = inside := by
  by_cases hne : dpath = []
  · rw [hne, slashPath, if_pos rfl] at hslash
    cases hslash
    have htext : text = [] := by
      rw [hne] at hlength
      exact eq_nil_of_length_eq_zero (Nat.le_zero.mp hlength)
    obtain ⟨hinside, hparams⟩ | ⟨between, hparams⟩ := hwhere
    · obtain ⟨hpath, hquery⟩ := marked_injective hplain not_mem_nil hparams
      rw [hne, htext]
      exact ⟨rfl, not_mem_nil, rfl, hpath, hquery, hinside⟩
    · exfalso
      have hmem : 41 ∈ marked 63 mark := by
        rw [nil_append] at hparams
        rw [hparams]
        exact mem_append_right between mem_cons_self
      obtain rfl | rfl := hmark
      · cases hmem
      · exact absurd hmem (by decide)
  · rw [slashPath, if_neg hne] at hslash
    obtain ⟨decoded, rfl, hdecodes⟩ := decodes_cons (by decide) hslash
    obtain ⟨htext, hsame, hpercent, hpath, hparams⟩ :=
      path_back hne hmark hlength hdecodes (hwhere.imp_left And.right) rfl hplain hback
    rw [hpath] at hparams
    have hquery : query = mark :=
      (marked_injective (a := []) (b := []) not_mem_nil not_mem_nil (append_cancel_left hparams)).2
    rw [hsame, hpath, slashPath, if_neg hne]
    refine ⟨htext, hpercent, rfl, rfl, hquery, ?_⟩
    obtain ⟨hinside, -⟩ | ⟨between, hlater⟩ := hwhere
    · exact hinside
    · have hsum := congrArg List.length hlater
      rw [hsame, hpath, hquery, length_append, length_append, length_cons, length_cons,
        length_append, length_cons] at hsum
      omega

theorem not_mem_slashPath (h : c ∉ slashPath path path) : c ∉ path := by
  intro hmem
  rw [slashPath, if_neg (ne_nil_of_mem hmem)] at h
  exact h (mem_cons_of_mem _ hmem)

theorem count_slashPath (hc : c ≠ 47) (path : ByteString) : (slashPath path path).count c = path.count c := by
  rw [slashPath]
  split_ifs with hnil
  · rw [hnil]
  · exact count_cons_of_ne hc.symm

theorem kept_of_roundTrips (h : IsComposite d) (hround : RoundTrips getenv d) : Kept d := by
  obtain ⟨u, result, hu, hparse, htexts, hpath, hparameters, hfragment⟩ := hround
  obtain ⟨ssp, fragment, hhash, htext, hlegal, hlegalFragment, hssp, hfrag⟩ := toURI_ok h hu
  have hmark := queryMark_cases d
  obtain ⟨⟨string, hstring⟩, hdecodeFragment⟩ := parseComposite_decodes getenv hparse
  rw [hfrag, hfragment] at hdecodeFragment
  have hread := ssp_of_fragment hhash htext hlegalFragment hdecodeFragment
  obtain ⟨text, hform, hlength, hbody⟩ := ssp_cases h (hread.imp_left And.left)
  -- what the parts of the string decode to
  have hdecodes := decodes_of_decode hstring
  rw [hssp, hform] at hdecodes
  obtain ⟨_, rfl, hopened⟩ := decodes_cons (by decide) hdecodes
  obtain ⟨_, rfl, hlisted⟩ := decodes_cons (by decide) hopened
  obtain ⟨inside, behind, rfl, hinside, hbehind⟩ := hlisted.split (by decide) (by decide)
  obtain ⟨slash, rfl, hslash⟩ := decodes_marked hmark hbehind
  obtain ⟨inside', params, hlast, hclosing, hwhere⟩ := last_closing (44 :: inside) (slash ++ marked 63 (queryMark d))
  obtain ⟨path, query, hplain, rfl⟩ := marked_cases 63 params
  rw [← cons_append, hlast] at hstring
  obtain ⟨hcheck, components, parameters, fragment', hcomponents, hquery, -, rfl⟩ :=
    (parseComposite_iff getenv hstring (stripPrefix_opening _) hclosing hplain).mp hparse
  obtain ⟨hcomponentTexts, haccepted⟩ := texts_of_mapM hcomponents
  -- the path comes back, so that all parts are those that were printed
  obtain ⟨htextPath, hpercent, rfl, rfl, rfl, rfl⟩ := parts_back hmark hlength hslash hwhere hplain hpath
  have hsplit : splitComponents (44 :: inside) = d.texts := hcomponentTexts.symm.trans htexts
  obtain ⟨hsame, hpercentTexts, hshape⟩ := components_back hinside hsplit
  have hempty := readQuery_mark hquery hparameters
  have hnone : queryMark d = none := by
    rw [queryMark, hempty]
    rfl
  rw [hbody htextPath] at hread hlegal
  rw [hnone, marked, append_nil] at hclosing
  have hclosed := not_mem_slashPath hclosing
  refine ⟨hempty, ?_, ⟨?_, hclosed, not_mem_slashPath hplain⟩, ⟨hlegal, ?_⟩, ?_⟩
  · apply hshape.imp_right
    rintro ⟨component, hcomponent, hne, hwhole⟩
    refine ⟨component, hcomponent, hne, hwhole, haccepted component ?_⟩
    rw [hsplit, hcomponent]
    exact mem_cons_of_mem _ (mem_singleton_self component)
  · -- the parentheses match as a whole, in the components, and none is closed in the path
    have hcount := of_decide_eq_true hcheck
    rw [hnone, hsame, marked, append_nil] at hcount
    simp only [cons_append, count_cons, count_append, count_slashPath (c := 40) (by decide),
      count_slashPath (c := 41) (by decide), balanced_texts h, count_eq_zero.mpr hclosed] at hcount
    apply count_eq_zero.mp
    simp at hcount
    omega
  · rw [body_eq h, hnone, marked, append_nil]
    have hslashed : 37 ∉ slashPath d.path d.path := by
      rw [slashPath]
      split_ifs
      · exact not_mem_nil
      · exact fun hmem => (mem_cons.mp hmem).elim (by decide) hpercent
    simp only [mem_cons, mem_append, not_or]
    exact ⟨by decide, by decide, hpercentTexts, by decide, hslashed⟩
  · obtain ⟨-, hfragmentText⟩ | hlonger := hread
    · rw [hfragmentText, getD_optional] at hlegalFragment hdecodeFragment
      exact ⟨hlegalFragment, decode_eq_self.mp hdecodeFragment⟩
    · have hlengths := congrArg List.length hlonger
      rw [length_append, length_singleton] at hlengths
      omega

theorem exists_mapM {components : List ByteString} (h : ∀ component ∈ components, ∃ u, ofString component = .ok u) :
    ∃ uris, components.mapM uriOf = .ok uris := by
  induction components with
  | nil => exact ⟨[], rfl⟩
  | cons component components ih =>
    obtain ⟨u, hu⟩ := h component mem_cons_self
    obtain ⟨us, hus⟩ := ih fun other hother => h other (mem_cons_of_mem _ hother)
    refine ⟨u :: us, ?_⟩
    rw [mapM_cons, uriOf_ok.mpr hu, hus]
    rfl

theorem body_of_kept (h : IsComposite d) (hkept : Kept d) :
    d.body = 40 :: (44 :: d.texts.flatten ++ 41 :: (slashPath d.path d.path ++ marked 63 none)) := by
  have hnone : queryMark d = none := by
    rw [queryMark, hkept.parameters]
    rfl
  rw [body_eq h, hnone]
  rfl

theorem toURI_of_kept (h : IsComposite d) (hkept : Kept d) :
    ∃ u, d.toURI = .ok u ∧ u.uri.schemeSpecificPart = d.body ∧ u.uri.fragment = d.fragment := by
  let ref : RootlessReference := ⟨d.scheme, d.body, optional d.fragment d.fragment⟩
  have hhash : 35 ∉ d.body := hkept.body.1.not_mem (by decide) (by decide) (by decide) (by decide)
  have hdelimited : ref.Delimited := by
    apply delimited_of_composite h _ hhash
    rw [body_eq h]
    exact fun heq => by cases heq
  have hfragment : (optional d.fragment d.fragment).getD [] = d.fragment := getD_optional d.fragment
  have hvalid : ref.Valid := by
    refine ⟨h.scheme, ?_, hkept.body.1, ?_⟩
    · show d.body ≠ []
      rw [body_eq h]
      exact cons_ne_nil _ _
    · show Legal allLegal ((optional d.fragment d.fragment).getD [])
      rw [hfragment]
      exact hkept.fragment.1
  have hread : URIHelper.parseURI d.text false = .ok ref.type := by
    rw [text_eq h]
    exact (RootlessReference.parseURI_text hdelimited).mpr ⟨hvalid, rfl⟩
  exact ⟨⟨ref.type, d.text⟩, except_bind_eq_ok.mpr ⟨_, convert_eq_ok.mpr hread, rfl⟩, rfl, hfragment⟩

theorem components_of_kept (hkept : Kept d) :
    splitComponents (44 :: d.texts.flatten) = d.texts ∧ ∃ uris, d.texts.mapM uriOf = .ok uris := by
  have hfirst : ∃ u, ofString [] = .ok u := ⟨_, rfl⟩
  rw [splitComponents_comma]
  obtain htexts | ⟨text, htexts, hne, hwhole, hu⟩ := hkept.components
  · rw [htexts]
    refine ⟨rfl, exists_mapM fun component hmem => ?_⟩
    rw [mem_singleton.mp hmem]
    exact hfirst
  · have hflatten : [([] : ByteString), text].flatten = text := by
      rw [flatten_cons, nil_append, flatten_singleton]
    rw [htexts, hflatten, splitComponents_of_whole hwhole, if_neg hne]
    refine ⟨rfl, exists_mapM fun component hmem => ?_⟩
    obtain rfl | hmem := mem_cons.mp hmem
    · exact hfirst
    · rw [mem_singleton.mp hmem]
      exact hu

theorem stripPrefix_slashPath (path : ByteString) : stripPrefix (slashPath path path) (ascii "/") = path := by
  rw [slashPath]
  split_ifs with hnil
  · rw [hnil]
    rfl
  · exact stripPrefix_slash path

theorem roundTrips_of_kept (h : IsComposite d) (hkept : Kept d) : RoundTrips getenv d := by
  obtain ⟨u, hu, hssp, hfragment⟩ := toURI_of_kept h hkept
  obtain ⟨hsplit, uris, huris⟩ := components_of_kept hkept
  obtain ⟨hopening, hclosing, hmark⟩ := hkept.path
  have hslash : ∀ {c : UInt8}, c ≠ 47 → c ∉ d.path → c ∉ slashPath d.path d.path := by
    intro c hc hpath
    rw [slashPath]
    split_ifs
    · exact not_mem_nil
    · exact fun hmem => (mem_cons.mp hmem).elim hc hpath
  have hstring : decode u.uri.schemeSpecificPart =
      .ok (40 :: (44 :: d.texts.flatten ++ 41 :: (slashPath d.path d.path ++ marked 63 none))) := by
    rw [hssp, decode_eq_self.mpr hkept.body.2, body_of_kept h hkept]
  have hclosed : 41 ∉ slashPath d.path d.path ++ marked 63 none := by
    rw [marked, append_nil]
    exact hslash (by decide) hclosing
  have hcheck : checkParenthesis (40 :: (44 :: d.texts.flatten ++ 41 :: (slashPath d.path d.path ++ marked 63 none))) = true := by
    apply decide_eq_true
    rw [marked, append_nil]
    simp only [cons_append, count_cons, count_append, count_slashPath (c := 40) (by decide),
      count_slashPath (c := 41) (by decide), balanced_texts h, count_eq_zero.mpr hopening,
      count_eq_zero.mpr hclosing]
    simp
  have hparse := (parseComposite_iff getenv hstring (stripPrefix_opening _) hclosed (hslash (by decide) hmark)).mpr
    ⟨hcheck, uris, OrderedMap.empty, d.fragment, by rw [hsplit]; exact huris, rfl,
      by rw [hfragment]; exact decode_eq_self.mpr hkept.fragment.2, rfl⟩
  exact ⟨u, _, hu, hparse, (texts_of_mapM huris).1, stripPrefix_slashPath d.path, hkept.parameters.symm, rfl⟩

/-- **When a composite URI comes back**, and that the components of a string are those that were joined. -/
theorem composite_roundTrip_iff (getenv : ByteString → Except Failure ByteString) :
    (∀ d, IsComposite d → (RoundTrips getenv d ↔ Kept d)) ∧
      ∀ components : List ByteString, (∀ component ∈ components, component ≠ [] ∧ Nested parentheses component) →
        splitComponents ((ascii ",").intercalate components) = components :=
  ⟨fun _ h => ⟨kept_of_roundTrips h, roundTrips_of_kept h⟩, fun _ h => splitComponents_intercalate h⟩

end Back

/-- `failover:(tcp://a:1,tcp://b:2)/p?a=b#f`. -/
def failover : CompositeData where
  scheme := ascii "failover"
  components := [(URI.ofString (ascii "tcp://a:1")).toOption.getD {}, (URI.ofString (ascii "tcp://b:2")).toOption.getD {}]
  path := ascii "p"
  parameters := OrderedMap.empty.insert (ascii "a") (ascii "b")
  fragment := ascii "f"

/-- It is printed as `failover:(,tcp://a:1tcp://b:2)/p?#f`. -/
theorem failover_lost : IsComposite failover ∧ ¬ RoundTrips (fun _ => .ok []) failover := by
  have h : IsComposite failover := ⟨⟨by decide +kernel, by decide +kernel⟩, rfl, cons_ne_nil _ _, by decide +kernel⟩
  refine ⟨h, fun hround => ?_⟩
  have hempty := congrArg OrderedMap.entries (kept_of_roundTrips h hround).parameters
  cases hempty

/-- What comes back: an empty component and another one. -/
theorem composite_comes_back :
    RoundTrips (fun _ => .ok [])
      { scheme := ascii "failover"
        components := [(ofString []).toOption.getD {}, (ofString (ascii "a:(b,c)")).toOption.getD {}] } ∧
      splitComponents (ascii "a:(b,c),d") = [ascii "a:(b,c)", ascii "d"] := by
  have hcomposite : IsComposite
      { scheme := ascii "failover"
        components := [(ofString []).toOption.getD {}, (ofString (ascii "a:(b,c)")).toOption.getD {}] } :=
    ⟨⟨by decide +kernel, by decide +kernel⟩, rfl, cons_ne_nil _ _, by decide +kernel⟩
  have hnested : Nested parentheses (ascii "a:(b,c)") := by decide +kernel
  have haccepted : ofString (ascii "a:(b,c)") = .ok ((ofString (ascii "a:(b,c)")).toOption.getD {}) := by
    decide +kernel
  constructor
  · apply ((composite_roundTrip_iff _).1 _ hcomposite).mpr
    refine ⟨rfl, .inr ⟨ascii "a:(b,c)", by decide +kernel, by decide +kernel, hnested.whole, _, haccepted⟩,
      by decide +kernel, ⟨validate_iff.mp (by decide +kernel), by decide +kernel⟩, .nil, not_mem_nil⟩
  · exact (composite_roundTrip_iff fun _ => .ok []).2 [ascii "a:(b,c)", ascii "d"] (by decide +kernel)

end ActiveMQCpp.Util
