import ActiveMQCpp.DecafURIConstructors
import ActiveMQCpp.LibNesting
import ActiveMQCpp.UtilURISupport

/-! Composite URIs: `CompositeData::toURI`, which prints one, and `URISupport::parseComposite`, which splits it at the commas
that are outside of parentheses. -/

namespace ActiveMQCpp.Util

open Codec Decaf Words Decaf.URIHelper Decaf.URIEncoderDecoder List

structure CompositeData where
  host : ByteString := []
  scheme : ByteString := []
  path : ByteString := []
  components : List URI := []
  parameters : Properties := OrderedMap.empty
  fragment : ByteString := []

/-- What `parseComposite` throws: its own `URISyntaxException`, and what comes from the URIs and from the query. -/
inductive CompositeException where
  | syntaxException (input reason : ByteString)
  | uri (e : URIException)
  | query (e : Failure)

namespace CompositeData

def printComponents : (firstTime : Bool) → List URI → ByteString
  | _, [] => []
  | firstTime, component :: components =>
    (if firstTime = true then ascii "," else []) ++ component.toString ++ printComponents false components

def body (d : CompositeData) : ByteString :=
  (if d.host ≠ [] then d.host else ascii "(" ++ printComponents true d.components ++ ascii ")") ++
    URI.behind (ascii "/") d.path d.path ++
    (if d.parameters.entries ≠ [] then ascii "?" ++ URISupport.createQueryString d.parameters else [])

def text (d : CompositeData) : ByteString :=
  URI.before d.scheme (ascii ":") ++ d.body ++ URI.behind (ascii "#") d.fragment d.fragment

def toURI (d : CompositeData) : Except URIException URI := URI.ofString d.text

end CompositeData

namespace URISupport

def stripPrefix (value strip : ByteString) : ByteString := if strip <+: value then value.drop strip.length else value

/-- As many parentheses are opened as are closed. -/
def checkParenthesis (str : ByteString) : Bool := str.count 40 = str.count 41

/-- The variables of the loop of `splitComponents`. -/
structure SplitState where
  components : List ByteString := []
  last : Nat := 0
  depth : Int := 0

def splitStep (str : ByteString) (i : Nat) (c : UInt8) (s : SplitState) : SplitState :=
  if c = 40 then { s with depth := s.depth + 1 }
  else if c = 41 then { s with depth := s.depth - 1 }
  else if c = 44 ∧ s.depth = 0 then
    { s with components := s.components ++ [(str.drop s.last).take (i - s.last)], last := i + 1 }
  else s

def splitLoop (str : ByteString) : (i : Nat) → ByteString → SplitState → SplitState
  | _, [], s => s
  | i, c :: rest, s => splitLoop str (i + 1) rest (splitStep str i c s)

def splitComponents (str : ByteString) : List ByteString :=
  let s := splitLoop str 0 str {}
  let rest := str.drop s.last
  if rest.length ≠ 0 then s.components ++ [rest] else s.components

variable (getenv : ByteString → Except Failure ByteString)
variable {str : ByteString}

/-- The strings between the outer parentheses and behind them. The host, which is what stands before the first one, is
empty: it is only looked for at the start. -/
def splitComposite (ssp : ByteString) : ByteString × ByteString :=
  if find 40 ssp 0 = some 0 then
    match rfind 41 ssp with
    | some p => ((ssp.drop 1).take (p - 1), ssp.drop (p + 1))
    | none => (ssp.drop 1, ssp)
  else (ssp, [])

def readParams (params : ByteString) : Except CompositeException (ByteString × Properties) :=
  match find 63 params 0 with
  | some p =>
    match parseQuery getenv (params.drop (p + 1)) with
    | .ok parameters => .ok (if p > 0 then stripPrefix (params.take p) (ascii "/") else [], parameters)
    | .error e => .error (.query e)
  | none => .ok (if params.length > 0 then stripPrefix params (ascii "/") else [], OrderedMap.empty)

def uriOf (component : ByteString) : Except CompositeException URI := (URI.ofString component).mapError .uri

/-- `parseComposite(uri, rc, ssp)`. The message of the exception is given as the input, and the text of the URI as the
reason. -/
def parseCompositeInto (u : URI) (rc : CompositeData) (ssp : ByteString) : Except CompositeException CompositeData :=
  if checkParenthesis ssp then do
    let (componentString, params) := splitComposite ssp
    let components ← (splitComponents componentString).mapM uriOf
    let (path, parameters) ← readParams getenv params
    pure { rc with components := rc.components ++ components, path, parameters }
  else .error (.syntaxException (ascii "%s, Not a matching number of '(' and ')' parenthesis") u.toString)

def parseComposite (u : URI) : Except CompositeException CompositeData := do
  let ssp ← (decode u.uri.schemeSpecificPart).mapError .uri
  let result ← parseCompositeInto getenv u { scheme := u.uri.scheme } (stripPrefix ssp (ascii "//"))
  let fragment ← u.getFragment.mapError .uri
  pure { result with fragment }

/-! ### The components of a string -/

open Nesting

def parentheses : Marks UInt8 := ⟨40, 41, 44, by decide⟩

/-- The check does not see whether a parenthesis is closed before it is opened: it is the depth behind the string. -/
theorem checkParenthesis_iff : checkParenthesis str = true ↔ depthAfter parentheses 0 str = 0 := by
  have hdepth := depthAfter_eq_count (m := parentheses) 0 str
  have hopening : parentheses.opening = 40 := rfl
  have hclosing : parentheses.closing = 41 := rfl
  rw [hopening, hclosing] at hdepth
  rw [checkParenthesis, decide_eq_true_eq]
  omega

theorem take_succ_of_drop {α : Type} {xs ys : List α} {c : α} {n : Nat} (h : xs.drop n = c :: ys) :
    xs.take (n + 1) = xs.take n ++ [c] := by
  rw [take_add_one, ← List.head?_drop, h]
  rfl

/-- What the loop has found and what is left of the string are the pieces that were to be found. -/
theorem splitLoop_eq {rest : ByteString} {i : Nat} {s : SplitState} (hrest : str.drop i = rest) (hlast : s.last ≤ i) :
    (splitLoop str i rest s).components ++ [str.drop (splitLoop str i rest s).last] =
      s.components ++ pieces parentheses s.depth ((str.drop s.last).take (i - s.last)) rest := by
  induction rest generalizing i s with
  | nil =>
    have hlength := drop_eq_nil_iff.mp hrest
    rw [pieces, take_of_length_le]
    · rfl
    · rw [length_drop]
      omega
  | cons c rest ih =>
    have hnext : str.drop (i + 1) = rest := by
      rw [← drop_drop, hrest]
      rfl
    have hpiece : (str.drop s.last).take (i + 1 - s.last) = (str.drop s.last).take (i - s.last) ++ [c] := by
      rw [Nat.succ_sub hlast]
      have hdrop : (str.drop s.last).drop (i - s.last) = c :: rest := by
        rw [drop_drop, Nat.add_sub_cancel' hlast]
        exact hrest
      exact take_succ_of_drop hdrop
    have hturn : pieces parentheses s.depth ((str.drop s.last).take (i - s.last)) (c :: rest) =
        if c = 44 ∧ s.depth = 0 then (str.drop s.last).take (i - s.last) :: pieces parentheses s.depth [] rest
        else pieces parentheses (if c = 40 then s.depth + 1 else if c = 41 then s.depth - 1 else s.depth)
          ((str.drop s.last).take (i + 1 - s.last)) rest := by
      rw [hpiece]
      rfl
    rw [splitLoop, splitStep, hturn]
    split_ifs with hopen hcomma hclose hcomma hcomma
    · rw [hopen] at hcomma
      cases hcomma.1
    · exact ih (s := { s with depth := s.depth + 1 }) hnext (Nat.le_succ_of_le hlast)
    · rw [hclose] at hcomma
      cases hcomma.1
    · exact ih (s := { s with depth := s.depth - 1 }) hnext (Nat.le_succ_of_le hlast)
    · have hfound := ih (s := { s with
        components := s.components ++ [(str.drop s.last).take (i - s.last)]
        last := i + 1 }) hnext le_rfl
      rw [hfound, append_assoc, Nat.sub_self, take_zero]
      rfl
    · exact ih hnext (Nat.le_succ_of_le hlast)

/-- The components are the pieces, without a last one that is empty. -/
theorem splitComponents_eq (str : ByteString) : ∃ before last, pieces parentheses 0 [] str = before ++ [last] ∧
      splitComponents str = if last = [] then before else before ++ [last] := by
  have hloop := splitLoop_eq (s := {}) (drop_zero : str.drop 0 = str) le_rfl
  refine ⟨(splitLoop str 0 str {}).components, str.drop (splitLoop str 0 str {}).last, hloop.symm, ?_⟩
  rw [splitComponents]
  simp only [ne_eq, length_eq_zero_iff, ite_not]

theorem splitComponents_of_whole (h : Whole parentheses 0 str) :
    splitComponents str = if str = [] then [] else [str] := by
  obtain ⟨before, last, hpieces, hsplit⟩ := splitComponents_eq str
  rw [pieces_of_whole h] at hpieces
  obtain ⟨rfl, hlast⟩ := append_inj' (show [] ++ [str] = before ++ [last] from hpieces) rfl
  cases hlast
  exact hsplit

theorem splitComponents_comma (str : ByteString) : splitComponents (44 :: str) = [] :: splitComponents str := by
  obtain ⟨before, last, hpieces, hsplit⟩ := splitComponents_eq str
  obtain ⟨before', last', hpieces', hsplit'⟩ := splitComponents_eq (44 :: str)
  have hcons : pieces parentheses 0 [] (44 :: str) = [] :: pieces parentheses 0 [] str := rfl
  rw [hcons, hpieces, ← cons_append] at hpieces'
  obtain ⟨rfl, hlast⟩ := append_inj' hpieces' rfl
  cases hlast
  rw [hsplit', hsplit]
  split_ifs <;> rfl

/-- Strings with matching parentheses and no commas outside of them are the components of the string that joins them. -/
theorem splitComponents_intercalate {components : List ByteString}
    (h : ∀ component ∈ components, component ≠ [] ∧ Nested parentheses component) :
    splitComponents ((ascii ",").intercalate components) = components := by
  by_cases hempty : components = []
  · rw [hempty]
    rfl
  obtain ⟨before, last, hpieces, hsplit⟩ := splitComponents_eq ((ascii ",").intercalate components)
  have hjoined : pieces parentheses 0 [] ((ascii ",").intercalate components) = components :=
    pieces_intercalate hempty fun component hcomponent => (h component hcomponent).2
  rw [hjoined] at hpieces
  have hlast : last ≠ [] := (h last (by rw [hpieces]; exact mem_append_right _ (mem_singleton_self _))).1
  rw [hsplit, if_neg hlast, hpieces]

end URISupport

end ActiveMQCpp.Util
