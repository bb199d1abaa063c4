import ActiveMQCpp.DecafURIAuthority
import ActiveMQCpp.DecafURIPrint

/-! The constructors of a URI from its components: when the getters return them, and the string is read back. -/

namespace ActiveMQCpp.Decaf

open Character URIEncoderDecoder URIHelper URI List RootlessReference URIReference

namespace URIComponents

variable {legal path : ByteString}

/-! ### What a constructor puts together -/

def optional (component text : ByteString) : Option ByteString := if component = [] then none else some text

/-- The reference that the constructors write. -/
def composed (scheme : ByteString) (authority : Option ByteString) (path query fragment : ByteString) : URIReference :=
  { scheme := optional scheme scheme
    authority
    path := quoteIllegal path pathLegal
    query := optional query (quoteIllegal query allLegal)
    fragment := optional fragment (quoteIllegal fragment allLegal) }

theorem behind_optional (c : UInt8) (component text : ByteString) :
    behind [c] component text = marked c (optional component text) := by
  rw [behind, optional]
  split_ifs <;> rfl

theorem before_optional (scheme : ByteString) : before scheme (ascii ":") = schemed (optional scheme scheme) := by
  rw [before, optional]
  split_ifs <;> rfl

theorem mem_optional {component text s : ByteString} (h : s ∈ optional component text) : component ≠ [] ∧ s = text := by
  rw [optional] at h
  split_ifs at h with hempty
  · cases h
  · exact ⟨hempty, (Option.some.inj h).symm⟩

theorem optional_quoted {component : ByteString} (hpercent : (37 : UInt8) ∉ legal) :
    decode ((optional component (quoteIllegal component legal)).getD []) = .ok component := by
  rw [optional]
  split_ifs with hempty
  · rw [hempty]
    rfl
  · exact decode_quoteIllegal hpercent component

theorem count_optional_quoted {c : UInt8} (hlegal : c ∈ legal) (hpercent : c ≠ 37)
    (hdigit : digit c 16 = -1) (component : ByteString) :
    ((optional component (quoteIllegal component legal)).getD []).count c = component.count c := by
  rw [optional]
  split_ifs with hempty
  · rw [hempty]
    rfl
  · exact count_quoteIllegal hlegal hpercent hdigit component

/-! ### What a quoted path keeps -/

theorem path_not_mem (path : ByteString) : 63 ∉ quoteIllegal path pathLegal ∧ 35 ∉ quoteIllegal path pathLegal := by
  constructor
  · exact not_mem_quoteIllegal (by decide) (by decide) (by decide) (by decide) path
  · exact not_mem_quoteIllegal (by decide) (by decide) (by decide) (by decide) path

theorem quoteIllegal_cons_kept {c : UInt8} (h : isQuoted legal c = false) (s : ByteString) :
    quoteIllegal (c :: s) legal = c :: quoteIllegal s legal := by
  rw [quoteIllegal, flatMap_cons, quoteChar_of_kept h]
  rfl

theorem quoteIllegal_eq_nil {s : ByteString} : quoteIllegal s legal = [] ↔ s = [] := by
  constructor
  · intro h
    cases s with
    | nil => rfl
    | cons c s =>
      rw [quoteIllegal, flatMap_cons] at h
      obtain ⟨hnil, -⟩ := append_eq_nil_iff.mp h
      cases hquoted : isQuoted legal c with
      | true =>
        rw [quoteChar_of_quoted hquoted] at hnil
        cases hnil
      | false =>
        rw [quoteChar_of_kept hquoted] at hnil
        cases hnil
  · rintro rfl
    rfl

theorem head_quoted_path : (quoteIllegal path pathLegal).head? = some 47 ↔ path.head? = some 47 := by
  constructor
  · intro h
    cases hquoted : quoteIllegal path pathLegal with
    | nil =>
      rw [hquoted] at h
      cases h
    | cons c rest =>
      rw [hquoted] at h
      cases h
      obtain ⟨s₀, s₁, rfl, hnil, -⟩ := quoteIllegal_split (by decide) (by decide)
        (show quoteIllegal path pathLegal = [] ++ 47 :: rest from hquoted)
      rw [quoteIllegal_eq_nil.mp hnil]
      rfl
  · intro h
    cases path with
    | nil => cases h
    | cons c path =>
      cases h
      rw [quoteIllegal_cons_kept (by decide)]
      rfl

theorem slashes_quoted_path : [47, 47] <+: quoteIllegal path pathLegal ↔ [47, 47] <+: path := by
  constructor
  · rintro ⟨rest, hrest⟩
    obtain ⟨s₀, s₁, rfl, hnil, htail⟩ := quoteIllegal_split (by decide) (by decide)
      (show quoteIllegal path pathLegal = [] ++ 47 :: (47 :: rest) from hrest.symm)
    obtain ⟨t₀, t₁, rfl, hnil', -⟩ := quoteIllegal_split (by decide) (by decide)
      (show quoteIllegal s₁ pathLegal = [] ++ 47 :: rest from htail)
    rw [quoteIllegal_eq_nil.mp hnil, quoteIllegal_eq_nil.mp hnil']
    exact ⟨t₁, rfl⟩
  · rintro ⟨rest, rfl⟩
    show [47, 47] <+: quoteIllegal (47 :: 47 :: rest) pathLegal
    rw [quoteIllegal_cons_kept (by decide), quoteIllegal_cons_kept (by decide)]
    exact ⟨quoteIllegal rest pathLegal, rfl⟩

theorem nothing_before_path {a b : ByteString} (h : quoteIllegal path pathLegal = a ++ b)
    (hstart : b = [] ∨ b.head? = some 47) (hdecode : decode b = .ok path) : a = [] := by
  cases b with
  | nil =>
    cases hdecode
    exact (append_eq_nil_iff.mp h.symm).1
  | cons c rest =>
    rcases hstart with hnil | hhead
    · cases hnil
    · cases hhead
      obtain ⟨s₀, s₁, rfl, rfl, rfl⟩ := quoteIllegal_split (by decide) (by decide) h
      rw [← quoteIllegal_cons_kept (by decide), decode_quoteIllegal (by decide)] at hdecode
      have hlen := congrArg List.length (Except.ok.inj hdecode)
      cases s₀ with
      | nil => rfl
      | cons d s₀ =>
        simp only [length_append, length_cons] at hlen
        omega

/-! ### What is read of it -/

/-- What the getters return. -/
structure Gives (r : URIType) (authority path query fragment : ByteString) : Prop where
  authority : decode r.authority = .ok authority
  path : decode r.path = .ok path
  query : decode r.query = .ok query
  fragment : decode r.fragment = .ok fragment

/-- A scheme with a `:` that is read as a shorter one before an opaque part. -/
def Swallowed (scheme : ByteString) : Prop :=
  ∃ a b, scheme = a ++ 58 :: b ∧ ((58 ∉ a ∧ 47 ∉ a ∧ 63 ∉ a) ∧ 35 ∉ a) ∧ b.head? ≠ some 47 ∧ 35 ∉ b

/-- An authority and what the getter is to return of it: the authority has no fewer `:`, and what stands in it before
a mark is not it. -/
structure Written (authority : Option ByteString) (given : ByteString) : Prop where
  empty : given = [] ↔ authority.getD [] = []
  colons : given.count 58 ≤ (authority.getD []).count 58
  marks : ∀ a c b, authority = some (a ++ c :: b) → c = 47 ∨ c = 63 ∨ c = 35 → decode a ≠ .ok given

section Read

variable {scheme path query fragment given : ByteString} {authority : Option ByteString} {ref : URIReference}
  {server : Option ServerAuthority}
variable {c : UInt8} {a b : ByteString} {forceServer : Bool}

theorem count_marked {mark : UInt8} (hne : mark ≠ c) (o : Option ByteString) :
    (marked mark o).count c = (o.getD []).count c := by
  cases o with
  | none => rfl
  | some part => exact count_cons_of_ne hne

theorem count_slashed (hne : 47 ≠ c) (o : Option ByteString) : (slashed o).count c = (o.getD []).count c := by
  cases o with
  | none => rfl
  | some part => exact (count_cons_of_ne hne).trans (count_cons_of_ne hne)

theorem count_text (ref : URIReference) :
    ref.text.count 58 = (schemed ref.scheme).count 58 + ((ref.authority.getD []).count 58 + ref.path.count 58 +
      (ref.query.getD []).count 58) + (ref.fragment.getD []).count 58 := by
  rw [URIReference.text, URIReference.schemeSpecificPart, List.count_append, List.count_append, List.count_append,
    List.count_append, count_marked (by decide), count_marked (by decide), count_slashed (by decide)]

theorem scheme_read (hdelimited : ref.Delimited) (hwritten : Written authority given) (hscheme : scheme ≠ [])
    (htext : ref.text = (composed scheme authority path query fragment).text)
    (hgives : Gives (ref.type server) given path query fragment) : ref.scheme = some scheme := by
  have hcount := congrArg (List.count 58) htext
  have hauthority := (decodes_of_decode hgives.authority).count_le (c := 58) (by decide) (by decide)
  have hpath := (decodes_of_decode hgives.path).count_le (c := 58) (by decide) (by decide)
  have hquery := (decodes_of_decode hgives.query).count_le (c := 58) (by decide) (by decide)
  have hfragment := (decodes_of_decode hgives.fragment).count_le (c := 58) (by decide) (by decide)
  have hcolons := hwritten.colons
  have hwrittenScheme : (composed scheme authority path query fragment).scheme = some scheme := if_neg hscheme
  rw [count_text, count_text, hwrittenScheme, show schemed (some scheme) = scheme ++ [58] from rfl, count_append,
    count_singleton_self] at hcount
  have hall : ∀ s, ((optional s (quoteIllegal s allLegal)).getD []).count 58 = s.count 58 :=
    fun s => count_optional_quoted (by decide) (by decide) (by decide) s
  have hpathCount : (quoteIllegal path pathLegal).count 58 = path.count 58 :=
    count_quoteIllegal (by decide) (by decide) (by decide) path
  simp only [composed, hall, hpathCount] at hcount
  simp only [URIReference.type] at hauthority hpath hquery hfragment
  cases hread : ref.scheme with
  | none =>
    rw [hread, schemed, count_nil] at hcount
    omega
  | some a =>
    have hcolon : 58 ∉ a := (hdelimited.scheme a hread).1.1
    rw [hread, schemed, count_append, count_singleton_self, count_eq_zero.mpr hcolon] at hcount
    have hnone : 58 ∉ scheme := by
      rw [← count_eq_zero]
      omega
    rw [URIReference.text, URIReference.text, hread, hwrittenScheme, schemed, schemed, List.append_assoc,
      append_assoc, append_assoc, append_assoc] at htext
    obtain ⟨heq, -⟩ := marked_injective hcolon hnone
      (show a ++ marked 58 (some _) = scheme ++ marked 58 (some _) from htext)
    exact congrArg some heq

def endsPath (c : UInt8) : Bool := c == 63 || c == 35

def endsAuthority (c : UInt8) : Bool := c == 47 || endsPath c

theorem endsPath_eq_false : endsPath c = false ↔ c ≠ 63 ∧ c ≠ 35 := by
  rw [endsPath, Bool.or_eq_false_iff, beq_eq_false_iff_ne, beq_eq_false_iff_ne]

theorem endsAuthority_eq_false : endsAuthority c = false ↔ c ≠ 47 ∧ c ≠ 63 ∧ c ≠ 35 := by
  rw [endsAuthority, Bool.or_eq_false_iff, beq_eq_false_iff_ne, endsPath_eq_false]

theorem free_of_not_mem {s : ByteString} (h : 63 ∉ s ∧ 35 ∉ s) : ∀ c ∈ s, endsPath c = false :=
  fun _ hc => endsPath_eq_false.mpr ⟨fun heq => h.1 (heq ▸ hc), fun heq => h.2 (heq ▸ hc)⟩

theorem head_marks (query fragment : Option ByteString) :
    ∀ c ∈ (marked 63 query ++ marked 35 fragment).head?, endsPath c = true := by
  cases query with
  | some q =>
    rintro _ ⟨⟩
    rfl
  | none =>
    cases fragment with
    | some f =>
      rintro _ ⟨⟩
      rfl
    | none => exact fun c hc => absurd hc (Option.not_mem_none c)

theorem head_path_marks {path : ByteString} (hpath : path = [] ∨ path.head? = some 47) (query fragment : Option ByteString) :
    ∀ c ∈ (path ++ (marked 63 query ++ marked 35 fragment)).head?, endsAuthority c = true := by
  intro c hc
  rcases hpath with rfl | hhead
  · rw [nil_append] at hc
    rw [endsAuthority, head_marks query fragment c hc, Bool.or_true]
  · cases path with
    | nil => cases hhead
    | cons d path =>
      cases hhead
      cases hc
      rfl

theorem first_mark (p : UInt8 → Bool) (s : ByteString) :
    (∀ c ∈ s, p c = false) ∨ ∃ a c b, s = a ++ c :: b ∧ p c = true ∧ ∀ d ∈ a, p d = false := by
  induction s with
  | nil => exact .inl fun c hc => absurd hc not_mem_nil
  | cons c s ih =>
    cases hp : p c with
    | true => exact .inr ⟨[], c, s, rfl, hp, fun d hd => absurd hd not_mem_nil⟩
    | false =>
      have hcons : ∀ {a : ByteString}, (∀ d ∈ a, p d = false) → ∀ d ∈ c :: a, p d = false :=
        fun ha => forall_mem_cons.mpr ⟨hp, ha⟩
      rcases ih with hfree | ⟨a, d, b, rfl, hd, ha⟩
      · exact .inl (hcons hfree)
      · exact .inr ⟨c :: a, d, b, rfl, hd, hcons ha⟩

theorem path_read {q q' f f' : Option ByteString} (ha : 63 ∉ a ∧ 35 ∉ a) (hb : 63 ∉ b ∧ 35 ∉ b)
    (h : a ++ (marked 63 q ++ marked 35 f) = b ++ (marked 63 q' ++ marked 35 f')) : a = b :=
  (prefix_injective (free_of_not_mem ha) (free_of_not_mem hb) (head_marks q f) (head_marks q' f') h).1

theorem authority_read (hdelimited : ref.Delimited) (hwritten : Written (some a) given)
    (htext : ref.schemeSpecificPart ++ marked 35 ref.fragment =
      (composed scheme (some a) path query fragment).schemeSpecificPart ++
        marked 35 (composed scheme (some a) path query fragment).fragment)
    (hgives : Gives (ref.type server) given path query fragment) :
    (∀ c ∈ a, endsAuthority c = false) ∧ (path = [] ∨ path.head? = some 47) := by
  rw [URIReference.schemeSpecificPart, URIReference.schemeSpecificPart, List.append_assoc, List.append_assoc,
    List.append_assoc, List.append_assoc] at htext
  have hsome : ∃ b, ref.authority = some b := by
    cases hauthority : ref.authority with
    | some b => exact ⟨b, rfl⟩
    | none =>
      exfalso
      rw [hauthority, slashed, List.nil_append] at htext
      have hmarks : ∀ {c : UInt8} {s : ByteString}, marked 63 ref.query ++ marked 35 ref.fragment = c :: s → c ≠ 47 := by
        rintro c s hs rfl
        cases head_marks ref.query ref.fragment 47 (by rw [hs]; rfl)
      have hno := hdelimited.rooted.noAuthority hauthority
      rcases hpath : ref.path with - | ⟨c, - | ⟨d, rest⟩⟩
      · rw [hpath] at htext
        exact hmarks htext rfl
      · rw [hpath] at htext
        exact hmarks (List.cons.inj htext).2 rfl
      · rw [hpath] at htext hno
        obtain ⟨hc, htail⟩ := List.cons.inj htext
        rw [hc, (List.cons.inj htail).1] at hno
        exact hno ⟨rest, rfl⟩
  obtain ⟨b, hb⟩ := hsome
  have hrooted := hdelimited.rooted.rooted (hb ▸ Option.some_ne_none b)
  have hfree : ∀ c ∈ b, endsAuthority c = false := fun c hc => endsAuthority_eq_false.mpr
    ⟨fun heq => hdelimited.rooted.noSlash b hb (heq ▸ hc), fun heq => (hdelimited.authority b hb).1 (heq ▸ hc),
      fun heq => (hdelimited.authority b hb).2 (heq ▸ hc)⟩
  have hdecode : decode b = .ok given := by
    have h := hgives.authority
    rwa [URIReference.type, hb] at h
  rw [hb] at htext
  have htail : b ++ (ref.path ++ (marked 63 ref.query ++ marked 35 ref.fragment)) =
      a ++ (quoteIllegal path pathLegal ++ (marked 63 (composed scheme (some a) path query fragment).query ++
        marked 35 (composed scheme (some a) path query fragment).fragment)) :=
    (List.cons.inj (List.cons.inj htext).2).2
  rcases first_mark endsAuthority a with hwhole | ⟨x, c, y, rfl, hc, hx⟩
  · refine ⟨hwhole, ?_⟩
    obtain ⟨first, rest, hfirst, hquoted⟩ := marked_cases 47 (quoteIllegal path pathLegal)
    obtain ⟨hmark, hhash⟩ := path_not_mem path
    rw [hquoted] at hmark hhash htail
    have hfirstFree : ∀ c ∈ first, endsAuthority c = false := fun c hc => endsAuthority_eq_false.mpr
      ⟨fun heq => hfirst (heq ▸ hc), fun heq => hmark (heq ▸ List.mem_append_left _ hc),
        fun heq => hhash (heq ▸ List.mem_append_left _ hc)⟩
    have hroot : marked 47 rest = [] ∨ (marked 47 rest).head? = some 47 := by
      cases rest with
      | none => exact .inl rfl
      | some rest => exact .inr rfl
    rw [List.append_assoc, ← List.append_assoc a] at htail
    obtain ⟨-, hpaths⟩ := prefix_injective hfree
      (fun c hc => (List.mem_append.mp hc).elim (hwhole c) (hfirstFree c)) (head_path_marks hrooted _ _)
      (head_path_marks hroot _ _) htail
    have hpath : ref.path = marked 47 rest := path_read hdelimited.path
      ⟨fun hc => hmark (List.mem_append_right _ hc), fun hc => hhash (List.mem_append_right _ hc)⟩ hpaths
    have hnothing : first = [] := nothing_before_path hquoted hroot (hpath ▸ hgives.path)
    rw [hnothing, List.nil_append] at hquoted
    rw [← hquoted] at hroot
    exact hroot.imp quoteIllegal_eq_nil.mp head_quoted_path.mp
  · exfalso
    rw [List.append_assoc, List.cons_append] at htail
    obtain ⟨rfl, -⟩ := prefix_injective hfree hx (head_path_marks hrooted _ _)
      (fun d hd => by cases hd; exact hc) htail
    refine hwritten.marks b c y rfl ?_ hdecode
    rw [endsAuthority, endsPath, Bool.or_eq_true, Bool.or_eq_true, beq_iff_eq, beq_iff_eq, beq_iff_eq] at hc
    exact hc

/-- Without an authority the path is read from its start, unless a scheme or an authority is found in it. -/
theorem path_read_whole (hdelimited : ref.Delimited) {before : ByteString}
    (hbefore : 63 ∉ before ∧ 35 ∉ before) (hstart : before ≠ [] → ref.path = [] ∨ ref.path.head? = some 47)
    {q f : Option ByteString} (htext : before ++ ref.path ++ (marked 63 ref.query ++ marked 35 ref.fragment) =
      quoteIllegal path pathLegal ++ (marked 63 q ++ marked 35 f))
    (hdecode : decode ref.path = .ok path) : before = [] ∧ ref.path = quoteIllegal path pathLegal := by
  have hquoted : before ++ ref.path = quoteIllegal path pathLegal := by
    refine path_read ⟨?_, ?_⟩ (path_not_mem path) htext
    · exact not_mem_append hbefore.1 hdelimited.path.1
    · exact not_mem_append hbefore.2 hdelimited.path.2
  have hnothing : before = [] := by
    by_contra hne
    exact hne (nothing_before_path hquoted.symm (hstart hne) hdecode)
  rw [hnothing, nil_append] at hquoted
  exact ⟨hnothing, hquoted⟩

/-- **What is read with all its components was written with its marks in their places.** -/
theorem delimited_of_read (hdelimited : ref.Delimited) (hwritten : Written authority given)
    (htext : ref.text = (composed scheme authority path query fragment).text)
    (hgives : Gives (ref.type server) given path query fragment) :
    (composed scheme authority path query fragment).Delimited := by
  have hread : scheme ≠ [] → ref.scheme = some scheme :=
    fun hne => scheme_read hdelimited hwritten hne htext hgives
  have hscheme : ∀ a ∈ optional scheme scheme, (58 ∉ a ∧ 47 ∉ a ∧ 63 ∉ a) ∧ 35 ∉ a := by
    intro a ha
    obtain ⟨hne, rfl⟩ := mem_optional ha
    exact hdelimited.scheme a (hread hne)
  have hquery : ∀ q ∈ optional query (quoteIllegal query allLegal), 35 ∉ q := by
    intro q hq
    obtain ⟨-, rfl⟩ := mem_optional hq
    exact not_mem_quoteIllegal (by decide) (by decide) (by decide) (by decide) query
  cases hauthority : authority with
  | some a =>
    subst hauthority
    have hsame : ref.scheme = optional scheme scheme := by
      by_cases hne : scheme = []
      · rw [optional, if_pos hne]
        cases hs : ref.scheme with
        | none => rfl
        | some b =>
          exfalso
          rw [URIReference.text, URIReference.text, hs, composed, optional, if_pos hne] at htext
          cases b with
          | nil => cases (List.cons.inj htext).1
          | cons c b =>
            have hc : c = 47 := (List.cons.inj htext).1
            exact (hdelimited.scheme _ hs).1.2.1 (hc ▸ mem_cons_self)
      · rw [optional, if_neg hne, hread hne]
    have hssp : ref.schemeSpecificPart ++ marked 35 ref.fragment =
        (composed scheme (some a) path query fragment).schemeSpecificPart ++
          marked 35 (composed scheme (some a) path query fragment).fragment := by
      rw [URIReference.text, URIReference.text, List.append_assoc, List.append_assoc, hsame] at htext
      exact append_cancel_left htext
    obtain ⟨hfree, hroot⟩ := authority_read hdelimited hwritten hssp hgives
    have hmarks : ∀ c ∈ a, c ≠ 47 ∧ c ≠ 63 ∧ c ≠ 35 := fun c hc => endsAuthority_eq_false.mp (hfree c hc)
    exact
      { scheme := hscheme
        schemeless := fun _ hnone => absurd hnone (Option.some_ne_none a)
        leading := fun _ hnone => absurd hnone (Option.some_ne_none a)
        rooted :=
          { noAuthority := fun hnone => absurd hnone (Option.some_ne_none a)
            noSlash := by
              rintro _ ⟨⟩ hmem
              exact (hmarks 47 hmem).1 rfl
            rooted := fun _ => hroot.imp quoteIllegal_eq_nil.mpr head_quoted_path.mpr }
        authority := by
          rintro _ ⟨⟩
          exact ⟨fun hmem => (hmarks 63 hmem).2.1 rfl, fun hmem => (hmarks 35 hmem).2.2 rfl⟩
        path := path_not_mem path
        query := hquery }
  | none =>
    subst hauthority
    have hslashed : 63 ∉ slashed ref.authority ∧ 35 ∉ slashed ref.authority := by
      have h := hgives.authority
      rw [hwritten.empty.mpr rfl] at h
      cases hb : ref.authority with
      | none => exact ⟨not_mem_nil, not_mem_nil⟩
      | some b =>
        rw [URIReference.type, hb] at h
        have hnil : b = [] := (decodes_of_decode (show decode b = .ok [] from h)).eq_nil
        rw [hnil]
        exact ⟨by decide, by decide⟩
    have hsame : ref.scheme = optional scheme scheme ∧ ref.authority = none ∧ ref.path = quoteIllegal path pathLegal := by
      have hroot : ref.authority ≠ none → ref.path = [] ∨ ref.path.head? = some 47 := hdelimited.rooted.rooted
      rw [URIReference.text, URIReference.text, URIReference.schemeSpecificPart, URIReference.schemeSpecificPart] at htext
      by_cases hne : scheme = []
      · have hno : optional scheme scheme = none := if_pos hne
        have hbefore : 63 ∉ schemed ref.scheme ++ slashed ref.authority ∧
            35 ∉ schemed ref.scheme ++ slashed ref.authority := by
          cases hs : ref.scheme with
          | none => exact hslashed
          | some a =>
            obtain ⟨⟨-, -, hmark⟩, hhash⟩ := hdelimited.scheme a hs
            exact ⟨not_mem_append (not_mem_append hmark (by decide)) hslashed.1,
              not_mem_append (not_mem_append hhash (by decide)) hslashed.2⟩
        have hstart : schemed ref.scheme ++ slashed ref.authority ≠ [] →
            ref.path = [] ∨ ref.path.head? = some 47 := by
          intro hnonempty
          rcases eq_or_ne ref.authority none with hnone | hsome
          · right
            apply hdelimited.leading _ hnone
            rintro hs
            rw [hs, hnone] at hnonempty
            exact hnonempty rfl
          · exact hroot hsome
        rw [composed, hno, schemed, slashed, nil_append, nil_append, ← append_assoc, ← append_assoc,
          append_assoc, append_assoc (quoteIllegal path pathLegal)] at htext
        obtain ⟨hnothing, hpath⟩ := path_read_whole hdelimited hbefore hstart htext hgives.path
        obtain ⟨hs, ha⟩ := append_eq_nil_iff.mp hnothing
        refine ⟨?_, ?_, hpath⟩
        · rw [hno]
          cases hs' : ref.scheme with
          | none => rfl
          | some a =>
            rw [hs', schemed] at hs
            exact absurd hs (append_ne_nil_of_right_ne_nil a (cons_ne_nil 58 []))
        · cases ha' : ref.authority with
          | none => rfl
          | some a =>
            rw [ha'] at ha
            cases ha
      · have hsome : optional scheme scheme = some scheme := if_neg hne
        rw [composed, hsome, hread hne, append_assoc, append_assoc (schemed (some scheme))] at htext
        have hrest := append_cancel_left htext
        rw [slashed, nil_append, append_assoc, append_assoc (quoteIllegal path pathLegal)] at hrest
        have hstart : slashed ref.authority ≠ [] → ref.path = [] ∨ ref.path.head? = some 47 := by
          intro hnonempty
          apply hroot
          intro hnone
          rw [hnone] at hnonempty
          exact hnonempty rfl
        obtain ⟨ha, hpath⟩ := path_read_whole hdelimited hslashed hstart hrest hgives.path
        refine ⟨(hread hne).trans hsome.symm, ?_, hpath⟩
        cases ha' : ref.authority with
        | none => rfl
        | some a =>
          rw [ha'] at ha
          cases ha
    obtain ⟨hs, hno, hpath⟩ := hsame
    exact
      { scheme := hscheme
        schemeless := fun hnone _ a b hab => hdelimited.schemeless (hs.trans hnone) hno a b (hpath.trans hab)
        leading := fun hsome _ => (congrArg List.head? hpath).symm.trans (hdelimited.leading (hs ▸ hsome) hno)
        rooted :=
          { noAuthority := fun _ hslashes => hdelimited.rooted.noAuthority hno (hpath.symm ▸ hslashes)
            noSlash := fun a ha => absurd ha (Option.not_mem_none a)
            rooted := fun hne => absurd rfl hne }
        authority := fun a ha => absurd ha (Option.not_mem_none a)
        path := path_not_mem path
        query := hquery }

theorem rest_head {authority fragment : Option ByteString} (hempty : authority.getD [] = []) :
    ∀ c ∈ (slashed authority ++ marked 35 fragment).head?, c = 47 ∨ c = 35 := by
  match authority, fragment with
  | none, none => exact fun c hc => absurd hc (Option.not_mem_none c)
  | none, some f =>
    rintro _ ⟨⟩
    exact .inr rfl
  | some a, f =>
    rintro _ ⟨⟩
    exact .inl rfl

theorem no_hash_before {rest fragment : ByteString} {o : Option ByteString} (ha : 35 ∉ a)
    (hlegal : Legal allLegal (o.getD [])) (hdecode : decode (o.getD []) = .ok fragment)
    (h : a ++ marked 35 o = b ++ 58 :: rest ++ marked 35 (optional fragment (quoteIllegal fragment allLegal))) :
    35 ∉ b := by
  intro hmem
  obtain ⟨b₀, b₁, rfl, hb₀⟩ := eq_append_cons_of_mem hmem
  rw [append_assoc, append_assoc] at h
  obtain ⟨-, rfl⟩ := marked_injective ha hb₀ (show a ++ marked 35 o = b₀ ++ marked 35 (some _) from h)
  have hnone : 35 ∉ marked 35 (optional fragment (quoteIllegal fragment allLegal)) := by
    intro hin
    refine hlegal.not_mem (c := 35) (by decide) (by decide) (by decide) (by decide) ?_
    exact mem_append_right _ (mem_append_right _ hin)
  have hfragment : fragment = [] := by
    by_contra hne
    rw [optional, if_neg hne] at hnone
    exact hnone mem_cons_self
  rw [hfragment] at hdecode
  have hnil := (decodes_of_decode hdecode).eq_nil
  refine append_ne_nil_of_right_ne_nil b₁ ?_ hnil
  exact cons_ne_nil _ _

/-- **An opaque reference is read only of a scheme with nothing but a fragment behind it.** -/
theorem swallowed_of_read {ref : RootlessReference} (hdelimited : ref.Delimited) (hvalid : ref.Valid)
    (hwritten : Written authority given) (htext : ref.text = (composed scheme authority path query fragment).text)
    (hgives : Gives ref.type given path query fragment) :
    authority.getD [] = [] ∧ path = [] ∧ query = [] ∧ Swallowed scheme := by
  have hgiven : given = [] := (Except.ok.inj hgives.authority).symm
  have hpath : path = [] := (Except.ok.inj hgives.path).symm
  have hquery : query = [] := (Except.ok.inj hgives.query).symm
  have hempty := hwritten.empty.mp hgiven
  refine ⟨hempty, hpath, hquery, ?_⟩
  obtain ⟨⟨hcolon, hslash, hmark⟩, hhash⟩ := hdelimited.scheme
  have hparts : ref.scheme ++ marked 58 (some (ref.schemeSpecificPart ++ marked 35 ref.fragment)) =
      schemed (optional scheme scheme) ++
        (slashed authority ++ marked 35 (optional fragment (quoteIllegal fragment allLegal))) := by
    have hcomposed : (composed scheme authority path query fragment).text = schemed (optional scheme scheme) ++
        (slashed authority ++ [] ++ [] ++ marked 35 (optional fragment (quoteIllegal fragment allLegal))) := by
      rw [URIReference.text, composed, URIReference.schemeSpecificPart, hpath, hquery, List.append_assoc]
      rfl
    rw [hcomposed, RootlessReference.text, List.append_nil, List.append_nil, schemed, List.append_assoc,
      append_assoc] at htext
    exact htext
  have hrest : ∀ c ∈ (slashed authority ++ marked 35 (optional fragment (quoteIllegal fragment allLegal))).head?,
      c = 47 ∨ c = 35 := rest_head hempty
  by_cases hne : scheme = []
  · exfalso
    rw [optional, if_pos hne, schemed, nil_append] at hparts
    cases hs : ref.scheme with
    | nil => exact hvalid.scheme.ne_nil hs
    | cons c s =>
      rw [hs] at hslash hhash hparts
      rcases hrest c (hparts ▸ rfl) with rfl | rfl
      · exact hslash mem_cons_self
      · exact hhash mem_cons_self
  · rw [optional, if_neg hne, schemed, append_assoc] at hparts
    obtain ⟨a, o, ha, hsplit⟩ := marked_cases 58 scheme
    cases o with
    | none =>
      exfalso
      rw [marked, append_nil] at hsplit
      subst hsplit
      obtain ⟨-, hssp⟩ := marked_injective hcolon ha
        (show ref.scheme ++ marked 58 (some _) = scheme ++ marked 58 (some _) from hparts)
      have hssp : ref.schemeSpecificPart ++ marked 35 ref.fragment =
          slashed authority ++ marked 35 (optional fragment (quoteIllegal fragment allLegal)) := Option.some.inj hssp
      cases hs : ref.schemeSpecificPart with
      | nil => exact hvalid.present hs
      | cons c s =>
        have hrootless := hdelimited.rootless
        have hhash' := hdelimited.schemeSpecificPart
        rw [hs] at hrootless hhash' hssp
        rcases hrest c (hssp ▸ rfl) with rfl | rfl
        · exact hrootless rfl
        · exact hhash' mem_cons_self
    | some b =>
      subst hsplit
      rw [marked, append_assoc] at hparts
      obtain ⟨heq, hssp⟩ := marked_injective hcolon ha
        (show ref.scheme ++ marked 58 (some _) = a ++ marked 58 (some _) from hparts)
      have hssp : ref.schemeSpecificPart ++ marked 35 ref.fragment =
          b ++ 58 :: (slashed authority ++ marked 35 (optional fragment (quoteIllegal fragment allLegal))) :=
        Option.some.inj hssp
      refine ⟨a, b, rfl, heq ▸ hdelimited.scheme, ?_, ?_⟩
      · intro hhead
        cases b with
        | nil => cases hhead
        | cons c b =>
          cases hhead
          cases hs : ref.schemeSpecificPart with
          | nil => exact hvalid.present hs
          | cons d s =>
            have hrootless := hdelimited.rootless
            rw [hs] at hrootless hssp
            rw [(List.cons.inj hssp).1] at hrootless
            exact hrootless rfl
      · apply no_hash_before hdelimited.schemeSpecificPart hvalid.fragment hgives.fragment
        rw [hssp, append_assoc, cons_append]

theorem text_swallowed (hempty : authority.getD [] = [])
    (ha : (58 ∉ a ∧ 47 ∉ a ∧ 63 ∉ a) ∧ 35 ∉ a) (hb : b.head? ≠ some 47) (hhash : 35 ∉ b) :
    ∃ ref : RootlessReference, ref.Delimited ∧ ref.fragment = optional fragment (quoteIllegal fragment allLegal) ∧
      (composed (a ++ 58 :: b) authority [] [] fragment).text = ref.text := by
  have hne : a ++ 58 :: b ≠ [] := append_ne_nil_of_right_ne_nil a (cons_ne_nil 58 b)
  have hslashed : 35 ∉ slashed authority := by
    match authority with
    | none => exact not_mem_nil
    | some [] => decide
  refine ⟨⟨a, b ++ 58 :: slashed authority, optional fragment (quoteIllegal fragment allLegal)⟩, ⟨ha, ?_, ?_⟩, rfl, ?_⟩
  · cases b with
    | nil => exact fun h => by cases h
    | cons c b => exact hb
  · refine not_mem_append hhash ?_
    rw [mem_cons]
    rintro (heq | hmem)
    · cases heq
    · exact hslashed hmem
  · rw [URIReference.text, composed, optional, if_neg hne, URIReference.schemeSpecificPart, RootlessReference.text,
      schemed, schemed]
    simp [optional, marked, quoteIllegal]

theorem server_forced {server : Option ServerAuthority}
    (h : parseAuthority forceServer a = .ok server) : parseAuthority false a = .ok server := by
  cases forceServer with
  | true => exact (parseAuthority_forced h).1
  | false => exact h

/-- The string of a URI is read back with the same parts. -/
def ReadsBack (r : URIType) : Prop := ∃ r', URIHelper.parseURI (compose r) false = .ok r' ∧ SameParts r' r

theorem readsBack_iff (hdelimited : ref.Delimited) (hvalid : ref.Valid)
    (hserver : parseAuthority forceServer (ref.authority.getD []) = .ok server) :
    ReadsBack (ref.type server) ↔ ref.Lossless := by
  constructor
  · rintro ⟨r', hparse, hsame⟩
    exact lossless_of_sameParts hvalid hparse hsame
  · intro hlossless
    exact ⟨_, parseURI_compose hdelimited hvalid hlossless (server_forced hserver) server,
      sameParts_printed ref server⟩

theorem readsBack_rootless {ref : RootlessReference} (hdelimited : ref.Delimited) (hvalid : ref.Valid) :
    ReadsBack ref.type :=
  ⟨ref.type, parseURI_compose hdelimited hvalid false,
    ⟨rfl, rfl, fun _ => rfl, rfl, rfl, rfl, rfl, rfl, rfl, rfl⟩⟩

theorem gives_and_readsBack_iff {r : URIType} (hwritten : Written authority given)
    (hparse : URIHelper.parseURI (composed scheme authority path query fragment).text forceServer = .ok r) :
    (Gives r given path query fragment ∧ ReadsBack r) ↔
      ((composed scheme authority path query fragment).Delimited ∧ (composed scheme authority path query fragment).Lossless ∧
        decode (authority.getD []) = .ok given) ∨
      (authority.getD [] = [] ∧ path = [] ∧ query = [] ∧ Swallowed scheme) := by
  constructor
  · rintro ⟨hgives, hback⟩
    rcases parseURI_ok hparse with ⟨ref, server, hdelimited, hvalid, htext, hserver, rfl⟩ |
      ⟨ref, hdelimited, hvalid, htext, rfl⟩
    · have hcomposed := delimited_of_read hdelimited hwritten htext.symm hgives
      obtain ⟨hvalid', server', hserver', htype⟩ := (parseURI_text hcomposed).mp hparse
      rw [htype] at hgives hback
      exact .inl ⟨hcomposed, (readsBack_iff hcomposed hvalid' hserver').mp hback, hgives.authority⟩
    · exact .inr (swallowed_of_read hdelimited hvalid hwritten htext.symm hgives)
  · rintro (⟨hcomposed, hlossless, hgiven⟩ | ⟨hempty, rfl, rfl, a, b, rfl, ha, hb, hhash⟩)
    · obtain ⟨hvalid, server, hserver, rfl⟩ := (parseURI_text hcomposed).mp hparse
      refine ⟨⟨hgiven, ?_, ?_, ?_⟩, (readsBack_iff hcomposed hvalid hserver).mpr hlossless⟩
      · exact decode_quoteIllegal (by decide) path
      · exact optional_quoted (by decide)
      · exact optional_quoted (by decide)
    · obtain ⟨ref, hdelimited, hfragment, htext⟩ := text_swallowed hempty ha hb hhash
      rw [htext] at hparse
      obtain ⟨hvalid, rfl⟩ := (parseURI_text hdelimited).mp hparse
      refine ⟨⟨?_, rfl, rfl, ?_⟩, readsBack_rootless hdelimited hvalid⟩
      · rw [hwritten.empty.mpr hempty]
        rfl
      · rw [RootlessReference.type, hfragment]
        exact optional_quoted (by decide)

end Read

/-! ### The condition on the components -/

/-- The marks of a reference stand only where a constructor writes them, and an empty authority is not missed. -/
structure KeptParts (scheme : ByteString) (authority : Option ByteString) (path : ByteString) : Prop where
  schemeFree : (58 ∉ scheme ∧ 47 ∉ scheme ∧ 63 ∉ scheme) ∧ 35 ∉ scheme
  authorityFree : ∀ a ∈ authority, 47 ∉ a ∧ 63 ∉ a ∧ 35 ∉ a
  rooted : authority ≠ none → path = [] ∨ path.head? = some 47
  noSlashes : authority.getD [] = [] → ¬ [47, 47] <+: path
  pathPresent : authority.getD [] = [] → scheme ≠ [] → path ≠ []
  schemeless : scheme = [] → authority = none → ∀ a b, path = a ++ 58 :: b → 47 ∈ a

section Kept

variable {scheme path query fragment given : ByteString} {authority : Option ByteString}

theorem keptParts_iff (hguard : scheme ≠ [] → path = [] ∨ path.head? = some 47) : KeptParts scheme authority path ↔
      (composed scheme authority path query fragment).Delimited ∧ (composed scheme authority path query fragment).Lossless := by
  have hmem : ∀ {c : UInt8} {s : ByteString}, c ∈ pathLegal → c ≠ 37 → digit c 16 = -1 →
      (c ∈ quoteIllegal s pathLegal ↔ c ∈ s) := by
    intro c s hlegal hpercent hdigit
    rw [← count_pos_iff, ← count_pos_iff, count_quoteIllegal hlegal hpercent hdigit]
  have hnone : optional scheme scheme = none ↔ scheme = [] := by
    by_cases hempty : scheme = []
    · rw [optional, if_pos hempty]
      exact iff_of_true rfl hempty
    · rw [optional, if_neg hempty]
      exact iff_of_false (Option.some_ne_none _) hempty
  constructor
  · intro h
    refine ⟨?_, fun hempty => ⟨?_, ?_⟩⟩
    · exact
        { scheme := by
            intro a ha
            obtain ⟨-, rfl⟩ := mem_optional ha
            exact h.schemeFree
          schemeless := by
            intro hs ha a b hab
            obtain ⟨s₀, s₁, hpath, rfl, -⟩ := quoteIllegal_split (by decide) (by decide)
              (show quoteIllegal path pathLegal = a ++ 58 :: b from hab)
            rw [hmem (by decide) (by decide) (by decide)]
            exact h.schemeless (hnone.mp hs) ha s₀ s₁ hpath
          leading := by
            intro hs ha
            have hne : scheme ≠ [] := mt hnone.mpr hs
            exact head_quoted_path.mpr ((hguard hne).resolve_left (h.pathPresent (congrArg (Option.getD · []) ha) hne))
          rooted :=
            { noAuthority := fun ha hslashes =>
                h.noSlashes (congrArg (Option.getD · []) ha) (slashes_quoted_path.mp hslashes)
              noSlash := fun a ha => (h.authorityFree a ha).1
              rooted := fun ha => (h.rooted ha).imp quoteIllegal_eq_nil.mpr head_quoted_path.mpr }
          authority := fun a ha => (h.authorityFree a ha).2
          path := path_not_mem path
          query := by
            intro q hq
            obtain ⟨-, rfl⟩ := mem_optional hq
            exact not_mem_quoteIllegal (by decide) (by decide) (by decide) (by decide) query }
    · exact fun hslashes => h.noSlashes hempty (slashes_quoted_path.mp hslashes)
    · intro hs hnil
      exact h.pathPresent hempty (mt hnone.mpr hs) (quoteIllegal_eq_nil.mp hnil)
  · rintro ⟨hdelimited, hlossless⟩
    exact
      { schemeFree := by
          by_cases hempty : scheme = []
          · rw [hempty]
            exact ⟨⟨not_mem_nil, not_mem_nil, not_mem_nil⟩, not_mem_nil⟩
          · exact hdelimited.scheme scheme (if_neg hempty)
        authorityFree := fun a ha => ⟨hdelimited.rooted.noSlash a ha, hdelimited.authority a ha⟩
        rooted := fun ha => (hdelimited.rooted.rooted ha).imp quoteIllegal_eq_nil.mp head_quoted_path.mp
        noSlashes := fun hempty hslashes => (hlossless hempty).1 (slashes_quoted_path.mpr hslashes)
        pathPresent := fun hempty hs hnil =>
          (hlossless hempty).2 (mt hnone.mp hs) (quoteIllegal_eq_nil.mpr hnil)
        schemeless := by
          rintro hs ha a b rfl
          have hquoted : (composed scheme authority (a ++ 58 :: b) query fragment).path =
              quoteIllegal a pathLegal ++ 58 :: quoteIllegal b pathLegal := by
            rw [composed, quoteIllegal, flatMap_append, flatMap_cons, quoteChar_of_kept (by decide)]
            rfl
          exact (hmem (by decide) (by decide) (by decide)).mp
            (hdelimited.schemeless (hnone.mpr hs) ha _ _ hquoted) }

end Kept

end URIComponents

end ActiveMQCpp.Decaf
