import ActiveMQCpp.DecafURIReference

/-! The string that `toString` composes: a part that is empty is printed as one that is not there. -/

namespace ActiveMQCpp.Decaf

open Character URIEncoderDecoder URIHelper

variable {o : Option ByteString}

/-- The parts that `equals` and `compareTo` read are the same. -/
structure SameParts (r r' : URIType) : Prop where
  scheme : r.scheme = r'.scheme
  isOpaque : r.isOpaque = r'.isOpaque
  opaquePart : r.isOpaque = true → r.schemeSpecificPart = r'.schemeSpecificPart
  authority : r.authority = r'.authority
  userinfo : r.userinfo = r'.userinfo
  host : r.host = r'.host
  port : r.port = r'.port
  path : r.path = r'.path
  query : r.query = r'.query
  fragment : r.fragment = r'.fragment

/-- A part that is there and empty is taken for one that is not there. -/
def present : Option ByteString → Option ByteString
  | some [] => none
  | o => o

theorem getD_present (o : Option ByteString) : (present o).getD [] = o.getD [] := by
  match o with
  | none => rfl
  | some [] => rfl
  | some (c :: s) => rfl

theorem present_ne (o : Option ByteString) : present o ≠ some [] := by
  match o with
  | none => exact fun h => by cases h
  | some [] => exact fun h => by cases h
  | some (c :: s) => exact fun h => by cases h

theorem mem_present {s : ByteString} (h : s ∈ present o) : s ∈ o := by
  match o with
  | none => exact h
  | some [] => cases h
  | some (c :: t) => exact h

theorem present_eq_none : present o = none ↔ o.getD [] = [] := by
  match o with
  | none => exact iff_of_true rfl rfl
  | some [] => exact iff_of_true rfl rfl
  | some (c :: s) => exact iff_of_false (fun h => by cases h) fun h => by cases h

theorem behind_marked (c : UInt8) (o : Option ByteString) :
    URI.behind [c] (o.getD []) (o.getD []) = marked c (present o) := by
  match o with
  | none => rfl
  | some [] => rfl
  | some (d :: s) => rfl

theorem length_marked_present (c : UInt8) {o' : Option ByteString} (h : o.getD [] = o'.getD []) :
    (marked c (present o)).length ≤ (marked c o').length := by
  match o, o' with
  | none, _ => exact Nat.zero_le _
  | some [], _ => exact Nat.zero_le _
  | some (d :: s), none => cases h
  | some (d :: s), some t =>
    rw [show d :: s = t from h]
    cases t with
    | nil => cases h
    | cons e t => exact le_rfl

namespace URIReference

variable {ref : URIReference}
variable {server : Option ServerAuthority}

def printed (ref : URIReference) : URIReference :=
  { ref with authority := present ref.authority, query := present ref.query, fragment := present ref.fragment }

/-- Nothing but a mark is lost when an empty authority is not printed. -/
def Lossless (ref : URIReference) : Prop :=
  ref.authority.getD [] = [] → ¬ [47, 47] <+: ref.path ∧ (ref.scheme ≠ none → ref.path ≠ [])

theorem compose_type (h : ref.Valid) (server : Option ServerAuthority) :
    URI.compose (ref.type server) = ref.printed.text := by
  have hscheme : URI.before (ref.scheme.getD []) (ascii ":") = schemed ref.scheme := by
    cases hscheme : ref.scheme with
    | none => rfl
    | some a => exact if_neg (h.scheme a hscheme).ne_nil
  have hauthority : URI.behind (ascii "//") (ref.authority.getD []) (ref.authority.getD []) =
      slashed (present ref.authority) := by
    match ref.authority with
    | none => rfl
    | some [] => rfl
    | some (c :: s) => rfl
  rw [URI.compose, text, schemeSpecificPart, printed, ← hscheme, ← hauthority, ← behind_marked, ← behind_marked]
  rfl

theorem Delimited.printed (h : ref.Delimited) (hlossless : ref.Lossless) : ref.printed.Delimited := by
  refine ⟨h.scheme, ?_, ?_, ⟨fun hempty => (hlossless (present_eq_none.mp hempty)).1, ?_, ?_⟩, ?_, h.path, ?_⟩
  · intro hscheme hempty a b hpath
    rcases eq_or_ne ref.authority none with hno | hsome
    · exact h.schemeless hscheme hno a b hpath
    · rcases h.rooted.rooted hsome with hnil | hhead
      · rw [show ref.path = a ++ 58 :: b from hpath] at hnil
        cases a <;> cases hnil
      · rw [show ref.path = a ++ 58 :: b from hpath] at hhead
        cases a with
        | nil => cases hhead
        | cons c a =>
          cases hhead
          exact List.mem_cons_self
  · intro hscheme hempty
    rcases eq_or_ne ref.authority none with hno | hsome
    · exact h.leading hscheme hno
    · exact (h.rooted.rooted hsome).resolve_left ((hlossless (present_eq_none.mp hempty)).2 hscheme)
  · exact fun a ha => h.rooted.noSlash a (mem_present ha)
  · intro hsome
    apply h.rooted.rooted
    rintro hno
    exact hsome (present_eq_none.mpr (hno ▸ rfl))
  · exact fun a ha => h.authority a (mem_present ha)
  · exact fun q hq => h.query q (mem_present hq)

theorem Valid.printed (h : ref.Valid) : ref.printed.Valid := by
  refine ⟨h.scheme, ?_, h.path, ?_, ?_, fun hempty => present_ne ref.authority hempty.1⟩
  · exact (getD_present ref.authority).symm ▸ h.authority
  · exact (getD_present ref.query).symm ▸ h.query
  · exact (getD_present ref.fragment).symm ▸ h.fragment

theorem parseURI_compose (h : ref.Delimited) (hvalid : ref.Valid) (hlossless : ref.Lossless)
    (hserver : parseAuthority false (ref.authority.getD []) = .ok server)
    (server' : Option ServerAuthority) :
    parseURI (URI.compose (ref.type server')) false = .ok (ref.printed.type server) := by
  rw [compose_type hvalid]
  refine (parseURI_text (h.printed hlossless)).mpr ⟨hvalid.printed, server, ?_, rfl⟩
  show parseAuthority false ((present ref.authority).getD []) = _
  rw [getD_present, hserver]

theorem sameParts_printed (ref : URIReference) (server : Option ServerAuthority) :
    SameParts (ref.printed.type server) (ref.type server) :=
  ⟨rfl, rfl, (fun h => by cases h), getD_present ref.authority, rfl, rfl, rfl, rfl, getD_present ref.query,
    getD_present ref.fragment⟩

theorem lossless_of_sameParts (hvalid : ref.Valid) {forceServer : Bool} {r : URIType}
    (hparse : parseURI (URI.compose (ref.type server)) forceServer = .ok r) (hsame : SameParts r (ref.type server)) :
    ref.Lossless := by
  intro hempty
  rcases parseURI_ok hparse with ⟨ref', server', hdelimited, hvalid', htext, -, rfl⟩ | ⟨ref', -, -, -, rfl⟩
  · have hscheme : ref'.scheme = ref.scheme := by
      have hget : ref'.scheme.getD [] = ref.scheme.getD [] := hsame.scheme
      cases hs : ref'.scheme with
      | none =>
        cases hs' : ref.scheme with
        | none => rfl
        | some a =>
          rw [hs, hs'] at hget
          exact absurd hget.symm (hvalid.scheme a hs').ne_nil
      | some b =>
        cases hs' : ref.scheme with
        | none =>
          rw [hs, hs'] at hget
          exact absurd hget (hvalid'.scheme b hs).ne_nil
        | some a =>
          rw [hs, hs'] at hget
          exact congrArg some hget
    have hpath : ref'.path = ref.path := hsame.path
    have hno : ref'.authority = none := by
      cases hauthority : ref'.authority with
      | none => rfl
      | some b =>
        have hlen := congrArg List.length htext
        have hquery := length_marked_present 63 (Eq.symm hsame.query : ref.query.getD [] = ref'.query.getD [])
        have hfragment := length_marked_present 35 (Eq.symm hsame.fragment : ref.fragment.getD [] = ref'.fragment.getD [])
        rw [compose_type hvalid, text, text, schemeSpecificPart, schemeSpecificPart, printed, hscheme, hpath, hauthority,
          show present ref.authority = none from present_eq_none.mpr hempty] at hlen
        simp only [slashed, List.length_append, List.length_cons, List.length_nil] at hlen
        omega
    refine ⟨hpath ▸ hdelimited.rooted.noAuthority hno, fun hsome => ?_⟩
    have hhead := hdelimited.leading (hscheme ▸ hsome) hno
    rw [hpath] at hhead
    rintro hnil
    rw [hnil] at hhead
    cases hhead
  · cases hsame.isOpaque

end URIReference

namespace RootlessReference

variable {ref : RootlessReference}

def printed (ref : RootlessReference) : RootlessReference := { ref with fragment := present ref.fragment }

theorem compose_type (h : ref.Valid) : URI.compose ref.type = ref.printed.text := by
  have hscheme : URI.before ref.scheme (ascii ":") = schemed (some ref.scheme) := if_neg h.scheme.ne_nil
  rw [URI.compose, text, printed, ← behind_marked, ← hscheme]
  rfl

theorem parseURI_compose (h : ref.Delimited) (hvalid : ref.Valid) (forceServer : Bool) :
    parseURI (URI.compose ref.type) forceServer = .ok ref.type := by
  rw [compose_type hvalid]
  have hdelimited : ref.printed.Delimited := ⟨h.scheme, h.rootless, h.schemeSpecificPart⟩
  refine (parseURI_text hdelimited).mpr ⟨⟨hvalid.scheme, hvalid.present, hvalid.schemeSpecificPart, ?_⟩, ?_⟩
  · exact (getD_present ref.fragment).symm ▸ hvalid.fragment
  · rw [type, type, printed, getD_present]

end RootlessReference

end ActiveMQCpp.Decaf
