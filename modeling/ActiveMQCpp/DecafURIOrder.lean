import ActiveMQCpp.DecafURIAuthority
import ActiveMQCpp.DecafURICompare
import ActiveMQCpp.LibComparison

/-! When `URI::compareTo` orders the URIs that were parsed: servers are compared by their parts, but by the whole authority
with one that is no server. -/

namespace ActiveMQCpp.Decaf

open Codec Character URIEncoderDecoder URIHelper StringUtils Comparison List

namespace URI

variable {s a b : ByteString} {u v : URI}
variable {c : Int} {forceServer : Bool} {authority : ByteString}

/-! ### What the parser lets through -/

def Parsed (u : URI) : Prop := ∃ s forceServer, URIHelper.parseURI s forceServer = .ok u.uri

theorem parsed_ofString (h : ofString s = .ok u) : Parsed u := by
  obtain ⟨r, hparse, hu⟩ := except_bind_eq_ok.mp h
  cases hu
  exact ⟨s, false, convert_eq_ok.mp hparse⟩

/-- What is known of the parts that the parser found. -/
structure Formed (r : URIType) : Prop where
  scheme : Plain r.scheme
  authority : Encoded r.authority
  userinfo : Encoded r.userinfo
  host : Plain r.host
  path : Encoded r.path
  query : Encoded r.query
  fragment : Encoded r.fragment
  opaquePart : r.isOpaque = true → Encoded r.schemeSpecificPart ∧ r.authority = []
  server : ∃ server, parseAuthority false r.authority = .ok server ∧ r.host = (server.map ServerAuthority.host).getD []

theorem encoded_nil : Encoded [] := ⟨⟨[], .nil⟩, fun _ hc => absurd hc not_mem_nil⟩

theorem plain_of_letterOrDigit {c : UInt8} (h : isLetterOrDigit c = true) : isWhitespace c = false ∧ c ≠ 0 := by
  apply plain_of_lt
  simp only [isLetterOrDigit, isLetter, Bool.or_eq_true, Bool.and_eq_true, decide_eq_true_eq, isDigit_iff] at h
  omega

theorem plain_of_validScheme {scheme : ByteString} (h : ValidScheme scheme) : Plain scheme := by
  intro c hc
  have hlegal : Plain (ascii "+-.") := by decide
  have hpass := all_eq_true.mp h.2 c hc
  rw [Bool.or_eq_true, contains_iff_mem] at hpass
  exact hpass.elim plain_of_letterOrDigit (hlegal c)

/-- The user information and the host stand in the authority. -/
theorem splitUserinfo_cases (authority : ByteString) :
    splitUserinfo authority = ([], authority) ∨ authority = (splitUserinfo authority).1 ++ 64 :: (splitUserinfo authority).2 := by
  by_cases hat : 64 ∈ authority
  · obtain ⟨a, b, rfl, ha⟩ := eq_append_cons_of_mem hat
    exact .inr (by rw [splitUserinfo_marked ha])
  · exact .inl (splitUserinfo_none hat)

theorem hostAndPort_start {temp host : ByteString} {port : Int}
    (h : hostAndPort forceServer authority temp = .ok (some (host, port))) : host <+: temp := by
  rw [hostAndPort] at h
  split at h
  · cases h
    exact prefix_refl _
  · split at h
    · split at h
      · split at h
        · split_ifs at h
          all_goals cases h
          exact List.take_prefix _ _
        · split_ifs at h
          all_goals cases h
      · cases h
        exact List.take_prefix _ _
    · cases h
      exact prefix_refl _

theorem parseAuthority_host {server : ServerAuthority}
    (h : parseAuthority forceServer authority = .ok (some server)) : server.host ⊆ authority := by
  by_cases hne : authority = []
  · rw [parseAuthority, if_pos hne] at h
    cases h
  · obtain ⟨-, parts, hparts, hresult⟩ := parseAuthority_ok hne h
    have hrest : (splitUserinfo authority).2 ⊆ authority := by
      rcases splitUserinfo_cases authority with hnone | hsplit
      · rw [hnone]
        exact List.Subset.refl _
      · intro c hc
        rw [hsplit]
        exact mem_append_right _ (mem_cons_of_mem _ hc)
    cases parts with
    | none => cases hresult
    | some parts =>
      obtain ⟨host, port⟩ := parts
      rcases hresult with ⟨-, -, hnone⟩ | ⟨-, valid, -, hsome⟩
      · cases hnone
      · cases valid with
        | false => cases hsome
        | true =>
          cases hsome
          exact fun c hc => hrest ((hostAndPort_start hparts).subset hc)

theorem encoded_before (h : Encoded (a ++ 64 :: b)) : Encoded a := by
  obtain ⟨t, ht⟩ := h.escapes
  obtain ⟨x, y, -, hx, -⟩ := ht.split (by decide) (by decide)
  exact ⟨⟨x, hx⟩, fun c hc => h.plain c (mem_append_left _ hc)⟩

theorem Parsed.formed (h : Parsed u) : Formed u.uri := by
  obtain ⟨s, forceServer, hparse⟩ := h
  rcases parseURI_ok hparse with ⟨ref, server, -, hvalid, -, hserver, hresult⟩ | ⟨ref, -, hvalid, -, hresult⟩
  · have hauthority : Encoded (ref.authority.getD []) := encoded_of_legal (by decide) hvalid.authority
    have hfree : parseAuthority false (ref.authority.getD []) = .ok server := by
      cases forceServer with
      | false => exact hserver
      | true => exact (parseAuthority_forced hserver).1
    rw [hresult]
    refine ⟨?_, hauthority, ?_, ?_, encoded_of_legal (by decide) hvalid.path, encoded_of_legal (by decide) hvalid.query,
      encoded_of_legal (by decide) hvalid.fragment, nofun, server, hfree, rfl⟩
    · show Plain (ref.scheme.getD [])
      cases hscheme : ref.scheme with
      | none => exact encoded_nil.plain
      | some scheme => exact plain_of_validScheme (hvalid.scheme scheme hscheme)
    · cases server with
      | none => exact encoded_nil
      | some server =>
        show Encoded server.userinfo
        rw [parseAuthority_userinfo hfree]
        rcases splitUserinfo_cases (ref.authority.getD []) with hnone | hsplit
        · rw [hnone]
          exact encoded_nil
        · rw [hsplit] at hauthority
          exact encoded_before hauthority
    · cases server with
      | none => exact encoded_nil.plain
      | some server => exact fun c hc => hauthority.plain c (parseAuthority_host hfree hc)
  · rw [hresult]
    exact ⟨plain_of_validScheme hvalid.scheme, encoded_nil, encoded_nil, encoded_nil.plain, encoded_nil, encoded_nil,
      encoded_of_legal (by decide) hvalid.fragment, fun _ => ⟨encoded_of_legal (by decide) hvalid.schemeSpecificPart, rfl⟩,
      none, rfl, rfl⟩

/-! ### The comparison of parsed URIs -/

def text (s : ByteString) : ByteString := (decode s).toOption.getD []

theorem decode_of_decodes {t : ByteString} (h : Decodes s t) : decode s = .ok t := by
  induction h with
  | nil => rfl
  | char hne _ ih => rw [decode_char hne, ih]; rfl
  | escape hd1 hd2 _ ih => rw [decode_escape hd1 hd2, ih]; rfl

theorem Encoded.decode_eq (h : Encoded s) : decode s = .ok (text s) := by
  obtain ⟨t, ht⟩ := h.escapes
  rw [text, decode_of_decodes ht]
  rfl

def opacity (u v : URI) : Int :=
  match u.uri.isOpaque, v.uri.isOpaque with
  | false, true => -1
  | true, false => 1
  | _, _ => 0

/-- The schemes, and whether the URIs are opaque. -/
def leads (u v : URI) : Int := thenBy (comparePart compareIgnoreCase u.uri.scheme v.uri.scheme) (opacity u v)

def servers (u v : URI) : Int :=
  thenBy (comparePart StringUtils.compare (text u.uri.userinfo) (text v.uri.userinfo)) <|
    thenBy (signOf (compareIgnoreCase u.uri.host v.uri.host))
      (if u.uri.port ≠ v.uri.port then if u.uri.port - v.uri.port > 0 then 1 else -1 else 0)

def authorities (u v : URI) : Int :=
  if u.uri.authority = [] ∨ v.uri.authority = [] then comparePart (fun _ _ => 0) u.uri.authority v.uri.authority
  else if u.uri.host ≠ [] ∧ v.uri.host ≠ [] then servers u v
  else signOf (StringUtils.compare u.uri.authority v.uri.authority)

def rests (u v : URI) : Int :=
  thenBy (signOf (StringUtils.compare (text u.uri.path) (text v.uri.path))) <|
    thenBy (comparePart StringUtils.compare (text u.uri.query) (text v.uri.query))
      (comparePart StringUtils.compare (text u.uri.fragment) (text v.uri.fragment))

def opaques (u v : URI) : Int :=
  thenBy (signOf (StringUtils.compare (text u.uri.schemeSpecificPart) (text v.uri.schemeSpecificPart)))
    (comparePart StringUtils.compare (text u.uri.fragment) (text v.uri.fragment))

def comparison (u v : URI) : Int :=
  thenBy (leads u v) (if u.uri.isOpaque then opaques u v else thenBy (authorities u v) (rests u v))

theorem andThen_ok (c d : Int) : andThen c (.ok d) = .ok (thenBy c d) := by
  rw [andThen, thenBy]
  split_ifs <;> rfl

theorem thenBy_assoc (b c d : Int) : thenBy (thenBy b c) d = thenBy b (thenBy c d) := by
  by_cases hb : b = 0
  · rw [hb, thenBy_zero, thenBy_zero]
  · rw [thenBy_of_ne hb, thenBy_of_ne hb, thenBy_of_ne hb]

theorem compareAuthorities_eq (hu : Formed u.uri) (hv : Formed v.uri) :
    compareAuthorities u v = .ok (authorities u v) := by
  rw [compareAuthorities, authorities]
  split_ifs
  · rfl
  · rw [compareServers, getUserInfo, getUserInfo, hu.userinfo.decode_eq, hv.userinfo.decode_eq]
    show andThen _ (andThen _ (.ok _)) = _
    rw [andThen_ok, andThen_ok]
    rfl
  · rfl

theorem compareHierarchical_eq (hu : Formed u.uri) (hv : Formed v.uri) :
    compareHierarchical u v = .ok (thenBy (authorities u v)
      (thenBy (signOf (compare (text u.uri.path) (text v.uri.path)))
        (comparePart compare (text u.uri.query) (text v.uri.query)))) := by
  rw [compareHierarchical, compareAuthorities_eq hu hv, getPath, getPath, getQuery, getQuery, hu.path.decode_eq,
    hv.path.decode_eq, hu.query.decode_eq, hv.query.decode_eq]
  show andThen _ (andThen _ (.ok _)) = _
  rw [andThen_ok, andThen_ok]

theorem compareTo_eq (hu : Formed u.uri) (hv : Formed v.uri) : compareTo u v = .ok (comparison u v) := by
  rw [compareTo, comparison, leads, opacity, getFragment, getFragment, hu.fragment.decode_eq, hv.fragment.decode_eq,
    compareHierarchical_eq hu hv, thenBy_assoc]
  cases hflag : u.uri.isOpaque with
  | false =>
    cases hflag' : v.uri.isOpaque with
    | false =>
      show andThen _ (andThen _ (.ok _)) = _
      rw [andThen_ok, andThen_ok, thenBy_assoc, thenBy_assoc]
      rfl
    | true =>
      show andThen _ (.ok (-1)) = _
      rw [andThen_ok]
      rfl
  | true =>
    cases hflag' : v.uri.isOpaque with
    | false =>
      show andThen _ (.ok 1) = _
      rw [andThen_ok]
      rfl
    | true =>
      rw [getSchemeSpecificPart, getSchemeSpecificPart, (hu.opaquePart hflag).1.decode_eq,
        (hv.opaquePart hflag').1.decode_eq]
      show andThen _ (andThen _ (.ok _)) = _
      rw [andThen_ok, andThen_ok]
      rfl

/-! ### Orders that it is made of -/

theorem signOf_eq (c : Int) : signOf c = c.sign := by
  rw [signOf]
  split_ifs with hpos hneg
  · rw [Int.sign_eq_one_of_pos hpos]
  · rw [Int.sign_eq_neg_one_of_neg hneg]
  · rw [le_antisymm (not_lt.mp hpos) (not_lt.mp hneg)]
    rfl

theorem signOf_nonpos : signOf c ≤ 0 ↔ c ≤ 0 := by rw [signOf_eq, Int.sign_nonpos_iff]

theorem signOf_neg (c : Int) : signOf (-c) = -signOf c := by rw [signOf_eq, signOf_eq, Int.sign_neg]

theorem signOf_eq_zero : signOf c = 0 ↔ c = 0 := by rw [signOf_eq, Int.sign_eq_zero_iff_zero]

theorem ordersOn_sign {α : Type} {c : α → α → Int} {p : α → Prop} (h : OrdersOn c p) :
    OrdersOn (fun x y => signOf (c x y)) p := by
  refine ⟨fun x y hx hy => ?_, fun x y z hx hy hz hxy hyz => ?_⟩
  · rw [h.swap x y hx hy, signOf_neg]
  · exact signOf_nonpos.mpr (h.trans x y z hx hy hz (signOf_nonpos.mp hxy) (signOf_nonpos.mp hyz))

theorem ordersOn_part {c : ByteString → ByteString → Int} {p : ByteString → Prop} (h : OrdersOn c p) :
    OrdersOn (comparePart c) p := by
  have hsign := ordersOn_sign h
  refine ⟨fun x y hx hy => ?_, fun x y z hx hy hz hxy hyz => ?_⟩
  · have hswap := hsign.swap x y hx hy
    rw [comparePart, comparePart]
    split_ifs <;> omega
  · have htrans := hsign.trans x y z hx hy hz
    rw [comparePart] at hxy hyz ⊢
    split_ifs at hxy hyz ⊢ <;> omega

theorem comparePart_eq_zero {c : ByteString → ByteString → Int} :
    comparePart c a b = 0 ↔ a = [] ∧ b = [] ∨ a ≠ [] ∧ b ≠ [] ∧ c a b = 0 := by
  rw [comparePart]
  split_ifs with ha hb hb <;> simp [ha, hb, signOf_eq_zero]

theorem ordersOn_plain : OrdersOn compare Plain :=
  ⟨fun _ _ hx hy => compare_swap hx hy, fun _ _ _ hx hy hz => compare_trans hx hy hz⟩

theorem ordersOn_ignoreCase : OrdersOn compareIgnoreCase Plain :=
  ⟨fun _ _ hx hy => compareIgnoreCase_swap hx hy, fun _ _ _ hx hy hz => compareIgnoreCase_trans hx hy hz⟩

theorem ordersOn_opacity (p : URI → Prop) : OrdersOn opacity p := by
  refine ⟨fun x y _ _ => ?_, fun x y z _ _ _ hxy hyz => ?_⟩
  · rw [opacity, opacity]
    cases x.uri.isOpaque <;> cases y.uri.isOpaque <;> rfl
  · revert hxy hyz
    rw [opacity, opacity, opacity]
    cases x.uri.isOpaque <;> cases y.uri.isOpaque <;> cases z.uri.isOpaque <;> decide

theorem ordersOn_port (p : URI → Prop) :
    OrdersOn (fun u v : URI => if u.uri.port ≠ v.uri.port then if u.uri.port - v.uri.port > 0 then 1 else -1 else 0) p := by
  refine ⟨fun x y _ _ => ?_, fun x y z _ _ _ hxy hyz => ?_⟩
  · split_ifs <;> omega
  · split_ifs at hxy hyz ⊢ <;> omega

/-- The parts that are decoded before they are compared. -/
def decodedParts (u : URI) : List ByteString :=
  [text u.uri.userinfo, text u.uri.path, text u.uri.query, text u.uri.fragment] ++
    if u.uri.isOpaque then [text u.uri.schemeSpecificPart] else []

/-- The natural order is one on the decoded parts of these URIs. -/
def NaturallyOrdered (S : Set URI) : Prop := OrdersOn StringUtils.compare fun t => ∃ u ∈ S, t ∈ decodedParts u

theorem naturallyOrdered {S : Set URI} (h : ∀ u ∈ S, ∀ t ∈ decodedParts u, Plain t) : NaturallyOrdered S :=
  ordersOn_plain.on (f := id) fun t ⟨u, hu, ht⟩ => h u hu t ht

def ServerBased (u : URI) : Prop := u.uri.host ≠ []

def RegistryBased (u : URI) : Prop := u.uri.authority ≠ [] ∧ u.uri.host = []

def SameScheme (u v : URI) : Prop := u.uri.scheme.map toUpperCase = v.uri.scheme.map toUpperCase

def hierarchies (u v : URI) : Int := thenBy (authorities u v) (rests u v)

section Laws

variable {S : Set URI} (hS : ∀ u ∈ S, Formed u.uri) (hnatural : NaturallyOrdered S)
variable {u v : URI}

theorem ordersOn_leads (hS : ∀ u ∈ S, Formed u.uri) : OrdersOn leads (· ∈ S) :=
  ((ordersOn_part ordersOn_ignoreCase).on fun u hu => (hS u hu).scheme).thenBy_all (ordersOn_opacity _)

include hnatural

theorem ordersOn_rests : OrdersOn rests (· ∈ S) := by
  have hpath := (ordersOn_sign hnatural).on (f := fun u : URI => text u.uri.path) (r := (· ∈ S))
    fun u hu => ⟨u, hu, by simp [decodedParts]⟩
  have hquery := (ordersOn_part hnatural).on (f := fun u : URI => text u.uri.query) (r := (· ∈ S))
    fun u hu => ⟨u, hu, by simp [decodedParts]⟩
  have hfragment := (ordersOn_part hnatural).on (f := fun u : URI => text u.uri.fragment) (r := (· ∈ S))
    fun u hu => ⟨u, hu, by simp [decodedParts]⟩
  exact hpath.thenBy_all (hquery.thenBy_all hfragment)

theorem ordersOn_opaques : OrdersOn opaques fun u => u ∈ S ∧ u.uri.isOpaque = true := by
  have hflag := (ordersOn_sign hnatural).on (f := fun u : URI => text u.uri.schemeSpecificPart)
    (r := fun u => u ∈ S ∧ u.uri.isOpaque = true) fun u hu => ⟨u, hu.1, by simp [decodedParts, hu.2]⟩
  have hfragment := (ordersOn_part hnatural).on (f := fun u : URI => text u.uri.fragment)
    (r := fun u => u ∈ S ∧ u.uri.isOpaque = true) fun u hu => ⟨u, hu.1, by simp [decodedParts]⟩
  exact hflag.thenBy_all hfragment

include hS

theorem ordersOn_servers : OrdersOn servers (· ∈ S) := by
  have huserinfo := (ordersOn_part hnatural).on (f := fun u : URI => text u.uri.userinfo) (r := (· ∈ S))
    fun u hu => ⟨u, hu, by simp [decodedParts]⟩
  have hhost := (ordersOn_sign ordersOn_ignoreCase).on (f := fun u : URI => u.uri.host) fun u (hu : u ∈ S) => (hS u hu).host
  exact huserinfo.thenBy_all (hhost.thenBy_all (ordersOn_port _))

theorem authorities_swap (hu : u ∈ S) (hv : v ∈ S) : authorities v u = -authorities u v := by
  rw [authorities, authorities]
  by_cases hnone : u.uri.authority = [] ∨ v.uri.authority = []
  · rw [if_pos hnone, if_pos hnone.symm, comparePart, comparePart]
    split_ifs <;> rfl
  · rw [if_neg hnone, if_neg fun h => hnone h.symm]
    by_cases hservers : u.uri.host ≠ [] ∧ v.uri.host ≠ []
    · rw [if_pos hservers, if_pos hservers.symm]
      exact (ordersOn_servers hS hnatural).swap u v hu hv
    · rw [if_neg hservers, if_neg fun h => hservers h.symm, compare_swap (hS u hu).authority.plain (hS v hv).authority.plain,
        signOf_neg]

theorem hierarchies_swap (hu : u ∈ S) (hv : v ∈ S) : hierarchies v u = -hierarchies u v := by
  have hauthorities := authorities_swap hS hnatural hu hv
  have hrests := (ordersOn_rests hnatural).swap u v hu hv
  rw [hierarchies, hierarchies, hauthorities, hrests, thenBy, thenBy]
  split_ifs <;> omega

end Laws

theorem authorities_none (hu : u.uri.authority = []) (hv : v.uri.authority = []) : authorities u v = 0 := by
  rw [authorities, if_pos (.inl hu), comparePart, if_pos hu, if_pos hv]

theorem hierarchies_none_some (hu : u.uri.authority = []) (hv : v.uri.authority ≠ []) : hierarchies u v = -1 := by
  rw [hierarchies, authorities, if_pos (.inl hu), comparePart, if_pos hu, if_neg hv]
  rfl

theorem hierarchies_some_none (hu : u.uri.authority ≠ []) (hv : v.uri.authority = []) : hierarchies u v = 1 := by
  rw [hierarchies, authorities, if_pos (.inr hv), comparePart, if_neg hu, if_pos hv]
  rfl

theorem Formed.authority_ne {r : URIType} (h : Formed r) (hhost : r.host ≠ []) : r.authority ≠ [] := by
  intro hnil
  obtain ⟨server, hserver, heq⟩ := h.server
  rw [hnil] at hserver
  cases hserver
  exact hhost heq

theorem authorities_servers (hu : Formed u.uri) (hv : Formed v.uri) (hhost : ServerBased u)
    (hhost' : ServerBased v) : authorities u v = servers u v := by
  rw [authorities, if_neg (not_or_intro (hu.authority_ne hhost) (hv.authority_ne hhost')), if_pos ⟨hhost, hhost'⟩]

theorem authorities_registry (hu : u.uri.authority ≠ []) (hv : v.uri.authority ≠ [])
    (h : u.uri.host = [] ∨ v.uri.host = []) :
    authorities u v = signOf (compare u.uri.authority v.uri.authority) := by
  rw [authorities, if_neg (not_or_intro hu hv), if_neg fun hboth => h.elim hboth.1 hboth.2]

theorem authority_ne_of_mixed (hu : Formed u.uri) (hv : Formed v.uri) (hhost : ServerBased u)
    (hnone : v.uri.host = []) : u.uri.authority ≠ v.uri.authority := by
  intro heq
  obtain ⟨server, hserver, hhost'⟩ := hu.server
  obtain ⟨server', hserver', hnone'⟩ := hv.server
  rw [heq, hserver'] at hserver
  cases hserver
  exact hhost (by rw [hhost', ← hnone', hnone])

theorem hierarchies_mixed (hu : Formed u.uri) (hv : Formed v.uri) (hserver : ServerBased u)
    (hregistry : RegistryBased v) :
    hierarchies u v = signOf (compare u.uri.authority v.uri.authority) ∧
      StringUtils.compare u.uri.authority v.uri.authority ≠ 0 := by
  have hne : StringUtils.compare u.uri.authority v.uri.authority ≠ 0 := fun h =>
    authority_ne_of_mixed hu hv hserver hregistry.2 (eq_of_compare hu.authority.plain hv.authority.plain h)
  refine ⟨?_, hne⟩
  rw [hierarchies, authorities_registry (hu.authority_ne hserver) hregistry.1 (.inr hregistry.2),
    thenBy_of_ne fun h => hne (signOf_eq_zero.mp h)]

/-! ### Servers and others -/

section Kinds

variable {u v : URI}

theorem registry_nonpos (hu : RegistryBased u) (hv : RegistryBased v) (h : hierarchies u v ≤ 0) :
    StringUtils.compare u.uri.authority v.uri.authority ≤ 0 := by
  rw [hierarchies, authorities_registry hu.1 hv.1 (.inl hu.2), thenBy_nonpos] at h
  exact signOf_nonpos.mp (by omega)

theorem registry_lt (hu : RegistryBased u) (hv : RegistryBased v)
    (h : StringUtils.compare u.uri.authority v.uri.authority < 0) : hierarchies u v ≤ 0 := by
  rw [hierarchies, authorities_registry hu.1 hv.1 (.inl hu.2), thenBy_nonpos, signOf_eq, Int.sign_eq_neg_one_of_neg h]
  exact .inl (by decide)

variable {S : Set URI} (hS : ∀ u ∈ S, Formed u.uri) (hnatural : NaturallyOrdered S)

theorem ordersOn_without (hnatural : NaturallyOrdered S) : OrdersOn hierarchies fun u => u ∈ S ∧ u.uri.authority = [] := by
  have hrests := (ordersOn_rests hnatural).on (f := id) (r := fun u => u ∈ S ∧ u.uri.authority = []) fun u hu => hu.1
  apply hrests.congr
  intro u v hu hv
  rw [hierarchies, authorities_none hu.2 hv.2]
  rfl

include hS hnatural

theorem ordersOn_serverBased : OrdersOn hierarchies fun u => u ∈ S ∧ ServerBased u := by
  have hboth := ((ordersOn_servers hS hnatural).thenBy_all (ordersOn_rests hnatural)).on (f := id)
    (r := fun u => u ∈ S ∧ ServerBased u) fun u hu => hu.1
  apply hboth.congr
  intro u v hu hv
  rw [hierarchies, authorities_servers (hS u hu.1) (hS v hv.1) hu.2 hv.2]
  rfl

theorem ordersOn_registryBased : OrdersOn hierarchies fun u => u ∈ S ∧ RegistryBased u := by
  have hauthority := (ordersOn_sign ordersOn_plain).on (f := fun u : URI => u.uri.authority)
    (r := fun u => u ∈ S) fun u hu => (hS u hu).authority.plain
  have hboth := (hauthority.thenBy_all (ordersOn_rests hnatural)).on (f := id)
    (r := fun u => u ∈ S ∧ RegistryBased u) fun u hu => hu.1
  apply hboth.congr
  intro u v hu hv
  rw [hierarchies, authorities_registry hu.2.1 hv.2.1 (.inl hu.2.2)]
  rfl

theorem mixed_nonpos (hu : u ∈ S) (hv : v ∈ S) (hserver : ServerBased u) (hregistry : RegistryBased v) :
    (hierarchies u v ≤ 0 ↔ StringUtils.compare u.uri.authority v.uri.authority < 0) ∧
      (hierarchies v u ≤ 0 ↔ StringUtils.compare v.uri.authority u.uri.authority < 0) := by
  obtain ⟨heq, hne⟩ := hierarchies_mixed (hS u hu) (hS v hv) hserver hregistry
  have hback := compare_swap (hS u hu).authority.plain (hS v hv).authority.plain
  rw [hierarchies_swap hS hnatural hu hv, heq, hback, ← signOf_neg, signOf_nonpos, signOf_nonpos]
  omega

/-- Where no registry-based authority stands between servers against their order, this is an order. -/
theorem ordersOn_hierarchies {p : URI → Prop} (hp : ∀ u, p u → u ∈ S)
    (hapart : ∀ s t r, p s → p t → p r → ServerBased s → ServerBased t → RegistryBased r → hierarchies s t ≤ 0 →
      StringUtils.compare t.uri.authority r.uri.authority < 0 → StringUtils.compare s.uri.authority r.uri.authority < 0) :
    OrdersOn hierarchies p := by
  refine ⟨fun u v hu hv => hierarchies_swap hS hnatural (hp u hu) (hp v hv), fun x y z hx hy hz hxy hyz => ?_⟩
  have hplain {u : URI} (hu : p u) : Plain u.uri.authority := (hS u (hp u hu)).authority.plain
  by_cases hzero : x.uri.authority = []
  · by_cases hzero' : z.uri.authority = []
    · have hzeroy : y.uri.authority = [] := by
        by_contra hsome
        rw [hierarchies_some_none hsome hzero'] at hyz
        omega
      exact (ordersOn_without hnatural).trans x y z ⟨hp x hx, hzero⟩ ⟨hp y hy, hzeroy⟩ ⟨hp z hz, hzero'⟩ hxy hyz
    · rw [hierarchies_none_some hzero hzero']
      decide
  have hsomey : y.uri.authority ≠ [] := by
    intro hnone
    rw [hierarchies_some_none hzero hnone] at hxy
    omega
  have hsomez : z.uri.authority ≠ [] := by
    intro hnone
    rw [hierarchies_some_none hsomey hnone] at hyz
    omega
  by_cases hxs : x.uri.host = []
  · have hxr : RegistryBased x := ⟨hzero, hxs⟩
    by_cases hys : y.uri.host = []
    · have hyr : RegistryBased y := ⟨hsomey, hys⟩
      by_cases hzs : z.uri.host = []
      · exact (ordersOn_registryBased hS hnatural).trans x y z ⟨hp x hx, hxr⟩ ⟨hp y hy, hyr⟩ ⟨hp z hz, hsomez, hzs⟩ hxy hyz
      · -- two others and a server
        have hxy := registry_nonpos hxr hyr hxy
        rw [(mixed_nonpos hS hnatural (hp z hz) (hp y hy) hzs hyr).2] at hyz
        rw [(mixed_nonpos hS hnatural (hp z hz) (hp x hx) hzs hxr).2]
        exact ordersOn_plain.lt_of_le_of_lt (hplain hx) (hplain hy) (hplain hz) hxy hyz
    · rw [(mixed_nonpos hS hnatural (hp y hy) (hp x hx) hys hxr).2] at hxy
      by_cases hzs : z.uri.host = []
      · -- a server between two others
        have hzr : RegistryBased z := ⟨hsomez, hzs⟩
        rw [(mixed_nonpos hS hnatural (hp y hy) (hp z hz) hys hzr).1] at hyz
        exact registry_lt hxr hzr (ordersOn_plain.lt_of_lt_of_le (hplain hx) (hplain hy) (hplain hz) hxy hyz.le)
      · -- two servers behind another
        have hswap := hierarchies_swap hS hnatural (hp z hz) (hp x hx)
        have hback := compare_swap (hplain hx) (hplain hy)
        by_contra hnot
        have hzx := (mixed_nonpos hS hnatural (hp z hz) (hp x hx) hzs hxr).1.mp (by omega)
        have hyx := hapart y z x hy hz hx hys hzs hxr hyz hzx
        omega
  · by_cases hys : y.uri.host = []
    · have hyr : RegistryBased y := ⟨hsomey, hys⟩
      rw [(mixed_nonpos hS hnatural (hp x hx) (hp y hy) hxs hyr).1] at hxy
      by_cases hzs : z.uri.host = []
      · -- a server and two others
        have hzr : RegistryBased z := ⟨hsomez, hzs⟩
        have hyz := registry_nonpos hyr hzr hyz
        rw [(mixed_nonpos hS hnatural (hp x hx) (hp z hz) hxs hzr).1]
        exact ordersOn_plain.lt_of_lt_of_le (hplain hx) (hplain hy) (hplain hz) hxy hyz
      · -- another between two servers
        rw [(mixed_nonpos hS hnatural (hp z hz) (hp y hy) hzs hyr).2] at hyz
        have hswap := hierarchies_swap hS hnatural (hp z hz) (hp x hx)
        have hback := compare_swap (hplain hy) (hplain hz)
        by_contra hnot
        have hzy := hapart z x y hz hx hy hzs hxs hyr (by omega) hxy
        omega
    · by_cases hzs : z.uri.host = []
      · have hzr : RegistryBased z := ⟨hsomez, hzs⟩
        rw [(mixed_nonpos hS hnatural (hp y hy) (hp z hz) hys hzr).1] at hyz
        rw [(mixed_nonpos hS hnatural (hp x hx) (hp z hz) hxs hzr).1]
        exact hapart x y z hx hy hz hxs hys hzr hxy hyz
      · exact (ordersOn_serverBased hS hnatural).trans x y z ⟨hp x hx, hxs⟩ ⟨hp y hy, hys⟩ ⟨hp z hz, hzs⟩ hxy hyz

end Kinds

/-! ### When the comparison is an order -/

/-- No registry-based authority stands between those of two servers of its scheme in another way than the servers are
ordered. -/
def Apart (S : Set URI) : Prop :=
  ∀ s ∈ S, ∀ t ∈ S, ∀ r ∈ S, SameScheme s t → SameScheme t r → ServerBased s → ServerBased t → RegistryBased r →
    thenBy (servers s t) (rests s t) ≤ 0 → StringUtils.compare t.uri.authority r.uri.authority < 0 →
      StringUtils.compare s.uri.authority r.uri.authority < 0

theorem comparePart_ignoreCase (ha : Plain a) (hb : Plain b) :
    comparePart compareIgnoreCase a b = 0 ↔ a.map toUpperCase = b.map toUpperCase := by
  rw [comparePart_eq_zero, compareIgnoreCase_eq_zero ha hb]
  constructor
  · rintro (⟨rfl, rfl⟩ | ⟨-, -, heq⟩)
    · rfl
    · exact heq
  · intro heq
    by_cases hnil : a = []
    · rw [hnil, map_nil, eq_comm, map_eq_nil_iff] at heq
      exact .inl ⟨hnil, heq⟩
    · refine .inr ⟨hnil, fun hnil' => hnil ?_, heq⟩
      rwa [hnil', map_nil, map_eq_nil_iff] at heq

theorem leads_eq_zero (hu : Formed u.uri) (hv : Formed v.uri) :
    leads u v = 0 ↔ SameScheme u v ∧ u.uri.isOpaque = v.uri.isOpaque := by
  have hopacity : opacity u v = 0 ↔ u.uri.isOpaque = v.uri.isOpaque := by
    rw [opacity]
    cases u.uri.isOpaque <;> cases v.uri.isOpaque <;> decide
  rw [leads, thenBy_eq_zero, comparePart_ignoreCase hu.scheme hv.scheme, hopacity]
  rfl

section Order

variable {S : Set URI} (hS : ∀ u ∈ S, Formed u.uri) (hnatural : NaturallyOrdered S)
include hS hnatural

theorem comparison_swap {u v : URI} (hu : u ∈ S) (hv : v ∈ S) : comparison v u = -comparison u v := by
  have hleads := (ordersOn_leads hS).swap u v hu hv
  rw [comparison, comparison, hleads]
  by_cases hzero : leads u v = 0
  · have hflag := ((leads_eq_zero (hS u hu) (hS v hv)).mp hzero).2
    rw [hzero, neg_zero, thenBy_zero, thenBy_zero, ← hflag]
    split_ifs with h
    · exact (ordersOn_opaques hnatural).swap u v ⟨hu, h⟩ ⟨hv, hflag ▸ h⟩
    · exact hierarchies_swap hS hnatural hu hv
  · rw [thenBy_of_ne hzero, thenBy_of_ne (by omega)]

theorem ordersOn_comparison (hapart : Apart S) : OrdersOn comparison (· ∈ S) := by
  refine ⟨fun u v hu hv => comparison_swap hS hnatural hu hv, ?_⟩
  refine ((ordersOn_leads hS).thenBy
    (d := fun u v => if u.uri.isOpaque then opaques u v else thenBy (authorities u v) (rests u v)) ?_ ?_).trans
  · intro x y hx hy hzero
    have hswap := comparison_swap hS hnatural hx hy
    have hback := (ordersOn_leads hS).swap x y hx hy
    rwa [comparison, comparison, hback, hzero, neg_zero, thenBy_zero, thenBy_zero] at hswap
  · intro x y z hx hy hz hxy hyz
    obtain ⟨hscheme, hflag⟩ := (leads_eq_zero (hS x hx) (hS y hy)).mp hxy
    obtain ⟨hscheme', hflag'⟩ := (leads_eq_zero (hS y hy) (hS z hz)).mp hyz
    simp only [← hflag]
    by_cases h : x.uri.isOpaque = true
    · rw [if_pos h, if_pos h, if_pos h]
      exact (ordersOn_opaques hnatural).trans x y z ⟨hx, h⟩ ⟨hy, hflag ▸ h⟩ ⟨hz, hflag' ▸ hflag ▸ h⟩
    · rw [if_neg h, if_neg h, if_neg h]
      have horders := ordersOn_hierarchies hS hnatural (p := fun u => u ∈ S ∧ SameScheme u x) (fun u hu => hu.1) (by
        intro s t r hs ht hr hserver hserver' hregistry hle
        refine hapart s hs.1 t ht.1 r hr.1 (hs.2.trans ht.2.symm) (ht.2.trans hr.2.symm) hserver hserver' hregistry ?_
        rwa [hierarchies, authorities_servers (hS s hs.1) (hS t ht.1) hserver hserver'] at hle)
      exact horders.trans x y z ⟨hx, rfl⟩ ⟨hy, hscheme.symm⟩ ⟨hz, (hscheme.trans hscheme').symm⟩

end Order

end URI

end ActiveMQCpp.Decaf
