import ActiveMQCpp.DecafURIOrder

/-! What a set of parsed URIs needs of `compareTo`: the opposite for the exchanged ones, an order, `operator<` of the
kind that `std::set` asks for, and no difference between equal URIs. -/

namespace ActiveMQCpp.Decaf.URI

open Codec Character URIEncoderDecoder URIHelper StringUtils Comparison

variable {a b : ByteString} {u v : URI} {r r' : URIType}
variable {s : ByteString}

/-! ### Equal URIs -/

theorem lowerHex_eq_nil : lowerHex s = [] ↔ s = [] := by
  have htake := take_lowerHex s
  constructor
  · intro hnil
    rw [hnil] at htake
    cases s with
    | nil => rfl
    | cons c s => cases htake
  · rintro rfl
    rfl

theorem decodes_lowerHex {t : ByteString} (h : Decodes s t) : Decodes (lowerHex s) t := by
  have hdigit (d : UInt8) : digit (toLowerCase d) 16 = digit d 16 := by
    have hlower := toNat_toLowerCase d
    rw [digit, digit]
    split_ifs at * <;> omega
  induction h with
  | nil => exact .nil
  | char hne _ ih =>
    rw [lowerHex_char hne]
    exact .char hne ih
  | @escape d1 d2 s t hd1 hd2 _ ih =>
    rw [lowerHex_escape, ← hdigit d1, ← hdigit d2]
    exact .escape (by rw [hdigit]; exact hd1) (by rw [hdigit]; exact hd2) ih

/-- What is equal up to the case of the escapes decodes to the same. -/
theorem text_of_lowerHex (ha : Encoded a) (hb : Encoded b) (h : lowerHex a = lowerHex b) : text a = text b := by
  obtain ⟨t, ht⟩ := ha.escapes
  obtain ⟨t', ht'⟩ := hb.escapes
  have hsame := decode_of_decodes (decodes_lowerHex ht)
  rw [h, decode_of_decodes (decodes_lowerHex ht')] at hsame
  rw [text, text, decode_of_decodes ht, decode_of_decodes ht', hsame]

theorem andAlso_eq_true {a b : Option Bool} : andAlso a b = some true ↔ a = some true ∧ b = some true := by
  match a with
  | none => simp [andAlso]
  | some true => simp [andAlso]
  | some false => simp [andAlso]

theorem equalPart_eq_true {equal : Option Bool} :
    equalPart equal a b = some true ↔ a = [] ∧ b = [] ∨ a ≠ [] ∧ b ≠ [] ∧ equal = some true := by
  by_cases ha : a = []
  · simp [equalPart, ha]
  · by_cases hb : b = [] <;> simp [equalPart, ha, hb]

/-- Two parts are equal up to the case of their escapes. -/
theorem equalPart_hex {a' b' : ByteString} (ha : Encoded a) (hb : Encoded b) (ha' : Encoded a') (hb' : Encoded b')
    (hsame : lowerHex a' = lowerHex b' ↔ lowerHex a = lowerHex b) :
    equalPart (equalsHexCaseInsensitive a' b') a b = some true ↔ lowerHex a = lowerHex b := by
  rw [equalPart_eq_true, equalsHexCaseInsensitive_eq ha' hb', Option.some.injEq, decide_eq_true_eq, hsame]
  constructor
  · rintro (⟨rfl, rfl⟩ | ⟨-, -, heq⟩)
    · rfl
    · exact heq
  · intro heq
    by_cases hnil : a = []
    · rw [hnil, lowerHex, eq_comm, lowerHex_eq_nil] at heq
      exact .inl ⟨hnil, heq⟩
    · refine .inr ⟨hnil, fun hnil' => hnil ?_, heq⟩
      rwa [hnil', lowerHex, lowerHex_eq_nil] at heq

/-- The same authorities up to the case of the host and the escapes. -/
structure AlikeAuthorities (r r' : URIType) : Prop where
  present : r.authority = [] ↔ r'.authority = []
  kind : r.host = [] ↔ r'.host = []
  registry : r.authority ≠ [] → r.host = [] → lowerHex r.authority = lowerHex r'.authority
  server : r.host ≠ [] → r.host.map toUpperCase = r'.host.map toUpperCase ∧ r.port = r'.port ∧
    lowerHex r.userinfo = lowerHex r'.userinfo

structure AlikeHierarchies (r r' : URIType) : Prop where
  path : lowerHex r.path = lowerHex r'.path
  query : lowerHex r.query = lowerHex r'.query
  authority : AlikeAuthorities r r'

/-- The same parts up to the case of the scheme, the host and the escapes. -/
structure Alike (u v : URI) : Prop where
  scheme : SameScheme u v
  isOpaque : u.uri.isOpaque = v.uri.isOpaque
  fragment : lowerHex u.uri.fragment = lowerHex v.uri.fragment
  opaquePart : u.uri.isOpaque = true → lowerHex u.uri.schemeSpecificPart = lowerHex v.uri.schemeSpecificPart
  hierarchy : u.uri.isOpaque = false → AlikeHierarchies u.uri v.uri

theorem equals_scheme (hu : Formed u.uri) (hv : Formed v.uri) :
    equalPart (some (decide (compareIgnoreCase v.uri.scheme u.uri.scheme = 0))) v.uri.scheme u.uri.scheme = some true ↔
      SameScheme u v := by
  have hpart : equalPart (some (decide (compareIgnoreCase v.uri.scheme u.uri.scheme = 0))) v.uri.scheme u.uri.scheme =
      some true ↔ comparePart compareIgnoreCase v.uri.scheme u.uri.scheme = 0 := by
    rw [equalPart_eq_true, comparePart_eq_zero, Option.some.injEq, decide_eq_true_eq]
  rw [hpart, comparePart_ignoreCase hv.scheme hu.scheme, SameScheme, eq_comm]

theorem Formed.host_nil (h : Formed r) (hnil : r.authority = []) : r.host = [] := by
  by_contra hhost
  exact h.authority_ne hhost hnil

theorem equals_servers (h : Formed r) (h' : Formed r') :
    equalServers r r' = some true ↔ r.host.map toUpperCase = r'.host.map toUpperCase ∧ r.port = r'.port ∧
      lowerHex r.userinfo = lowerHex r'.userinfo := by
  rw [equalServers, andAlso_eq_true, andAlso_eq_true, Option.some.injEq, Option.some.injEq, decide_eq_true_eq,
    decide_eq_true_eq, compareIgnoreCase_eq_zero h'.host h.host,
    equalPart_hex h'.userinfo h.userinfo h.userinfo h'.userinfo eq_comm]
  exact and_congr eq_comm (and_congr Iff.rfl eq_comm)

theorem equals_authorities (h : Formed r) (h' : Formed r') :
    equalPart (equalAuthorities r r') r'.authority r.authority = some true ↔ AlikeAuthorities r r' := by
  rw [equalPart_eq_true]
  constructor
  · rintro (⟨hnil', hnil⟩ | ⟨hne', hne, hequal⟩)
    · have hhost := h.host_nil hnil
      exact ⟨by simp [hnil, hnil'], by simp [hhost, h'.host_nil hnil'], fun hne => absurd hnil hne, fun hne => absurd hhost hne⟩
    · have hpresent : r.authority = [] ↔ r'.authority = [] := by simp [hne, hne']
      rw [equalAuthorities] at hequal
      split_ifs at hequal with hmixed hnone
      · cases hequal
      · rw [equalsHexCaseInsensitive_eq h'.authority h.authority, Option.some.injEq, decide_eq_true_eq] at hequal
        exact ⟨hpresent, by simp [hnone], fun _ _ => hequal.symm, fun hhost => absurd hnone.2 hhost⟩
      · rw [equals_servers h h'] at hequal
        refine ⟨hpresent, ?_, fun _ hhost => ?_, fun _ => hequal⟩
        · by_cases hhost : r.host = [] <;> by_cases hhost' : r'.host = [] <;> simp_all
        · by_cases hhost' : r'.host = [] <;> simp_all
  · intro halike
    by_cases hnil : r.authority = []
    · exact .inl ⟨halike.present.mp hnil, hnil⟩
    · refine .inr ⟨fun hnil' => hnil (halike.present.mpr hnil'), hnil, ?_⟩
      have hkind := halike.kind
      rw [equalAuthorities, if_neg (by tauto)]
      by_cases hhost : r.host = []
      · rw [if_pos ⟨hkind.mp hhost, hhost⟩, equalsHexCaseInsensitive_eq h'.authority h.authority,
          halike.registry hnil hhost, decide_eq_true rfl]
      · rw [if_neg fun hnone => hhost hnone.2, equals_servers h h']
        exact halike.server hhost

theorem equals_hierarchies (h : Formed r) (h' : Formed r') :
    equalHierarchical r r' = some true ↔ AlikeHierarchies r r' := by
  rw [equalHierarchical, andAlso_eq_true, andAlso_eq_true, equalsHexCaseInsensitive_eq h.path h'.path, Option.some.injEq,
    decide_eq_true_eq, equalPart_hex h'.query h.query h'.query h.query Iff.rfl, equals_authorities h h']
  exact ⟨fun hall => ⟨hall.1, hall.2.1.symm, hall.2.2⟩, fun halike => ⟨halike.path, halike.query.symm, halike.authority⟩⟩

theorem equals_iff (hu : Formed u.uri) (hv : Formed v.uri) : equals u v = some true ↔ Alike u v := by
  rw [equals, andAlso_eq_true, andAlso_eq_true, equalPart_hex hv.fragment hu.fragment hv.fragment hu.fragment Iff.rfl,
    equals_scheme hu hv]
  cases hflag : u.uri.isOpaque with
  | true =>
    cases hflag' : v.uri.isOpaque with
    | false =>
      refine ⟨fun h => (nomatch h.2.2), fun h => ?_⟩
      have hsame := h.isOpaque
      rw [hflag, hflag'] at hsame
      cases hsame
    | true =>
      simp only [equalsHexCaseInsensitive_eq (hv.opaquePart hflag').1 (hu.opaquePart hflag).1, Option.some.injEq,
        decide_eq_true_eq]
      constructor
      · rintro ⟨hfragment, hscheme, hpart⟩
        exact ⟨hscheme, hflag.trans hflag'.symm, hfragment.symm, fun _ => hpart.symm, fun h => by
          rw [hflag] at h
          cases h⟩
      · intro h
        exact ⟨h.fragment.symm, h.scheme, (h.opaquePart hflag).symm⟩
  | false =>
    cases hflag' : v.uri.isOpaque with
    | true =>
      refine ⟨fun h => (nomatch h.2.2), fun h => ?_⟩
      have hsame := h.isOpaque
      rw [hflag, hflag'] at hsame
      cases hsame
    | false =>
      simp only [equals_hierarchies hu hv]
      constructor
      · rintro ⟨hfragment, hscheme, hhierarchy⟩
        refine ⟨hscheme, hflag.trans hflag'.symm, hfragment.symm, fun h => ?_, fun _ => hhierarchy⟩
        rw [hflag] at h
        cases h
      · intro h
        exact ⟨h.fragment.symm, h.scheme, h.hierarchy hflag⟩

theorem comparePart_text {c : ByteString → ByteString → Int} (hself : ∀ t, c t t = 0) (ha : Encoded a)
    (hb : Encoded b) (h : lowerHex a = lowerHex b) : comparePart c (text a) (text b) = 0 ∧ signOf (c (text a) (text b)) = 0 := by
  rw [text_of_lowerHex ha hb h, hself]
  refine ⟨?_, rfl⟩
  rw [comparePart_eq_zero]
  by_cases hnil : text b = []
  · exact .inl ⟨hnil, hnil⟩
  · exact .inr ⟨hnil, hnil, hself _⟩

/-- The comparison finds no difference between equal URIs, unless a registry-based authority is written in two ways. -/
theorem comparison_of_alike (hu : Formed u.uri) (hv : Formed v.uri) (h : Alike u v)
    (hspelling : RegistryBased u → u.uri.authority = v.uri.authority) : comparison u v = 0 := by
  have hfragment := (comparePart_text compare_self hu.fragment hv.fragment h.fragment).1
  rw [comparison, (leads_eq_zero hu hv).mpr ⟨h.scheme, h.isOpaque⟩, thenBy_zero]
  cases hflag : u.uri.isOpaque with
  | true =>
    have hpart := (comparePart_text compare_self (hu.opaquePart hflag).1 (hv.opaquePart (h.isOpaque ▸ hflag)).1
      (h.opaquePart hflag)).2
    rw [if_pos rfl, opaques, hpart, hfragment]
    rfl
  | false =>
    have hhierarchy := h.hierarchy hflag
    have hrests : rests u v = 0 := by
      rw [rests, (comparePart_text compare_self hu.path hv.path hhierarchy.path).2,
        (comparePart_text compare_self hu.query hv.query hhierarchy.query).1, hfragment]
      rfl
    have hauthorities : authorities u v = 0 := by
      have halike := hhierarchy.authority
      by_cases hnil : u.uri.authority = []
      · exact authorities_none hnil (halike.present.mp hnil)
      · by_cases hhost : u.uri.host = []
        · rw [authorities_registry hnil (fun hnil' => hnil (halike.present.mpr hnil')) (.inl hhost), hspelling ⟨hnil, hhost⟩,
            compare_self]
          rfl
        · obtain ⟨hhosts, hport, huserinfo⟩ := halike.server hhost
          rw [authorities_servers hu hv hhost fun hhost' => hhost (halike.kind.mpr hhost'), servers,
            (comparePart_text compare_self hu.userinfo hv.userinfo huserinfo).1,
            (compareIgnoreCase_eq_zero hu.host hv.host).mpr hhosts, if_neg (not_not.mpr hport)]
          rfl
    rw [if_neg Bool.false_ne_true, hauthorities, hrests]
    rfl

/-! ### The laws -/

/-- What is asked of `compareTo` for a set of URIs. -/
structure Sound (S : Set URI) : Prop where
  antisymm : ∀ u ∈ S, ∀ v ∈ S, ∃ r, compareTo u v = .ok r ∧ compareTo v u = .ok (-r)
  trans : ∀ u ∈ S, ∀ v ∈ S, ∀ w ∈ S, ∀ r r', compareTo u v = .ok r → r ≤ 0 → compareTo v w = .ok r' → r' ≤ 0 →
    ∃ r'', compareTo u w = .ok r'' ∧ r'' ≤ 0
  less : IsStrictWeakOrder S fun u v => Less u v
  equal : ∀ u ∈ S, ∀ v ∈ S, equals u v = some true → compareTo u v = .ok 0

/-- No two URIs that are alike write a registry-based authority with other digits in its escapes. -/
def OneSpelling (S : Set URI) : Prop :=
  ∀ u ∈ S, ∀ v ∈ S, RegistryBased u → Alike u v → u.uri.authority = v.uri.authority

theorem thenBy_range {c d : Int} (hc : -1 ≤ c ∧ c ≤ 1) (hd : -1 ≤ d ∧ d ≤ 1) : -1 ≤ thenBy c d ∧ thenBy c d ≤ 1 := by
  rw [thenBy]
  split_ifs
  · exact hc
  · exact hd

theorem signOf_range (c : Int) : -1 ≤ signOf c ∧ signOf c ≤ 1 := by
  rw [signOf]
  split_ifs <;> decide

theorem comparePart_range (c : ByteString → ByteString → Int) (a b : ByteString) :
    -1 ≤ comparePart c a b ∧ comparePart c a b ≤ 1 := by
  rw [comparePart]
  split_ifs
  · decide
  · decide
  · decide
  · exact signOf_range _

theorem comparison_range (u v : URI) : -1 ≤ comparison u v ∧ comparison u v ≤ 1 := by
  have hopacity : -1 ≤ opacity u v ∧ opacity u v ≤ 1 := by
    rw [opacity]
    cases u.uri.isOpaque <;> cases v.uri.isOpaque <;> decide
  have hport : -1 ≤ (if u.uri.port ≠ v.uri.port then if u.uri.port - v.uri.port > 0 then (1 : Int) else -1 else 0) ∧
      (if u.uri.port ≠ v.uri.port then if u.uri.port - v.uri.port > 0 then (1 : Int) else -1 else 0) ≤ 1 := by
    split_ifs <;> decide
  have hservers : -1 ≤ servers u v ∧ servers u v ≤ 1 :=
    thenBy_range (comparePart_range _ _ _) (thenBy_range (signOf_range _) hport)
  have hauthorities : -1 ≤ authorities u v ∧ authorities u v ≤ 1 := by
    rw [authorities]
    split_ifs
    · exact comparePart_range _ _ _
    · exact hservers
    · exact signOf_range _
  have hrests : -1 ≤ rests u v ∧ rests u v ≤ 1 :=
    thenBy_range (signOf_range _) (thenBy_range (comparePart_range _ _ _) (comparePart_range _ _ _))
  apply thenBy_range (thenBy_range (comparePart_range _ _ _) hopacity)
  split_ifs
  · exact thenBy_range (signOf_range _) (comparePart_range _ _ _)
  · exact thenBy_range hauthorities hrests

theorem less_iff (hu : Formed u.uri) (hv : Formed v.uri) : Less u v ↔ comparison u v < 0 := by
  have hrange := comparison_range u v
  rw [Less, compareTo_eq hu hv, Except.ok.injEq]
  omega

theorem comparison_hierarchies (hu : Formed u.uri) (hv : Formed v.uri) (hscheme : SameScheme u v)
    (hsome : u.uri.authority ≠ []) (hsome' : v.uri.authority ≠ []) : comparison u v = hierarchies u v := by
  have hflag : u.uri.isOpaque = false := Bool.eq_false_iff.mpr fun h => hsome (hu.opaquePart h).2
  have hflag' : v.uri.isOpaque = false := Bool.eq_false_iff.mpr fun h => hsome' (hv.opaquePart h).2
  rw [comparison, (leads_eq_zero hu hv).mpr ⟨hscheme, by rw [hflag, hflag']⟩, thenBy_zero, hflag,
    if_neg Bool.false_ne_true]
  rfl

section Laws

variable {S : Set URI} (hS : ∀ u ∈ S, Formed u.uri)
include hS

theorem Sound.oneSpelling (h : Sound S) : OneSpelling S := by
  intro u hu v hv hregistry halike
  have hflag : u.uri.isOpaque = false := Bool.eq_false_iff.mpr fun h => hregistry.1 ((hS u hu).opaquePart h).2
  have hpresent := (halike.hierarchy hflag).authority.present
  have hsome : v.uri.authority ≠ [] := fun hnil => hregistry.1 (hpresent.mpr hnil)
  have hzero := h.equal u hu v hv ((equals_iff (hS u hu) (hS v hv)).mpr halike)
  rw [compareTo_eq (hS u hu) (hS v hv), Except.ok.injEq, comparison_hierarchies (hS u hu) (hS v hv) halike.scheme hregistry.1
    hsome, hierarchies, thenBy_eq_zero, authorities_registry hregistry.1 hsome (.inl hregistry.2), signOf_eq_zero] at hzero
  exact eq_of_compare (hS u hu).authority.plain (hS v hv).authority.plain hzero.1

variable (hnatural : NaturallyOrdered S)
include hnatural

theorem Sound.apart (h : Sound S) : Apart S := by
  intro s hs t ht r hr hscheme hscheme' hserver hserver' hregistry hle hlt
  have hsome := (hS s hs).authority_ne hserver
  have hsome' := (hS t ht).authority_ne hserver'
  have hst : comparison s t ≤ 0 := by
    rw [comparison_hierarchies (hS s hs) (hS t ht) hscheme hsome hsome', hierarchies,
      authorities_servers (hS s hs) (hS t ht) hserver hserver']
    exact hle
  have htr : comparison t r ≤ 0 := by
    rw [comparison_hierarchies (hS t ht) (hS r hr) hscheme' hsome' hregistry.1]
    exact (mixed_nonpos hS hnatural ht hr hserver' hregistry).1.mpr hlt
  obtain ⟨n, hn, hnonpos⟩ := h.trans s hs t ht r hr _ _ (compareTo_eq (hS s hs) (hS t ht)) hst
    (compareTo_eq (hS t ht) (hS r hr)) htr
  rw [compareTo_eq (hS s hs) (hS r hr), Except.ok.injEq,
    comparison_hierarchies (hS s hs) (hS r hr) (hscheme.trans hscheme') hsome hregistry.1] at hn
  exact (mixed_nonpos hS hnatural hs hr hserver hregistry).1.mp (hn ▸ hnonpos)

theorem strictWeak_less (hapart : Apart S) : IsStrictWeakOrder S fun u v => Less u v := by
  have horders := ordersOn_comparison hS hnatural hapart
  have hless (u v : S) : Less u v ↔ comparison u v < 0 := less_iff (hS u u.2) (hS v v.2)
  have hswap (u v : S) := horders.swap u v u.2 v.2
  have htrans (u v w : S) := horders.trans u v w u.2 v.2 w.2
  refine { irrefl := fun u h => ?_, trans := fun u v w huv hvw => ?_, incomp_trans := fun u v w huv hvw => ?_ }
  · rw [hless, horders.self u.2] at h
    omega
  · rw [hless] at huv hvw ⊢
    exact horders.lt_of_lt_of_le u.2 v.2 w.2 huv hvw.le
  · rw [hless, hless] at huv hvw ⊢
    have hvu := hswap u v
    have hwv := hswap v w
    have hwu := hswap u w
    have hle := htrans u v w (by omega) (by omega)
    have hge := htrans w v u (by omega) (by omega)
    omega

end Laws

/-- **When `compareTo` can be relied on**, for parsed URIs whose decoded parts the natural order is one on: no registry-based
authority stands between servers against their order, and none is written in two ways. It is an order on parts without
white space and zero. -/
theorem soundOrder_iff {S : Set URI} (hparsed : ∀ u ∈ S, Parsed u) :
    (NaturallyOrdered S → (Sound S ↔ Apart S ∧ OneSpelling S)) ∧
      ((∀ u ∈ S, ∀ t ∈ decodedParts u, Plain t) → NaturallyOrdered S) := by
  have hS : ∀ u ∈ S, Formed u.uri := fun u hu => (hparsed u hu).formed
  refine ⟨fun hnatural => ⟨fun h => ⟨h.apart hS hnatural, h.oneSpelling hS⟩, fun ⟨hapart, hspelling⟩ => ?_⟩, naturallyOrdered⟩
  have horders := ordersOn_comparison hS hnatural hapart
  refine ⟨fun u hu v hv => ?_, fun u hu v hv w hw r r' hr hle hr' hle' => ?_, strictWeak_less hS hnatural hapart,
    fun u hu v hv h => ?_⟩
  · refine ⟨comparison u v, compareTo_eq (hS u hu) (hS v hv), ?_⟩
    rw [compareTo_eq (hS v hv) (hS u hu), horders.swap u v hu hv]
  · rw [compareTo_eq (hS u hu) (hS v hv)] at hr
    rw [compareTo_eq (hS v hv) (hS w hw)] at hr'
    obtain rfl := Except.ok.inj hr
    obtain rfl := Except.ok.inj hr'
    exact ⟨_, compareTo_eq (hS u hu) (hS w hw), horders.trans u v w hu hv hw hle hle'⟩
  · have halike := (equals_iff (hS u hu) (hS v hv)).mp h
    rw [compareTo_eq (hS u hu) (hS v hv), comparison_of_alike (hS u hu) (hS v hv) halike fun hregistry =>
      hspelling u hu v hv hregistry halike]

/-- A server and a registry-based authority. -/
theorem soundOrder_iff_two :
    ∃ u v, ofString (ascii "//a/x%41") = .ok u ∧ ofString (ascii "//Z_") = .ok v ∧ Sound {u, v} := by
  have hu : ofString (ascii "//a/x%41") = .ok
      { uri := { schemeSpecificPart := ascii "//a/x%41", authority := ascii "a", host := ascii "a", path := ascii "/x%41",
                 serverAuthority := true }
        uriString := ascii "//a/x%41" } := by decide +kernel
  have hv : ofString (ascii "//Z_") = .ok
      { uri := { schemeSpecificPart := ascii "//Z_", authority := ascii "Z_" }, uriString := ascii "//Z_" } := by decide +kernel
  refine ⟨_, _, hu, hv, ?_⟩
  obtain ⟨hiff, hnatural⟩ := soundOrder_iff (S := {_, _}) (by
    rintro u (rfl | rfl)
    · exact parsed_ofString hu
    · exact parsed_ofString hv)
  refine (hiff (hnatural ?_)).mpr ⟨?_, ?_⟩
  · rintro u (rfl | rfl) <;> decide +kernel
  · rintro s (rfl | rfl) t (rfl | rfl) r - - - hserver hserver' - - hlt
    · exact hlt
    · exact absurd rfl hserver'
    · exact absurd rfl hserver
    · exact absurd rfl hserver
  · rintro u (rfl | rfl) v (rfl | rfl) hregistry halike
    · rfl
    · exact absurd hregistry.2 (by decide)
    · exact absurd ((halike.hierarchy rfl).authority.kind.mp rfl) (by decide)
    · rfl

/-- `C` comes before `Z_` and that before `b`, which comes before `C` when both are hosts. An escape of a registry-based
authority is written in two ways. White space in a path leads to the other string. -/
theorem compareTo_no_order :
    let compared (s t : String) : Except URIException Int := do compareTo (← ofString (ascii s)) (← ofString (ascii t))
    let equal (s t : String) : Except URIException (Option Bool) := do
      pure (equals (← ofString (ascii s)) (← ofString (ascii t)))
    (compared "//C" "//Z_" = .ok (-1) ∧ compared "//Z_" "//b" = .ok (-1) ∧ compared "//C" "//b" = .ok 1) ∧
      (equal "//_%4a" "//_%4A" = .ok (some true) ∧ compared "//_%4a" "//_%4A" = .ok 1) ∧
      compared "/aa" "/%20b" = .ok 1 ∧ compared "/%20b" "/aa" = .ok 1 := by decide +kernel

end ActiveMQCpp.Decaf.URI
