import ActiveMQCpp.DecafURIComponents

/-! Every constructor of a URI from its components: exactly when the getters return the components, and the string of
the URI is read back as the same URI. -/

namespace ActiveMQCpp.Decaf

open Character URIEncoderDecoder URIHelper URI List URIReference

namespace URIComponents

variable {r : URIType}

/-! ### The authority of a server -/

section Server

variable {userInfo host : ByteString} {port : Int}

/-- What is to be returned as the authority. -/
def givenAuthority (userInfo host : ByteString) (port : Int) : ByteString :=
  before userInfo (ascii "@") ++ hostText host port

theorem mem_hostText {c : UInt8} (hbrackets : c ≠ 91 ∧ c ≠ 93) (hport : c ≠ 58 ∧ c ≠ 45)
    (hdigit : ¬ (48 ≤ c.toNat ∧ c.toNat ≤ 57)) : c ∈ hostText host port ↔ c ∈ host := by
  have hnumber : c ∉ Integer.toString port := by
    rw [Integer.toString, Long.toString]
    split_ifs
    · rw [mem_cons]
      rintro (heq | hmem)
      · exact hport.2 heq
      · exact hdigit (Long.mem_digits hmem)
    · exact fun hmem => hdigit (Long.mem_digits hmem)
  have hsuffix : c ∉ (if port = -1 then [] else ascii ":" ++ Integer.toString port : ByteString) := by
    split_ifs
    · exact not_mem_nil
    · refine not_mem_append ?_ hnumber
      exact fun hmem => hport.1 (mem_singleton.mp hmem)
  have hbracketed : c ∈ bracketed host ↔ c ∈ host := by
    rw [bracketed]
    split_ifs
    · rw [mem_append, mem_append]
      constructor
      · rintro ((hmem | hmem) | hmem)
        · exact absurd (mem_singleton.mp hmem) hbrackets.1
        · exact hmem
        · exact absurd (mem_singleton.mp hmem) hbrackets.2
      · exact fun hmem => .inl (.inr hmem)
    · exact Iff.rfl
  rw [hostText, mem_append, hbracketed]
  exact or_iff_left hsuffix

theorem decode_serverAuthority (s : ByteString) :
    decode ((if userInfo = [] then [] else quoteIllegal userInfo someLegal ++ ascii "@") ++ s) =
      (decode s).map (before userInfo (ascii "@") ++ ·) := by
  have hquoted : ∀ (u s : ByteString), decode (quoteIllegal u someLegal ++ s) = (decode s).map (u ++ ·) := by
    intro u s
    induction u with
    | nil => cases hs : decode s <;> simp [quoteIllegal, hs, Except.map]
    | cons c u ih =>
      rw [quoteIllegal, flatMap_cons, append_assoc, decode_quoteChar (by decide),
        show u.flatMap (quoteChar someLegal) = quoteIllegal u someLegal from rfl, ih]
      cases decode s <;> rfl
  rw [before]
  split_ifs
  · rw [nil_append]
    cases decode s <;> rfl
  · rw [append_assoc, hquoted, show ascii "@" ++ s = 64 :: s from rfl, decode_char (by decide)]
    cases decode s with
    | error e => rfl
    | ok t =>
      show Except.ok (userInfo ++ 64 :: t) = Except.ok (userInfo ++ ascii "@" ++ t)
      rw [append_assoc]
      rfl

theorem decode_eq_self {s : ByteString} : decode s = .ok s ↔ 37 ∉ s := by
  constructor
  · intro h hmem
    exact lt_irrefl _ ((decodes_of_decode h).length_lt hmem)
  · intro h
    have hplain := decode_plain_append h (rfl : decode [] = .ok [])
    rwa [append_nil] at hplain

theorem decode_given : decode (serverAuthority userInfo host port) = .ok (givenAuthority userInfo host port) ↔ 37 ∉ host := by
  rw [serverAuthority, decode_serverAuthority, givenAuthority,
    ← show 37 ∈ hostText host port ↔ 37 ∈ host from mem_hostText (by decide) (by decide) (by decide), ← decode_eq_self]
  constructor
  · intro h
    obtain ⟨t, ht, heq⟩ := map_eq_ok h
    rw [ht, append_cancel_left heq]
  · intro h
    rw [h]
    rfl

theorem written_server : Written (some (serverAuthority userInfo host port)) (givenAuthority userInfo host port) := by
  have hslashes : ∀ c, c = 47 ∨ c = 63 ∨ c = 35 →
      c ∉ (if userInfo = [] then [] else quoteIllegal userInfo someLegal ++ ascii "@" : ByteString) := by
    intro c hc
    split_ifs
    · exact not_mem_nil
    · refine not_mem_append ?_ ?_
      · rcases hc with rfl | rfl | rfl <;>
          exact not_mem_quoteIllegal (by decide) (by decide) (by decide) (by decide) userInfo
      · rcases hc with rfl | rfl | rfl <;> decide
  refine ⟨?_, ?_, ?_⟩
  · show givenAuthority userInfo host port = [] ↔ serverAuthority userInfo host port = []
    rw [givenAuthority, serverAuthority, before, append_eq_nil_iff, append_eq_nil_iff]
    split_ifs with hempty
    · exact Iff.rfl
    · exact iff_of_false (fun h => append_ne_nil_of_right_ne_nil _ (cons_ne_nil _ _) h.1)
        fun h => append_ne_nil_of_right_ne_nil _ (cons_ne_nil _ _) h.1
  · show (givenAuthority userInfo host port).count 58 ≤ (serverAuthority userInfo host port).count 58
    rw [givenAuthority, serverAuthority, before, count_append, count_append]
    split_ifs
    · exact le_rfl
    · rw [count_append, count_append, count_quoteIllegal (by decide) (by decide) (by decide)]
  · intro a c b hsplit hc hdecode
    have hshape : ∃ t, a = (if userInfo = [] then [] else quoteIllegal userInfo someLegal ++ ascii "@") ++ t ∧
        hostText host port = t ++ c :: b := by
      rcases append_eq_append_iff.mp (Option.some.inj hsplit) with ⟨t, ht, hrest⟩ | ⟨t, ht, hrest⟩
      · exact ⟨t, ht, hrest⟩
      · cases t with
        | nil => exact ⟨[], by rw [ht, append_nil, append_nil], hrest.symm⟩
        | cons d t =>
          rw [(List.cons.inj hrest).1] at hc
          exact absurd (ht ▸ mem_append_right a mem_cons_self) (hslashes d hc)
    obtain ⟨t, rfl, hhost⟩ := hshape
    rw [decode_serverAuthority, givenAuthority] at hdecode
    obtain ⟨t', ht', heq⟩ := map_eq_ok hdecode
    have hle := (decodes_of_decode ht').length_le
    rw [append_cancel_left heq, hhost, length_append, length_cons] at hle
    omega

theorem bracketed_cases (host : ByteString) :
    bracketed host = host ∨ (91 ∉ host ∧ bracketed host = 91 :: (host ++ [93])) := by
  rw [bracketed]
  by_cases hadd : (host.contains 58 && !host.contains 93 && !host.contains 91) = true
  · right
    rw [if_pos hadd]
    refine ⟨fun hmem => ?_, rfl⟩
    rw [Bool.and_eq_true, Bool.not_eq_true', ← Bool.not_eq_true, contains_iff_mem] at hadd
    exact hadd.2 hmem
  · left
    rw [if_neg hadd]

theorem userinfo_server {server : Option ServerAuthority}
    (hparse : parseAuthority true (serverAuthority userInfo host port) = .ok server) :
    decode ((server.map ServerAuthority.userinfo).getD []) = .ok userInfo ↔
      (userInfo = [] → 64 ∈ host → host.head? = some 64) := by
  have hmem : 64 ∈ hostText host port ↔ 64 ∈ host := mem_hostText (by decide) (by decide) (by decide)
  cases server with
  | none =>
    have hnone := written_server.empty.mpr ((parseAuthority_forced hparse).2 rfl)
    obtain ⟨huser, hhost⟩ := append_eq_nil_iff.mp hnone
    have huserInfo : userInfo = [] := by
      by_contra hne
      rw [before, if_neg hne] at huser
      exact append_ne_nil_of_right_ne_nil _ (cons_ne_nil _ _) huser
    refine iff_of_true ?_ fun _ hin => ?_
    · rw [huserInfo]
      rfl
    · rw [hhost] at hmem
      exact absurd (hmem.mpr hin) not_mem_nil
  | some server =>
    have huserinfo := parseAuthority_userinfo hparse
    show decode server.userinfo = .ok userInfo ↔ _
    rw [huserinfo]
    by_cases hempty : userInfo = []
    · have hauthority : serverAuthority userInfo host port = hostText host port := by
        rw [serverAuthority, if_pos hempty, nil_append]
      rw [hauthority] at hparse ⊢
      by_cases hin : 64 ∈ host
      · obtain ⟨x, y, hsplit, hx⟩ := eq_append_cons_of_mem (hmem.mpr hin)
        have hx' : decode x = .ok userInfo ↔ x = [] := by
          rw [hempty]
          refine ⟨fun h => (decodes_of_decode h).eq_nil, ?_⟩
          rintro rfl
          rfl
        rw [hsplit, splitUserinfo_marked hx, hx']
        have hhost : host ≠ [] := by
          rintro rfl
          cases hin
        have hhead : (hostText host port).head? = (bracketed host).head? := by
          cases hb : bracketed host with
          | nil =>
            rcases bracketed_cases host with hsame | ⟨-, hadd⟩
            · exact absurd (hsame.symm.trans hb) hhost
            · rw [hadd] at hb
              cases hb
          | cons c rest => rw [hostText, hb]; rfl
        constructor
        · rintro rfl _ -
          rw [hsplit] at hhead
          rcases bracketed_cases host with hsame | ⟨-, hadd⟩
          · rw [hsame] at hhead
            exact hhead.symm
          · rw [hadd] at hhead
            cases hhead
        · intro hcond
          have hfirst := hcond hempty hin
          rcases bracketed_cases host with hsame | ⟨-, hadd⟩
          · rw [hsame, hfirst, hsplit] at hhead
            cases x with
            | nil => rfl
            | cons c x =>
              cases hhead
              exact absurd mem_cons_self hx
          · exfalso
            have hbracket : 91 ∈ x := by
              rw [hadd, hsplit] at hhead
              cases x with
              | nil => cases hhead
              | cons c x =>
                cases hhead
                exact mem_cons_self
            have hne : hostText host port ≠ [] := by
              rw [hsplit]
              exact append_ne_nil_of_right_ne_nil x (cons_ne_nil _ _)
            obtain ⟨hvalid, -⟩ := parseAuthority_ok hne hparse
            rw [hsplit, splitUserinfo_marked hx, validateUserinfo] at hvalid
            have hcontains : x.contains 91 = true := contains_iff_mem.mpr hbracket
            rw [hcontains] at hvalid
            cases hvalid
      · rw [splitUserinfo_none (mt hmem.mp hin), hempty]
        exact iff_of_true rfl fun _ h => absurd h hin
    · have hat : 64 ∉ quoteIllegal userInfo someLegal :=
        not_mem_quoteIllegal (by decide) (by decide) (by decide) (by decide) userInfo
      have hauthority : serverAuthority userInfo host port =
          quoteIllegal userInfo someLegal ++ 64 :: hostText host port := by
        rw [serverAuthority, if_neg hempty, append_assoc]
        rfl
      rw [hauthority, splitUserinfo_marked hat]
      exact iff_of_true (decode_quoteIllegal (by decide) userInfo) fun h => absurd h hempty

end Server

/-! ### A scheme-specific part as a whole -/

section SchemeSpecific

variable {ref : URIReference}
variable {ssp : ByteString}

/-- No empty authority that is missed when it is not printed. -/
def KeptPart (hasScheme : Prop) (ssp : ByteString) : Prop :=
  ¬ [47, 47, 47, 47] <+: ssp ∧ (hasScheme → ssp ≠ [47, 47] ∧ ¬ [47, 47, 63] <+: ssp)

/-- What stands behind the scheme of a string, which is its start up to the first `:` before all `/` and `?`. -/
def KeptText (text : ByteString) : Prop :=
  KeptPart False text ∧ ∀ a b, text = a ++ 58 :: b → 58 ∉ a ∧ 47 ∉ a ∧ 63 ∉ a → KeptPart True b

theorem keptText_schemed {scheme : Option ByteString}
    (hscheme : ∀ a ∈ scheme, 58 ∉ a ∧ 47 ∉ a ∧ 63 ∉ a) (hless : scheme = none → Schemeless ssp) :
    KeptText (schemed scheme ++ ssp) ↔ KeptPart (scheme ≠ none) ssp := by
  cases scheme with
  | none =>
    constructor
    · exact fun h => ⟨h.1.1, fun hne => absurd rfl hne⟩
    · refine fun h => ⟨⟨h.1, False.elim⟩, fun a b hab ha => ?_⟩
      exact absurd (hless rfl a b hab) (not_or_intro ha.2.1 ha.2.2)
  | some a =>
    have hfree := hscheme a rfl
    rw [schemed, append_assoc, singleton_append]
    constructor
    · exact fun h => ⟨(h.2 a ssp rfl hfree).1, fun _ => (h.2 a ssp rfl hfree).2 trivial⟩
    · refine fun h => ⟨⟨?_, False.elim⟩, fun x y hxy hx => ?_⟩
      · rintro ⟨rest, hrest⟩
        cases a with
        | nil => cases (List.cons.inj hrest).1
        | cons c a =>
          have hc : 47 = c := (List.cons.inj hrest).1
          exact hfree.2.1 (hc ▸ mem_cons_self)
      · obtain ⟨-, hsame⟩ := marked_injective hfree.1 hx.1
          (show a ++ marked 58 (some ssp) = x ++ marked 58 (some y) from hxy)
        cases hsame
        exact ⟨h.1, fun _ => h.2 (Option.some_ne_none a)⟩

theorem head_query (query : Option ByteString) : ∀ c ∈ (marked 63 query).head?, c = 63 := by
  cases query with
  | none => exact fun c hc => absurd hc (Option.not_mem_none c)
  | some q =>
    rintro _ ⟨⟩
    rfl

theorem prefix_path {path : ByteString} {query : Option ByteString} {n : Nat}
    (h : List.replicate n 47 <+: path ++ marked 63 query) : List.replicate n 47 <+: path := by
  induction n generalizing path with
  | zero => exact nil_prefix
  | succ n ih =>
    cases path with
    | nil =>
      obtain ⟨rest, hrest⟩ := h
      cases head_query query 47 (by rw [← nil_append (marked 63 query), ← hrest]; rfl)
    | cons c path =>
      obtain ⟨rest, hrest⟩ := h
      obtain ⟨hc, htail⟩ := List.cons.inj (show 47 :: (List.replicate n 47 ++ rest) = c :: (path ++ _) from hrest)
      rw [← hc]
      exact cons_prefix_cons.mpr ⟨rfl, ih ⟨rest, htail⟩⟩

theorem lossless_iff (hdelimited : ref.Delimited) :
    ref.Lossless ↔ KeptPart (ref.scheme ≠ none) ref.schemeSpecificPart := by
  rw [schemeSpecificPart, append_assoc]
  rcases hauthority : ref.authority with - | - | ⟨c, a⟩
  · have hno := hdelimited.rooted.noAuthority hauthority
    have hslashes : ∀ {s : ByteString}, ([47, 47] : ByteString) ++ s <+: ref.path ++ marked 63 ref.query → False := by
      rintro s ⟨rest, hrest⟩
      exact hno (prefix_path (n := 2) ⟨s ++ rest, by rw [← hrest, append_assoc]; rfl⟩)
    refine iff_of_true (fun _ => ⟨hno, fun hs hnil => ?_⟩) ⟨fun h => hslashes (s := [47, 47]) h, fun _ => ⟨?_, ?_⟩⟩
    · have hhead := hdelimited.leading hs hauthority
      rw [hnil] at hhead
      cases hhead
    · exact fun heq => hslashes (s := []) ⟨[], by rw [append_nil]; exact heq.symm⟩
    · exact fun h => hslashes (s := [63]) h
  · have hroot := hdelimited.rooted.rooted (hauthority ▸ Option.some_ne_none [])
    constructor
    · intro hlossless
      obtain ⟨hslashes, hpath⟩ := hlossless (by rw [hauthority]; rfl)
      refine ⟨?_, fun hs => ⟨fun heq => ?_, ?_⟩⟩
      · rintro ⟨rest, hrest⟩
        exact hslashes (prefix_path (n := 2) ⟨rest, (List.cons.inj (List.cons.inj hrest).2).2⟩)
      · have hnil : ref.path ++ marked 63 ref.query = [] := (List.cons.inj (List.cons.inj heq).2).2
        exact hpath hs (append_eq_nil_iff.mp hnil).1
      · rintro ⟨rest, hrest⟩
        have hrest' : 63 :: rest = ref.path ++ marked 63 ref.query := (List.cons.inj (List.cons.inj hrest).2).2
        rcases hroot with hnil | hhead
        · exact hpath hs hnil
        · cases hp : ref.path with
          | nil => exact hpath hs hp
          | cons c path =>
            rw [hp] at hhead hrest'
            cases hhead
            cases (List.cons.inj hrest').1
    · rintro ⟨hslashes, hpart⟩ -
      refine ⟨?_, fun hs hnil => ?_⟩
      · rintro ⟨rest, hrest⟩
        refine hslashes ⟨rest ++ marked 63 ref.query, ?_⟩
        rw [← hrest]
        rfl
      · obtain ⟨hplain, hquery⟩ := hpart hs
        rw [hnil] at hplain hquery
        cases hq : ref.query with
        | none =>
          rw [hq] at hplain
          exact hplain rfl
        | some q =>
          rw [hq] at hquery
          exact hquery ⟨q, rfl⟩
  · have hslash : c ≠ 47 := by
      rintro rfl
      exact hdelimited.rooted.noSlash _ hauthority mem_cons_self
    have hmark : c ≠ 63 := by
      rintro rfl
      exact (hdelimited.authority _ hauthority).1 mem_cons_self
    refine iff_of_true (fun hempty => ?_) ⟨?_, fun _ => ⟨fun heq => ?_, ?_⟩⟩
    · rw [hauthority] at hempty
      cases hempty
    · rintro ⟨rest, hrest⟩
      exact hslash (List.cons.inj (List.cons.inj (List.cons.inj hrest).2).2).1.symm
    · cases (List.cons.inj (List.cons.inj heq).2).2
    · rintro ⟨rest, hrest⟩
      exact hmark (List.cons.inj (List.cons.inj (List.cons.inj hrest).2).2).1.symm

theorem ssp_and_readsBack_iff {scheme fragment : ByteString} {r : URIType} {forceServer : Bool}
    (hparse : URIHelper.parseURI (schemed (optional scheme scheme) ++ quoteIllegal ssp allLegal ++
      marked 35 (optional fragment (quoteIllegal fragment allLegal))) forceServer = .ok r) :
    (decode r.fragment = .ok fragment ∧ ReadsBack r) ↔
      35 ∉ scheme ∧ KeptText (schemed (optional scheme scheme) ++ quoteIllegal ssp allLegal) := by
  have hssp : 35 ∉ quoteIllegal ssp allLegal :=
    not_mem_quoteIllegal (by decide) (by decide) (by decide) (by decide) ssp
  have hfree : 35 ∉ scheme → 35 ∉ schemed (optional scheme scheme) ++ quoteIllegal ssp allLegal := by
    intro hscheme
    refine not_mem_append ?_ hssp
    rw [optional]
    split_ifs
    · exact not_mem_nil
    · exact not_mem_append hscheme (by decide)
  -- what stands before the fragment is read without a `#`, so the fragment is read where it was written
  have hread : ∀ {a : ByteString} {o : Option ByteString}, 35 ∉ a → Legal allLegal (o.getD []) →
      schemed (optional scheme scheme) ++ quoteIllegal ssp allLegal ++
        marked 35 (optional fragment (quoteIllegal fragment allLegal)) = a ++ marked 35 o →
      (decode (o.getD []) = .ok fragment ↔ 35 ∉ scheme) ∧
        (35 ∉ scheme → a = schemed (optional scheme scheme) ++ quoteIllegal ssp allLegal) := by
    intro a o ha hlegal htext
    have hsame : 35 ∉ scheme → a = schemed (optional scheme scheme) ++ quoteIllegal ssp allLegal ∧
        o = optional fragment (quoteIllegal fragment allLegal) :=
      fun hscheme => marked_injective ha (hfree hscheme) htext.symm
    refine ⟨⟨fun hdecode => ?_, fun hscheme => ?_⟩, fun hscheme => (hsame hscheme).1⟩
    · by_cases hempty : scheme = []
      · rw [hempty]
        exact not_mem_nil
      · rw [optional, if_neg hempty, schemed, append_assoc scheme] at htext
        exact no_hash_before ha hlegal hdecode htext.symm
    · rw [(hsame hscheme).2]
      exact optional_quoted (by decide)
  rcases parseURI_ok hparse with ⟨ref, server, hdelimited, hvalid, htext, hserver, rfl⟩ |
    ⟨ref, hdelimited, hvalid, htext, rfl⟩
  · obtain ⟨hfragment, hsame⟩ := hread hdelimited.not_mem_hash hvalid.fragment htext
    refine (and_congr_left' hfragment).trans (and_congr_right fun hscheme => ?_)
    rw [readsBack_iff hdelimited hvalid hserver, lossless_iff hdelimited, ← hsame hscheme]
    exact (keptText_schemed (fun a ha => (hdelimited.scheme a ha).1) hdelimited.schemeless_ssp).symm
  · obtain ⟨hfragment, hsame⟩ := hread hdelimited.not_mem_hash hvalid.fragment htext
    refine (and_congr_left' hfragment).trans (and_congr_right fun hscheme => ?_)
    rw [← hsame hscheme]
    refine iff_of_true (readsBack_rootless hdelimited hvalid) ((keptText_schemed ?_ fun hnone => by cases hnone).mpr ?_)
    · rintro _ ⟨⟩
      exact hdelimited.scheme.1
    · have hhead : ∀ {s : ByteString}, ref.schemeSpecificPart ≠ 47 :: s := by
        intro s heq
        exact hdelimited.rootless (heq ▸ rfl)
      refine ⟨?_, fun _ => ⟨hhead, ?_⟩⟩
      · rintro ⟨rest, hrest⟩
        exact hhead hrest.symm
      · rintro ⟨rest, hrest⟩
        exact hhead hrest.symm

end SchemeSpecific

/-! ### The authority of a constructor -/

/-- What a host may hold besides the marks of a reference. -/
def KeptHost (userInfo host : ByteString) : Prop := 37 ∉ host ∧ (userInfo = [] → 64 ∈ host → host.head? = some 64)

theorem userinfo_nil {s : ByteString} {forceServer : Bool}
    (hparse : URIHelper.parseURI s forceServer = .ok r) (h : r.authority = []) : r.userinfo = [] := by
  rcases parseURI_ok hparse with ⟨ref, server, -, -, -, hserver, rfl⟩ | ⟨ref, -, -, -, rfl⟩
  · rw [show ref.authority.getD [] = [] from h, parseAuthority, if_pos rfl] at hserver
    cases hserver
    rfl
  · rfl

theorem returned_server_iff {scheme userInfo host path query fragment : ByteString} {port : Int}
    {authority : Option ByteString} (hguard : scheme ≠ [] → path = [] ∨ path.head? = some 47)
    (hauthority : authority.getD [] = serverAuthority userInfo host port)
    (hwritten : Written authority (givenAuthority userInfo host port))
    (hparse : URIHelper.parseURI (composed scheme authority path query fragment).text true = .ok r) :
    (decode r.userinfo = .ok userInfo ∧ Gives r (givenAuthority userInfo host port) path query fragment ∧ ReadsBack r) ↔
      (KeptHost userInfo host ∧ KeptParts scheme authority path) ∨
        (authority.getD [] = [] ∧ path = [] ∧ query = [] ∧ Swallowed scheme) := by
  have huserinfo : (composed scheme authority path query fragment).Delimited →
      (decode r.userinfo = .ok userInfo ↔ (userInfo = [] → 64 ∈ host → host.head? = some 64)) := by
    intro hdelimited
    obtain ⟨-, server, hserver, rfl⟩ := (parseURI_text hdelimited).mp hparse
    rw [show (composed scheme authority path query fragment).authority.getD [] = serverAuthority userInfo host port
      from hauthority] at hserver
    exact userinfo_server hserver
  have hiff := gives_and_readsBack_iff hwritten hparse
  rw [hauthority, decode_given] at hiff
  constructor
  · rintro ⟨huser, hgives⟩
    rcases hiff.mp hgives with ⟨hdelimited, hlossless, hpercent⟩ | hswallowed
    · exact .inl ⟨⟨hpercent, (huserinfo hdelimited).mp huser⟩, (keptParts_iff hguard).mpr ⟨hdelimited, hlossless⟩⟩
    · exact .inr (hauthority ▸ hswallowed)
  · rintro (⟨⟨hpercent, hat⟩, hkept⟩ | hswallowed)
    · obtain ⟨hdelimited, hlossless⟩ : (composed scheme authority path query fragment).Delimited ∧
          (composed scheme authority path query fragment).Lossless := (keptParts_iff hguard).mp hkept
      exact ⟨(huserinfo hdelimited).mpr hat, hiff.mpr (.inl ⟨hdelimited, hlossless, hpercent⟩)⟩
    · obtain ⟨hgives, hback⟩ := hiff.mpr (.inr (hauthority ▸ hswallowed))
      have hgiven : givenAuthority userInfo host port = [] := hwritten.empty.mpr hswallowed.1
      have hread : r.authority = [] := (decodes_of_decode (hgiven ▸ hgives.authority)).eq_nil
      have huser : userInfo = [] := by
        by_contra hne
        rw [givenAuthority, before, if_neg hne, append_assoc] at hgiven
        exact hne (append_eq_nil_iff.mp hgiven).1
      rw [userinfo_nil hparse hread, huser]
      exact ⟨rfl, huser ▸ hgives, hback⟩

theorem written_host (host : ByteString) : Written (optional host (bracketed host)) (givenAuthority [] host (-1)) := by
  by_cases hempty : host = []
  · subst hempty
    exact ⟨iff_of_true rfl rfl, le_rfl, fun a c b h => by cases h⟩
  · have hauthority : optional host (bracketed host) = some (serverAuthority [] host (-1)) := by
      rw [optional, if_neg hempty, serverAuthority, if_pos rfl, nil_append, hostText, if_pos rfl, append_nil]
    rw [hauthority]
    exact written_server

theorem behind_slashed (component text : ByteString) :
    behind (ascii "//") component text = slashed (optional component text) := by
  rw [behind, optional]
  split_ifs <;> rfl

theorem getD_host (host : ByteString) : (optional host (bracketed host)).getD [] = serverAuthority [] host (-1) := by
  rw [serverAuthority, if_pos rfl, nil_append, hostText, if_pos rfl, append_nil]
  by_cases hempty : host = []
  · subst hempty
    rfl
  · rw [optional, if_neg hempty]
    rfl

theorem written_authority (authority : ByteString) :
    Written (some (quoteIllegal authority authorityLegal)) authority := by
  refine ⟨quoteIllegal_eq_nil.symm, (count_quoteIllegal (by decide) (by decide) (by decide) authority).ge, ?_⟩
  intro a c b hsplit hc
  have hfree : c ∉ quoteIllegal authority authorityLegal := by
    rcases hc with rfl | rfl | rfl <;>
      exact not_mem_quoteIllegal (by decide) (by decide) (by decide) (by decide) authority
  rw [Option.some.inj hsplit] at hfree
  exact absurd (mem_append_right a mem_cons_self) hfree

end URIComponents

open URIComponents

/-! ### The constructors -/

inductive Components where
  | schemeSpecific (scheme ssp fragment : ByteString)
  | serverBased (scheme userInfo host : ByteString) (port : Int) (path query fragment : ByteString)
  | hostBased (scheme host path fragment : ByteString)
  | authorityBased (scheme authority path query fragment : ByteString)

namespace Components

variable {u : URI} {path query fragment scheme : ByteString}
variable {host : ByteString}

def build : Components → Except URIException URI
  | schemeSpecific scheme ssp fragment => ofSchemeSpecificPart scheme ssp fragment
  | serverBased scheme userInfo host port path query fragment => ofServer scheme userInfo host port path query fragment
  | hostBased scheme host path fragment => ofHost scheme host path fragment
  | authorityBased scheme authority path query fragment => ofAuthority scheme authority path query fragment

/-- The getters return the components that are given. A host comes without a user info, a port and a query. -/
def Returned (u : URI) : Components → Prop
  | schemeSpecific _ _ fragment => u.getFragment = .ok fragment
  | serverBased _ userInfo host port path query fragment =>
    u.getUserInfo = .ok userInfo ∧ u.getAuthority = .ok (givenAuthority userInfo host port) ∧ u.getPath = .ok path ∧
      u.getQuery = .ok query ∧ u.getFragment = .ok fragment
  | hostBased _ host path fragment =>
    u.getUserInfo = .ok [] ∧ u.getAuthority = .ok (givenAuthority [] host (-1)) ∧ u.getPath = .ok path ∧
      u.getQuery = .ok [] ∧ u.getFragment = .ok fragment
  | authorityBased _ authority path query fragment =>
    u.getAuthority = .ok authority ∧ u.getPath = .ok path ∧ u.getQuery = .ok query ∧ u.getFragment = .ok fragment

/-- The string of the URI is read back with the parts that `equals` and `compareTo` read. -/
def ParsesBack (u : URI) : Prop := ∃ r, URI.parseURI u.toString false = .ok r ∧ SameParts r u.uri

/-- Every component stands where it is looked for. -/
def Kept : Components → Prop
  | schemeSpecific scheme ssp _ => 35 ∉ scheme ∧ KeptText (before scheme (ascii ":") ++ quoteIllegal ssp allLegal)
  | serverBased scheme userInfo host port path query fragment =>
    (scheme = [] ∧ userInfo = [] ∧ host = [] ∧ path = [] ∧ query = [] ∧ fragment = [] → port = -1) ∧
      ((KeptHost userInfo host ∧ KeptParts scheme (some (serverAuthority userInfo host port)) path) ∨
        (serverAuthority userInfo host port = [] ∧ path = [] ∧ query = [] ∧ Swallowed scheme))
  | hostBased scheme host path _ =>
    (KeptHost [] host ∧ KeptParts scheme (optional host (bracketed host)) path) ∨
      (bracketed host = [] ∧ path = [] ∧ Swallowed scheme)
  | authorityBased scheme authority path query _ =>
    KeptParts scheme (some (quoteIllegal authority authorityLegal)) path ∨
      (authority = [] ∧ path = [] ∧ query = [] ∧ Swallowed scheme)

theorem parsesBack_iff (r : URIType) : ParsesBack { uri := r } ↔ ReadsBack r := by
  constructor
  · rintro ⟨r', hparse, hsame⟩
    exact ⟨r', convert_eq_ok.mp hparse, hsame⟩
  · rintro ⟨r', hparse, hsame⟩
    exact ⟨r', convert_eq_ok.mpr hparse, hsame⟩

theorem built_of_parse {s : ByteString} {forceServer : Bool}
    (h : (do pure { uri := ← URI.parseURI s forceServer } : Except URIException URI) = .ok u) :
    ∃ r, URIHelper.parseURI s forceServer = .ok r ∧ u = { uri := r } := by
  obtain ⟨r, hparse, hu⟩ := Codec.except_bind_eq_ok.mp h
  exact ⟨r, convert_eq_ok.mp hparse, (Except.ok.inj hu).symm⟩

theorem gives_iff {r : URIType} {given : ByteString} :
    Gives r given path query fragment ↔ decode r.authority = .ok given ∧ decode r.path = .ok path ∧
      decode r.query = .ok query ∧ decode r.fragment = .ok fragment :=
  ⟨fun h => ⟨h.authority, h.path, h.query, h.fragment⟩, fun h => ⟨h.1, h.2.1, h.2.2.1, h.2.2.2⟩⟩

theorem guard_of_not (h : ¬ (scheme ≠ [] ∧ path ≠ [] ∧ path.head? ≠ some 47)) :
    scheme ≠ [] → path = [] ∨ path.head? = some 47 := by
  intro hscheme
  by_contra hpath
  rw [not_or] at hpath
  exact h ⟨hscheme, hpath⟩

theorem kept_empty (authority : Option ByteString) (h : ∀ a ∈ authority, a = []) : KeptParts [] authority [] := by
  refine ⟨by decide, ?_, fun _ => .inl rfl, fun _ => by decide, fun _ hne => absurd rfl hne, ?_⟩
  · intro a ha
    rw [h a ha]
    exact ⟨not_mem_nil, not_mem_nil, not_mem_nil⟩
  · intro _ _ a b hab
    cases a <;> cases hab

theorem parsesBack_empty : ParsesBack {} :=
  ⟨{}, rfl, rfl, rfl, fun _ => rfl, rfl, rfl, rfl, rfl, rfl, rfl, rfl⟩

theorem serverBased_iff {userInfo : ByteString} {port : Int}
    (h : ofServer scheme userInfo host port path query fragment = .ok u) :
    Returned u (serverBased scheme userInfo host port path query fragment) ∧ ParsesBack u ↔
      Kept (serverBased scheme userInfo host port path query fragment) := by
  rw [ofServer] at h
  split_ifs at h with hempty hguard
  · cases h
    obtain ⟨rfl, rfl, rfl, rfl, rfl, rfl⟩ := hempty
    by_cases hport : port = -1
    · subst hport
      refine iff_of_true ⟨⟨rfl, rfl, rfl, rfl, rfl⟩, parsesBack_empty⟩ ⟨fun _ => rfl, .inl ⟨⟨not_mem_nil, ?_⟩, ?_⟩⟩
      · exact fun _ hmem => absurd hmem not_mem_nil
      · refine kept_empty _ ?_
        rintro _ ⟨⟩
        rfl
    · refine iff_of_false ?_ fun hkept => hport (hkept.1 ⟨rfl, rfl, rfl, rfl, rfl, rfl⟩)
      rintro ⟨⟨-, hauthority, -⟩, -⟩
      have hgiven : givenAuthority [] [] port = [] := (Except.ok.inj hauthority).symm
      rw [givenAuthority, hostText, if_neg hport] at hgiven
      cases hgiven
  · rw [before_optional, show ascii "?" = [63] from rfl, show ascii "#" = [35] from rfl, behind_optional, behind_optional]
      at h
    obtain ⟨r, hparse, rfl⟩ := built_of_parse h
    have htext : (composed scheme (some (serverAuthority userInfo host port)) path query fragment).text =
        schemed (optional scheme scheme) ++ ascii "//" ++ serverAuthority userInfo host port ++
          quoteIllegal path pathLegal ++ marked 63 (optional query (quoteIllegal query allLegal)) ++
          marked 35 (optional fragment (quoteIllegal fragment allLegal)) := by
      simp only [URIReference.text, composed, schemeSpecificPart, slashed, append_assoc]
      rfl
    rw [← htext] at hparse
    have hiff := returned_server_iff (guard_of_not hguard) rfl written_server hparse
    rw [gives_iff] at hiff
    rw [parsesBack_iff, Kept]
    constructor
    · rintro ⟨⟨huser, hrest⟩, hback⟩
      exact ⟨fun hall => absurd hall hempty, hiff.mp ⟨huser, hrest, hback⟩⟩
    · rintro ⟨-, hkept⟩
      obtain ⟨huser, hrest, hback⟩ := hiff.mpr hkept
      exact ⟨⟨huser, hrest⟩, hback⟩

theorem hostBased_iff (h : ofHost scheme host path fragment = .ok u) :
    Returned u (hostBased scheme host path fragment) ∧ ParsesBack u ↔ Kept (hostBased scheme host path fragment) := by
  rw [ofHost] at h
  split_ifs at h with hempty hguard
  · cases h
    obtain ⟨rfl, rfl, rfl, rfl⟩ := hempty
    refine iff_of_true ⟨⟨rfl, rfl, rfl, rfl, rfl⟩, parsesBack_empty⟩ (.inl ⟨⟨not_mem_nil, ?_⟩, kept_empty _ ?_⟩)
    · exact fun _ hmem => absurd hmem not_mem_nil
    · exact fun a ha => absurd ha (Option.not_mem_none a)
  · rw [before_optional, behind_slashed, show ascii "#" = [35] from rfl, behind_optional] at h
    obtain ⟨r, hparse, rfl⟩ := built_of_parse h
    have htext : (composed scheme (optional host (bracketed host)) path [] fragment).text =
        schemed (optional scheme scheme) ++ slashed (optional host (bracketed host)) ++ quoteIllegal path pathLegal ++
          marked 35 (optional fragment (quoteIllegal fragment allLegal)) := by
      simp only [URIReference.text, composed, schemeSpecificPart, append_assoc]
      rfl
    rw [← htext] at hparse
    have hiff := returned_server_iff (guard_of_not hguard) (getD_host host) (written_host host) hparse
    rw [gives_iff] at hiff
    rw [parsesBack_iff, Kept]
    have hnone : (optional host (bracketed host)).getD [] = [] ↔ bracketed host = [] := by
      rw [getD_host, serverAuthority, if_pos rfl, nil_append, hostText, if_pos rfl, append_nil]
    rw [hnone] at hiff
    constructor
    · rintro ⟨⟨huser, hrest⟩, hback⟩
      rcases hiff.mp ⟨huser, hrest, hback⟩ with hkept | ⟨hhost, hpath, -, hswallowed⟩
      · exact .inl hkept
      · exact .inr ⟨hhost, hpath, hswallowed⟩
    · rintro (hkept | ⟨hhost, hpath, hswallowed⟩)
      · obtain ⟨huser, hrest, hback⟩ := hiff.mpr (.inl hkept)
        exact ⟨⟨huser, hrest⟩, hback⟩
      · obtain ⟨huser, hrest, hback⟩ := hiff.mpr (.inr ⟨hhost, hpath, rfl, hswallowed⟩)
        exact ⟨⟨huser, hrest⟩, hback⟩

theorem authorityBased_iff {authority : ByteString} (h : ofAuthority scheme authority path query fragment = .ok u) :
    Returned u (authorityBased scheme authority path query fragment) ∧ ParsesBack u ↔
      Kept (authorityBased scheme authority path query fragment) := by
  rw [ofAuthority] at h
  split_ifs at h with hguard
  rw [before_optional, show ascii "?" = [63] from rfl, show ascii "#" = [35] from rfl, behind_optional, behind_optional]
    at h
  obtain ⟨r, hparse, rfl⟩ := built_of_parse h
  have htext : (composed scheme (some (quoteIllegal authority authorityLegal)) path query fragment).text =
      schemed (optional scheme scheme) ++ ascii "//" ++ quoteIllegal authority authorityLegal ++
        quoteIllegal path pathLegal ++ marked 63 (optional query (quoteIllegal query allLegal)) ++
        marked 35 (optional fragment (quoteIllegal fragment allLegal)) := by
    simp only [URIReference.text, composed, schemeSpecificPart, slashed, append_assoc]
    rfl
  rw [← htext] at hparse
  have hiff := gives_and_readsBack_iff (written_authority authority) hparse
  have hgiven : decode ((some (quoteIllegal authority authorityLegal)).getD []) = .ok authority :=
    decode_quoteIllegal (by decide) authority
  have hnone : (some (quoteIllegal authority authorityLegal)).getD [] = [] ↔ authority = [] := quoteIllegal_eq_nil
  rw [gives_iff, hnone, ← and_assoc (a := (composed _ _ _ _ _).Delimited), ← keptParts_iff (guard_of_not hguard),
    and_iff_left hgiven] at hiff
  rw [parsesBack_iff, Kept]
  exact hiff

/-- **When a URI is put together from components**: the getters return them and the string is read back, exactly if
every component stands where it is looked for. -/
theorem components_kept (c : Components) (u : URI) (h : c.build = .ok u) : (c.Returned u ∧ ParsesBack u) ↔ c.Kept := by
  match c with
  | schemeSpecific scheme ssp fragment =>
    rw [build, ofSchemeSpecificPart, before_optional, show ascii "#" = [35] from rfl, behind_optional] at h
    obtain ⟨r, hparse, rfl⟩ := built_of_parse h
    rw [parsesBack_iff, Kept, before_optional]
    exact ssp_and_readsBack_iff hparse
  | serverBased scheme userInfo host port path query fragment => exact serverBased_iff h
  | hostBased scheme host path fragment => exact hostBased_iff h
  | authorityBased scheme authority path query fragment => exact authorityBased_iff h

/-- A user info and a path with characters that are quoted. -/
theorem components_kept_quoted :
    ∃ u, build (serverBased (ascii "tcp") (ascii "a@b") (ascii "host") (-1) (ascii "/p q?") (ascii "x=#") (ascii "top")) =
        .ok u ∧
      ((Returned u (serverBased (ascii "tcp") (ascii "a@b") (ascii "host") (-1) (ascii "/p q?") (ascii "x=#") (ascii "top")) ∧
          ParsesBack u) ↔
        Kept (serverBased (ascii "tcp") (ascii "a@b") (ascii "host") (-1) (ascii "/p q?") (ascii "x=#") (ascii "top"))) :=
  ⟨_, rfl, components_kept _ _ rfl⟩

/-- The path of `file:////a/b` is printed without the slashes of the empty authority before it, and its own are taken
for them: `file://a/b`. -/
theorem components_not_kept :
    ¬ ∀ (c : Components) (u : URI), c.build = .ok u → c.Returned u ∧ ParsesBack u := by
  intro h
  have hbuild : build (serverBased (ascii "file") [] [] (-1) (ascii "//a/b") [] []) =
      .ok { uri := { scheme := ascii "file", schemeSpecificPart := ascii "////a/b", path := ascii "//a/b", absolute := true } } := by
    decide +kernel
  obtain ⟨-, r, hparse, hsame⟩ := h _ _ hbuild
  have hread : URI.parseURI (ascii "file://a/b") false =
      .ok { scheme := ascii "file", schemeSpecificPart := ascii "//a/b", authority := ascii "a", host := ascii "a",
            path := ascii "/b", absolute := true, serverAuthority := true } := by
    decide +kernel
  have hsame' := Except.ok.inj (hread.symm.trans hparse)
  have hpath := hsame.path
  rw [← hsame'] at hpath
  cases hpath

end Components

end ActiveMQCpp.Decaf
