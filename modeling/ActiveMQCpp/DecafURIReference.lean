import ActiveMQCpp.DecafURI

/-! What `parseURI` reads: the strings it accepts are the texts of references, a part of which may be missing. -/

namespace ActiveMQCpp.Decaf

open Codec Character URIEncoderDecoder URIHelper List Option

namespace URIEncoderDecoder

variable {legal s t : ByteString}

theorem Legal.not_mem (h : Legal legal s) {c : UInt8} (hlegal : c ∉ legal) (hletter : isLetterOrDigit c = false)
    (hlow : c.toNat ≤ 127) (hpercent : c ≠ 37) : c ∉ s := by
  have hdigit : ∀ {d : UInt8}, digit d 16 ≠ -1 → c ≠ d := by
    rintro d hd rfl
    apply hd
    rw [isLetterOrDigit, Bool.or_eq_false_iff, isLetter, isDigit, value] at hletter
    obtain ⟨hletter, hnum⟩ := hletter
    simp only [Bool.or_eq_false_iff, Bool.and_eq_false_iff, decide_eq_false_iff_not] at hletter hnum
    rw [digit]
    split_ifs at hnum ⊢ <;> omega
  induction h with
  | nil => exact not_mem_nil
  | @char ch s hne hpasses _ ih =>
    rintro (_ | ⟨_, hmem⟩)
    · have hhigh : ¬ c.toNat > 127 := not_lt.mpr hlow
      simp [passes, hletter, hlegal, hhigh] at hpasses
    · exact ih hmem
  | @escape d1 d2 s hd1 hd2 _ ih =>
    rw [mem_cons, mem_cons, mem_cons]
    rintro (heq | heq | heq | hmem)
    · exact hpercent heq
    · exact hdigit hd1 heq
    · exact hdigit hd2 heq
    · exact ih hmem

end URIEncoderDecoder

namespace URIHelper

variable {c : UInt8} {a b uri scheme : ByteString} {o : Option ByteString} {result : ByteString × ByteString}

/-! ### Places in a string -/

theorem find_none {s : ByteString} (h : c ∉ s) : find c s 0 = none := by
  rw [find, drop_zero, List.findIdx?_eq_none_iff.mpr]
  · rfl
  · intro x hx
    exact decide_eq_false fun heq => h (heq ▸ hx)

theorem find_append (h : c ∉ a) (b : ByteString) : find c (a ++ c :: b) 0 = some a.length := by
  have hnone : a.findIdx? (· = c) = none :=
    List.findIdx?_eq_none_iff.mpr fun x hx => decide_eq_false fun heq => h (heq ▸ hx)
  rw [find, drop_zero, List.findIdx?_append, hnone, List.findIdx?_cons]
  simp

theorem find_drop (c : UInt8) (s : ByteString) (pos : Nat) : find c s pos = (find c (s.drop pos) 0).map (pos + ·) := by
  rw [find, find, List.drop_zero, Option.map_map]
  congr 1
  funext i
  show pos + i = pos + (0 + i)
  rw [Nat.zero_add]

def marked (mark : UInt8) : Option ByteString → ByteString
  | none => []
  | some part => mark :: part

theorem prefix_injective {p : UInt8 → Bool} {rest rest' : ByteString} (ha : ∀ c ∈ a, p c = false)
    (hb : ∀ c ∈ b, p c = false) (hrest : ∀ c ∈ rest.head?, p c = true) (hrest' : ∀ c ∈ rest'.head?, p c = true)
    (h : a ++ rest = b ++ rest') : a = b ∧ rest = rest' := by
  have htake : ∀ {a rest : ByteString}, (∀ c ∈ a, p c = false) → (∀ c ∈ rest.head?, p c = true) →
      (a ++ rest).takeWhile (fun c => !p c) = a := by
    intro a rest ha hrest
    have hstop : rest.takeWhile (fun c => !p c) = [] := by
      cases rest with
      | nil => rfl
      | cons c rest => rw [takeWhile_cons, hrest c rfl, Bool.not_true, if_neg Bool.false_ne_true]
    rw [takeWhile_append_of_pos, hstop, append_nil]
    intro c hc
    rw [ha c hc]
    rfl
  have hsame : a = b := (htake ha hrest).symm.trans ((congrArg _ h).trans (htake hb hrest'))
  subst hsame
  exact ⟨rfl, append_cancel_left h⟩

theorem marked_head (mark : UInt8) (o : Option ByteString) : ∀ c ∈ (marked mark o).head?, (c == mark) = true := by
  cases o with
  | none => exact fun c hc => absurd hc (not_mem_none c)
  | some part =>
    rintro _ ⟨⟩
    exact beq_self_eq_true mark

theorem marked_injective {mark : UInt8} {o' : Option ByteString} (ha : mark ∉ a) (hb : mark ∉ b)
    (h : a ++ marked mark o = b ++ marked mark o') : a = b ∧ o = o' := by
  have hfree : ∀ {a : ByteString}, mark ∉ a → ∀ c ∈ a, (c == mark) = false :=
    fun ha c hc => beq_false_of_ne fun heq => ha (heq ▸ hc)
  obtain ⟨hsame, hrest⟩ := prefix_injective (hfree ha) (hfree hb) (marked_head mark o) (marked_head mark o') h
  refine ⟨hsame, ?_⟩
  cases o with
  | none =>
    cases o' with
    | none => rfl
    | some q => cases hrest
  | some p =>
    cases o' with
    | none => cases hrest
    | some q => exact congrArg some (List.cons.inj hrest).2

theorem marked_cases (mark : UInt8) (s : ByteString) :
    ∃ (rest : ByteString) (o : Option ByteString), mark ∉ rest ∧ s = rest ++ marked mark o := by
  by_cases hmem : mark ∈ s
  · obtain ⟨a, b, rfl, ha⟩ := eq_append_cons_of_mem hmem
    exact ⟨a, some b, ha, rfl⟩
  · exact ⟨s, none, hmem, (append_nil s).symm⟩

/-! ### The parts -/

theorem convert_eq_ok {α : Type} {x : Except URIException α} {a : α} : convert x = .ok a ↔ x = .ok a := by
  match x with
  | .ok b => exact Iff.rfl
  | .error (.syntaxException input reason) => exact iff_of_false (fun h => by cases h) fun h => by cases h
  | .error .illegalArgumentException => exact iff_of_false (fun h => by cases h) fun h => by cases h
  | .error .outOfRange => exact iff_of_false (fun h => by cases h) fun h => by cases h
  | .error .undefined => exact iff_of_false (fun h => by cases h) fun h => by cases h

theorem validatePart_iff {part legal : ByteString} {reason : String} :
    validatePart uri part legal reason = .ok () ↔ Legal legal part := by
  rw [← validate_iff, validatePart]
  cases validate part legal with
  | ok u => simp
  | error e => simp

theorem bind_validatePart {α : Type} {part legal : ByteString} {reason : String} {k : Unit → Except URIException α}
    {a : α} : (validatePart uri part legal reason >>= k) = .ok a ↔ Legal legal part ∧ k () = .ok a := by
  rw [except_bind_eq_ok]
  constructor
  · rintro ⟨u, hvalid, hk⟩
    exact ⟨validatePart_iff.mp hvalid, hk⟩
  · rintro ⟨hlegal, hk⟩
    exact ⟨(), validatePart_iff.mpr hlegal, hk⟩

theorem parsePart_marked (mark : UInt8) (uri rest : ByteString) (o : Option ByteString) (reason : String)
    (hrest : mark ∉ rest) :
    parsePart mark uri (rest ++ marked mark o) reason = .ok result ↔
      Legal allLegal (o.getD []) ∧ (o.getD [], rest) = result := by
  cases o with
  | none =>
    rw [marked, append_nil, parsePart, find_none hrest]
    constructor
    · intro h
      cases h
      exact ⟨.nil, rfl⟩
    · rintro ⟨-, rfl⟩
      rfl
  | some part =>
    have hdrop : (rest ++ mark :: part).drop (rest.length + 1) = part := by
      rw [← drop_drop, drop_left]
      rfl
    rw [marked, parsePart, find_append hrest]
    show (validatePart _ _ _ _ >>= fun _ => pure _) = _ ↔ _
    rw [bind_validatePart, hdrop, take_left]
    exact and_congr_right' ⟨fun h => Except.ok.inj h, fun h => congrArg Except.ok h⟩

theorem find_all_ge (c : UInt8) (a b : ByteString) : (find c (a ++ b) 0).all (· ≥ a.length) = true ↔ c ∉ a := by
  obtain ⟨x, o, hx, hsplit⟩ := marked_cases c a
  cases o with
  | none =>
    rw [marked, append_nil] at hsplit
    subst hsplit
    refine iff_of_true ?_ hx
    obtain ⟨y, o, hy, rfl⟩ := marked_cases c b
    have hxy : c ∉ a ++ y := not_mem_append hx hy
    cases o with
    | none => rw [marked, append_nil, find_none hxy, all_none]
    | some rest =>
      rw [marked, ← append_assoc, find_append hxy, all_some, decide_eq_true_eq, length_append]
      exact Nat.le_add_right _ _
  | some rest =>
    rw [marked] at hsplit
    subst hsplit
    refine iff_of_false ?_ (not_not_intro (mem_append_right x mem_cons_self))
    rw [append_assoc, cons_append, find_append hx, all_some, decide_eq_true_eq, length_append,
      length_cons]
    omega

/-- What stands before the part that is behind the scheme. -/
def schemed : Option ByteString → ByteString
  | none => []
  | some scheme => scheme ++ [58]

def ValidScheme (scheme : ByteString) : Prop :=
  isLetter (charAt scheme 0) = true ∧ (scheme.all fun ch => isLetterOrDigit ch || (ascii "+-.").contains ch) = true

/-- No `:` that comes before all `/` and `?`. -/
def Schemeless (temp : ByteString) : Prop := ∀ a b, temp = a ++ 58 :: b → 47 ∈ a ∨ 63 ∈ a

theorem ValidScheme.ne_nil (h : ValidScheme scheme) : scheme ≠ [] := by
  rintro rfl
  cases h.1

theorem ValidScheme.not_mem (h : ValidScheme scheme) (hlegal : c ∉ ascii "+-.")
    (hletter : isLetterOrDigit c = false) : c ∉ scheme := by
  intro hmem
  have hc := all_eq_true.mp h.2 c hmem
  rw [hletter, Bool.false_or, contains_iff_mem] at hc
  exact hlegal hc

theorem validateScheme_iff : validateScheme uri scheme = .ok () ↔ ValidScheme scheme := by
  rw [validateScheme, ValidScheme, validateSimple]
  cases isLetter (charAt scheme 0) with
  | false => simp
  | true =>
    cases (scheme.all fun ch => isLetterOrDigit ch || (ascii "+-.").contains ch) with
    | false => simp
    | true => simp

theorem schemeless_or (temp : ByteString) :
    Schemeless temp ∨ ∃ a b, temp = a ++ 58 :: b ∧ 58 ∉ a ∧ 47 ∉ a ∧ 63 ∉ a := by
  obtain ⟨a, o, ha, rfl⟩ := marked_cases 58 temp
  cases o with
  | none =>
    refine .inl fun x y hxy => absurd ?_ ha
    rw [marked, append_nil] at hxy
    rw [hxy]
    exact mem_append_right x mem_cons_self
  | some b =>
    by_cases hfirst : 47 ∉ a ∧ 63 ∉ a
    · exact .inr ⟨a, b, rfl, ha, hfirst.1, hfirst.2⟩
    · rw [not_and_or, not_not, not_not] at hfirst
      refine .inl fun x y hxy => ?_
      have hstart : a <+: x := by
        rcases append_eq_append_iff.mp (show a ++ 58 :: b = x ++ 58 :: y from hxy) with ⟨t, rfl, -⟩ | ⟨t, rfl, ht⟩
        · exact prefix_append a t
        · cases t with
          | nil => exact ⟨[], by rw [append_nil, append_nil]⟩
          | cons d t =>
            rw [cons_append] at ht
            rw [(List.cons.inj ht).1.symm] at ha
            exact absurd (mem_append_right x mem_cons_self) ha
      exact hfirst.imp (fun h => hstart.subset h) fun h => hstart.subset h

theorem parseScheme_schemeless {temp : ByteString} (h : Schemeless temp) :
    parseScheme uri temp = .ok (none, temp) := by
  obtain ⟨a, o, ha, rfl⟩ := marked_cases 58 temp
  cases o with
  | none =>
    rw [marked, append_nil, parseScheme, find_none ha]
    rfl
  | some b =>
    have hslash : ¬ (47 ∉ a ∧ 63 ∉ a) := fun hne => (h a b rfl).elim hne.1 hne.2
    rw [marked, parseScheme, find_append ha]
    simp only [Bool.and_eq_true, find_all_ge, if_neg hslash]
    rfl

theorem parseScheme_colon (uri : ByteString) (ha : 58 ∉ a) (hslash : 47 ∉ a) (hmark : 63 ∉ a)
    {result : Option ByteString × ByteString} :
    parseScheme uri (a ++ 58 :: b) = .ok result ↔ ValidScheme a ∧ b ≠ [] ∧ (some a, b) = result := by
  have hdrop : (a ++ 58 :: b).drop (a.length + 1) = b := by
    rw [← drop_drop, drop_left]
    rfl
  rw [parseScheme, find_append ha]
  simp only [Bool.and_eq_true, find_all_ge, if_pos (And.intro hslash hmark), take_left, hdrop]
  constructor
  · intro h
    split_ifs at h with hempty hssp
    · obtain ⟨u, -, hthrow⟩ := except_bind_eq_ok.mp h
      cases hthrow
    · obtain ⟨u, hvalid, hpure⟩ := except_bind_eq_ok.mp h
      exact ⟨validateScheme_iff.mp hvalid, hssp, Except.ok.inj hpure⟩
  · rintro ⟨hvalid, hssp, rfl⟩
    rw [if_neg hvalid.ne_nil, if_neg hssp]
    exact except_bind_eq_ok.mpr ⟨(), validateScheme_iff.mpr hvalid, rfl⟩

/-! ### The authority and the path -/

def slashed : Option ByteString → ByteString
  | none => []
  | some authority => 47 :: 47 :: authority

/-- The place of an authority before a path. -/
structure Rooted (authority : Option ByteString) (path : ByteString) : Prop where
  noAuthority : authority = none → ¬ [47, 47] <+: path
  noSlash : ∀ a ∈ authority, 47 ∉ a
  rooted : authority ≠ none → path = [] ∨ path.head? = some 47

theorem rooted_cases (temp : ByteString) : ∃ (o : Option ByteString) (path : ByteString), Rooted o path ∧
    temp = slashed o ++ path := by
  by_cases hslashes : [47, 47] <+: temp
  · obtain ⟨rest, rfl⟩ := hslashes
    obtain ⟨a, m, ha, rfl⟩ := marked_cases 47 rest
    refine ⟨some a, marked 47 m, ⟨fun hnone => (by cases hnone), ?_, fun _ => ?_⟩, rfl⟩
    · rintro _ ⟨⟩
      exact ha
    · cases m with
      | none => exact .inl rfl
      | some path => exact .inr rfl
  · exact ⟨none, temp, ⟨fun _ => hslashes, fun a ha => absurd ha (not_mem_none a), fun hne => absurd rfl hne⟩, rfl⟩

theorem take_two_iff (temp : ByteString) : temp.take 2 = [47, 47] ↔ [47, 47] <+: temp := by
  rw [prefix_iff_eq_take]
  exact eq_comm

theorem splitAuthority_slashed (uri : ByteString) {path : ByteString} (hroot : Rooted o path)
    (query fragment : ByteString) :
    splitAuthority uri (slashed o ++ path) query fragment = .ok result ↔
      ¬ (o = some [] ∧ path = [] ∧ query = [] ∧ fragment = []) ∧ (o.getD [], path) = result := by
  rw [splitAuthority]
  simp only [take_two_iff]
  cases o with
  | none =>
    rw [slashed, nil_append, if_neg (hroot.noAuthority rfl)]
    exact ⟨fun h => ⟨fun hnone => (by cases hnone.1), Except.ok.inj h⟩, fun h => congrArg Except.ok h.2⟩
  | some a =>
    have hdrop : (slashed (some a) ++ path).drop 2 = a ++ path := rfl
    rw [if_pos ⟨a ++ path, rfl⟩, find_drop, hdrop]
    rcases hroot.rooted (some_ne_none a) with hnil | hhead
    · subst hnil
      rw [append_nil, find_none (hroot.noSlash a rfl)]
      show (if a = [] ∧ query = [] ∧ fragment = [] then _ else _) = _ ↔ _
      split_ifs with hempty
      · refine iff_of_false (fun h => by cases h) fun h => h.1 ⟨congrArg some hempty.1, rfl, hempty.2⟩
      · refine ⟨fun h => ⟨fun hnone => hempty ⟨Option.some.inj hnone.1, hnone.2.2⟩, Except.ok.inj h⟩, ?_⟩
        exact fun h => congrArg Except.ok h.2
    · cases path with
      | nil => cases hhead
      | cons c path =>
        cases hhead
        have htake : ((slashed (some a) ++ 47 :: path).take (2 + a.length)).drop 2 = a := by
          show List.drop 2 (List.take (2 + a.length) (47 :: 47 :: (a ++ 47 :: path))) = a
          rw [Nat.add_comm, take_succ_cons, take_succ_cons, take_left]
          rfl
        have hrest : (slashed (some a) ++ 47 :: path).drop (2 + a.length) = 47 :: path := by
          rw [← drop_drop, hdrop, drop_left]
        rw [find_append (hroot.noSlash a rfl)]
        show Except.ok (_, _) = _ ↔ _
        rw [htake, hrest]
        exact ⟨fun h => ⟨fun hnone => (by cases hnone.2.1), Except.ok.inj h⟩, fun h => congrArg Except.ok h.2⟩

theorem parseHierarchy_slashed (uri : ByteString) {path : ByteString} (hroot : Rooted o path)
    (query fragment : ByteString) :
    parseHierarchy uri (slashed o ++ path) query fragment = .ok result ↔
      ¬ (o = some [] ∧ path = [] ∧ query = [] ∧ fragment = []) ∧
        Legal (ascii "@[]" ++ someLegal) (o.getD []) ∧ Legal (ascii "/@" ++ someLegal) path ∧ (o.getD [], path) = result := by
  have hpath : (validatePart uri path (ascii "/@" ++ someLegal) "Invalid URI Path" >>=
      fun _ => (pure (o.getD [], path) : Except URIException (ByteString × ByteString))) = .ok result ↔
      Legal (ascii "/@" ++ someLegal) path ∧ (o.getD [], path) = result := by
    rw [bind_validatePart]
    exact and_congr_right' ⟨fun h => Except.ok.inj h, fun h => congrArg Except.ok h⟩
  have hvalidate : ((do
      if o.getD [] ≠ [] then validatePart uri (o.getD []) (ascii "@[]" ++ someLegal) "Invalid URI Authority"
      validatePart uri path (ascii "/@" ++ someLegal) "Invalid URI Path"
      pure (o.getD [], path)) : Except URIException (ByteString × ByteString)) = .ok result ↔
      Legal (ascii "@[]" ++ someLegal) (o.getD []) ∧ Legal (ascii "/@" ++ someLegal) path ∧ (o.getD [], path) = result := by
    by_cases hempty : o.getD [] = []
    · rw [if_neg (not_not_intro hempty)]
      refine hpath.trans ⟨fun h => ⟨?_, h⟩, fun h => h.2⟩
      rw [hempty]
      exact .nil
    · rw [if_pos hempty]
      exact bind_validatePart.trans (and_congr_right' hpath)
  rw [parseHierarchy, except_bind_eq_ok]
  constructor
  · rintro ⟨split, hsplit, hrest⟩
    obtain ⟨hpresent, rfl⟩ := (splitAuthority_slashed uri hroot query fragment).mp hsplit
    exact ⟨hpresent, hvalidate.mp hrest⟩
  · rintro ⟨hpresent, hrest⟩
    exact ⟨(o.getD [], path), (splitAuthority_slashed uri hroot query fragment).mpr ⟨hpresent, rfl⟩, hvalidate.mpr hrest⟩

end URIHelper

/-! ### References -/

/-- A reference with a hierarchical part. A part that is there may be empty. -/
structure URIReference where
  scheme : Option ByteString
  authority : Option ByteString
  path : ByteString
  query : Option ByteString
  fragment : Option ByteString

namespace URIReference

variable {ref : URIReference}

def schemeSpecificPart (ref : URIReference) : ByteString := slashed ref.authority ++ ref.path ++ marked 63 ref.query

def text (ref : URIReference) : ByteString :=
  schemed ref.scheme ++ ref.schemeSpecificPart ++ marked 35 ref.fragment

/-- The parts end where the marks behind them are. -/
structure Delimited (ref : URIReference) : Prop where
  scheme : ∀ a ∈ ref.scheme, (58 ∉ a ∧ 47 ∉ a ∧ 63 ∉ a) ∧ 35 ∉ a
  schemeless : ref.scheme = none → ref.authority = none → ∀ a b, ref.path = a ++ 58 :: b → 47 ∈ a
  leading : ref.scheme ≠ none → ref.authority = none → ref.path.head? = some 47
  rooted : Rooted ref.authority ref.path
  authority : ∀ a ∈ ref.authority, 63 ∉ a ∧ 35 ∉ a
  path : 63 ∉ ref.path ∧ 35 ∉ ref.path
  query : ∀ q ∈ ref.query, 35 ∉ q

/-- The parts have only characters that may stand in them. -/
structure Valid (ref : URIReference) : Prop where
  scheme : ∀ a ∈ ref.scheme, ValidScheme a
  authority : Legal (ascii "@[]" ++ someLegal) (ref.authority.getD [])
  path : Legal (ascii "/@" ++ someLegal) ref.path
  query : Legal allLegal (ref.query.getD [])
  fragment : Legal allLegal (ref.fragment.getD [])
  present : ¬ (ref.authority = some [] ∧ ref.path = [] ∧ ref.query.getD [] = [] ∧ ref.fragment.getD [] = [])

/-- What the parser makes of a reference. -/
def type (ref : URIReference) (server : Option ServerAuthority) : URIType :=
  { scheme := ref.scheme.getD []
    schemeSpecificPart := ref.schemeSpecificPart
    authority := ref.authority.getD []
    userinfo := (server.map ServerAuthority.userinfo).getD []
    host := (server.map ServerAuthority.host).getD []
    port := (server.map ServerAuthority.port).getD (-1)
    path := ref.path
    query := ref.query.getD []
    fragment := ref.fragment.getD []
    absolute := ref.scheme.isSome
    serverAuthority := server.isSome }

theorem Delimited.not_mem_hash (h : Delimited ref) : (35 : UInt8) ∉ schemed ref.scheme ++ ref.schemeSpecificPart := by
  rw [schemeSpecificPart]
  refine not_mem_append ?_ (not_mem_append (not_mem_append ?_ h.path.2) ?_)
  · cases hscheme : ref.scheme with
    | none => exact not_mem_nil
    | some a => exact not_mem_append (h.scheme a hscheme).2 (by decide)
  · cases hauthority : ref.authority with
    | none => exact not_mem_nil
    | some a =>
      rw [slashed, mem_cons, mem_cons]
      rintro (heq | heq | hmem)
      · cases heq
      · cases heq
      · exact (h.authority a hauthority).2 hmem
  · cases hquery : ref.query with
    | none => exact not_mem_nil
    | some q =>
      rw [marked, mem_cons]
      rintro (heq | hmem)
      · cases heq
      · exact h.query q hquery hmem

theorem Delimited.not_mem_mark (h : Delimited ref) : (63 : UInt8) ∉ slashed ref.authority ++ ref.path := by
  refine not_mem_append ?_ h.path.1
  cases hauthority : ref.authority with
  | none => exact not_mem_nil
  | some a =>
    rw [slashed, mem_cons, mem_cons]
    rintro (heq | heq | hmem)
    · cases heq
    · cases heq
    · exact (h.authority a hauthority).1 hmem

theorem Delimited.schemeless_ssp (h : Delimited ref) (hscheme : ref.scheme = none) : Schemeless ref.schemeSpecificPart := by
  rw [schemeSpecificPart]
  intro x y hxy
  cases hauthority : ref.authority with
  | some a =>
    rw [hauthority] at hxy
    cases x with
    | nil => cases hxy
    | cons c x =>
      have hc : (47 : UInt8) = c := (List.cons.inj hxy).1
      rw [← hc]
      exact .inl mem_cons_self
  | none =>
    rw [hauthority, slashed, nil_append] at hxy
    rcases append_eq_append_iff.mp hxy with ⟨t, rfl, ht⟩ | ⟨t, hpath, ht⟩
    · cases hquery : ref.query with
      | none =>
        rw [hquery, marked] at ht
        cases t with
        | nil => cases ht
        | cons d t => cases ht
      | some q =>
        rw [hquery, marked] at ht
        cases t with
        | nil => cases ht
        | cons d t =>
          cases ht
          exact .inr (mem_append_right _ mem_cons_self)
    · cases t with
      | nil =>
        cases hquery : ref.query with
        | none =>
          rw [hquery, marked] at ht
          cases ht
        | some q =>
          rw [hquery, marked] at ht
          cases ht
      | cons d t =>
        cases ht
        exact .inl (h.schemeless hscheme hauthority x t hpath)

theorem Delimited.leading_ssp (h : Delimited ref) (hscheme : ref.scheme ≠ none) :
    ref.schemeSpecificPart.head? = some 47 := by
  rw [schemeSpecificPart]
  cases hauthority : ref.authority with
  | some a => rfl
  | none =>
    have hhead := h.leading hscheme hauthority
    cases hpath : ref.path with
    | nil =>
      rw [hpath] at hhead
      cases hhead
    | cons c rest =>
      rw [hpath] at hhead
      exact hhead

theorem Delimited.parseScheme_iff (h : Delimited ref) (uri : ByteString) {o : Option ByteString} {ssp : ByteString} :
    parseScheme uri (schemed ref.scheme ++ ref.schemeSpecificPart) = .ok (o, ssp) ↔
      (∀ a ∈ ref.scheme, ValidScheme a) ∧ (ref.scheme, ref.schemeSpecificPart) = (o, ssp) := by
  cases hscheme : ref.scheme with
  | none =>
    rw [schemed, nil_append, parseScheme_schemeless (h.schemeless_ssp hscheme)]
    exact ⟨fun heq => ⟨fun a ha => absurd ha (not_mem_none a), Except.ok.inj heq⟩,
      fun heq => congrArg Except.ok heq.2⟩
  | some a =>
    obtain ⟨⟨hcolon, hslash, hmark⟩, -⟩ := h.scheme a hscheme
    have hssp : ref.schemeSpecificPart ≠ [] := by
      intro hnil
      have hhead := h.leading_ssp (hscheme ▸ some_ne_none a)
      rw [hnil] at hhead
      cases hhead
    rw [schemed, append_assoc, singleton_append, parseScheme_colon uri hcolon hslash hmark]
    refine ⟨fun heq => ⟨?_, heq.2.2⟩, fun heq => ⟨heq.1 a rfl, hssp, heq.2⟩⟩
    rintro _ ⟨⟩
    exact heq.1

/-- **A reference is read part by part.** -/
theorem parseURI_text (h : Delimited ref) {forceServer : Bool} {result : URIType} :
    parseURI ref.text forceServer = .ok result ↔
      Valid ref ∧ ∃ server, parseAuthority forceServer (ref.authority.getD []) = .ok server ∧ result = ref.type server := by
  have hfragment : ∀ fragment temp, parseFragment ref.text = .ok (fragment, temp) ↔
      Legal allLegal (ref.fragment.getD []) ∧ (ref.fragment.getD [], schemed ref.scheme ++ ref.schemeSpecificPart) =
        (fragment, temp) :=
    fun fragment temp => parsePart_marked 35 ref.text _ ref.fragment _ h.not_mem_hash
  have hquery : ∀ query temp, parseQuery ref.text ref.schemeSpecificPart = .ok (query, temp) ↔
      Legal allLegal (ref.query.getD []) ∧ (ref.query.getD [], slashed ref.authority ++ ref.path) = (query, temp) :=
    fun query temp => parsePart_marked 63 ref.text _ ref.query _ h.not_mem_mark
  have hbranch : ref.scheme = none ∨ ref.schemeSpecificPart.head? = some 47 :=
    (eq_or_ne ref.scheme none).imp_right h.leading_ssp
  rw [parseURI]
  simp only [except_bind_eq_ok, Prod.exists]
  constructor
  · rintro ⟨fragment, temp, htext, scheme, ssp, hscheme, hrest⟩
    obtain ⟨hlegalFragment, hpair⟩ := (hfragment fragment temp).mp htext
    cases hpair
    obtain ⟨hvalidScheme, hpair⟩ := (h.parseScheme_iff ref.text).mp hscheme
    cases hpair
    rw [if_pos hbranch] at hrest
    obtain ⟨⟨query, temp⟩, hq, hrest⟩ := except_bind_eq_ok.mp hrest
    obtain ⟨hlegalQuery, hpair⟩ := (hquery query temp).mp hq
    cases hpair
    obtain ⟨⟨authority, path⟩, hhierarchy, hrest⟩ := except_bind_eq_ok.mp hrest
    obtain ⟨hpresent, hauthority, hpath, hpair⟩ := (parseHierarchy_slashed ref.text h.rooted _ _).mp hhierarchy
    cases hpair
    obtain ⟨server, hserver, hresult⟩ := except_bind_eq_ok.mp hrest
    refine ⟨⟨hvalidScheme, hauthority, hpath, hlegalQuery, hlegalFragment, hpresent⟩, server, hserver, ?_⟩
    cases server with
    | none => exact (Except.ok.inj hresult).symm
    | some server => exact (Except.ok.inj hresult).symm
  · rintro ⟨hvalid, server, hserver, rfl⟩
    refine ⟨_, _, (hfragment _ _).mpr ⟨hvalid.fragment, rfl⟩, _, _,
      (h.parseScheme_iff ref.text).mpr ⟨hvalid.scheme, rfl⟩, ?_⟩
    rw [if_pos hbranch]
    refine except_bind_eq_ok.mpr ⟨_, (hquery _ _).mpr ⟨hvalid.query, rfl⟩, ?_⟩
    refine except_bind_eq_ok.mpr ⟨_, (parseHierarchy_slashed ref.text h.rooted _ _).mpr
      ⟨hvalid.present, hvalid.authority, hvalid.path, rfl⟩, ?_⟩
    refine except_bind_eq_ok.mpr ⟨server, hserver, ?_⟩
    cases server with
    | none => rfl
    | some server => rfl

end URIReference

/-- A reference without a `/` behind its scheme. -/
structure RootlessReference where
  scheme : ByteString
  schemeSpecificPart : ByteString
  fragment : Option ByteString

namespace RootlessReference

variable {ref : RootlessReference}

def text (ref : RootlessReference) : ByteString :=
  schemed (some ref.scheme) ++ ref.schemeSpecificPart ++ marked 35 ref.fragment

structure Delimited (ref : RootlessReference) : Prop where
  scheme : (58 ∉ ref.scheme ∧ 47 ∉ ref.scheme ∧ 63 ∉ ref.scheme) ∧ 35 ∉ ref.scheme
  rootless : ref.schemeSpecificPart.head? ≠ some 47
  schemeSpecificPart : 35 ∉ ref.schemeSpecificPart

structure Valid (ref : RootlessReference) : Prop where
  scheme : ValidScheme ref.scheme
  present : ref.schemeSpecificPart ≠ []
  schemeSpecificPart : Legal allLegal ref.schemeSpecificPart
  fragment : Legal allLegal (ref.fragment.getD [])

def type (ref : RootlessReference) : URIType :=
  { scheme := ref.scheme
    schemeSpecificPart := ref.schemeSpecificPart
    fragment := ref.fragment.getD []
    isOpaque := true
    absolute := true }

theorem Delimited.not_mem_hash (h : Delimited ref) :
    (35 : UInt8) ∉ schemed (some ref.scheme) ++ ref.schemeSpecificPart :=
  not_mem_append (not_mem_append h.scheme.2 (by decide)) h.schemeSpecificPart

theorem parseURI_text (h : Delimited ref) {forceServer : Bool} {result : URIType} :
    parseURI ref.text forceServer = .ok result ↔ Valid ref ∧ result = ref.type := by
  obtain ⟨⟨hcolon, hslash, hmark⟩, -⟩ := h.scheme
  have hfragment : ∀ fragment temp, parseFragment ref.text = .ok (fragment, temp) ↔
      Legal allLegal (ref.fragment.getD []) ∧
        (ref.fragment.getD [], schemed (some ref.scheme) ++ ref.schemeSpecificPart) = (fragment, temp) :=
    fun fragment temp => parsePart_marked 35 ref.text _ ref.fragment _ h.not_mem_hash
  have hscheme : ∀ o ssp, parseScheme ref.text (schemed (some ref.scheme) ++ ref.schemeSpecificPart) = .ok (o, ssp) ↔
      ValidScheme ref.scheme ∧ ref.schemeSpecificPart ≠ [] ∧ (some ref.scheme, ref.schemeSpecificPart) = (o, ssp) := by
    intro o ssp
    rw [schemed, append_assoc, singleton_append]
    exact parseScheme_colon ref.text hcolon hslash hmark
  have hbranch : ¬ (some ref.scheme = none ∨ ref.schemeSpecificPart.head? = some 47) :=
    not_or_intro (some_ne_none _) h.rootless
  rw [parseURI]
  simp only [except_bind_eq_ok, Prod.exists]
  constructor
  · rintro ⟨fragment, temp, htext, scheme, ssp, hsplit, hrest⟩
    obtain ⟨hlegalFragment, hpair⟩ := (hfragment fragment temp).mp htext
    cases hpair
    obtain ⟨hvalidScheme, hpresent, hpair⟩ := (hscheme scheme ssp).mp hsplit
    cases hpair
    rw [if_neg hbranch, bind_validatePart] at hrest
    exact ⟨⟨hvalidScheme, hpresent, hrest.1, hlegalFragment⟩, (Except.ok.inj hrest.2).symm⟩
  · rintro ⟨hvalid, rfl⟩
    refine ⟨_, _, (hfragment _ _).mpr ⟨hvalid.fragment, rfl⟩, _, _,
      (hscheme _ _).mpr ⟨hvalid.scheme, hvalid.present, rfl⟩, ?_⟩
    rw [if_neg hbranch, bind_validatePart]
    exact ⟨hvalid.schemeSpecificPart, rfl⟩

end RootlessReference

/-! ### Every string is the text of a reference -/

theorem hierarchy_cases (ssp : ByteString) : ∃ (authority : Option ByteString) (path : ByteString) (query : Option ByteString),
    Rooted authority path ∧ 63 ∉ slashed authority ++ path ∧ ssp = slashed authority ++ path ++ marked 63 query := by
  obtain ⟨temp, query, htemp, rfl⟩ := marked_cases 63 ssp
  obtain ⟨authority, path, hroot, rfl⟩ := rooted_cases temp
  exact ⟨authority, path, query, hroot, htemp, rfl⟩

theorem reference_cases (s : ByteString) :
    (∃ ref : URIReference, ref.Delimited ∧ s = ref.text) ∨ (∃ ref : RootlessReference, ref.Delimited ∧ s = ref.text) := by
  obtain ⟨temp, fragment, htemp, rfl⟩ := marked_cases 35 s
  have hhierarchy : ∀ (scheme : Option ByteString) (ssp : ByteString), (∀ a ∈ scheme, (58 ∉ a ∧ 47 ∉ a ∧ 63 ∉ a) ∧ 35 ∉ a) →
      35 ∉ ssp → (scheme = none → Schemeless ssp) → (scheme ≠ none → ssp.head? = some 47) →
      ∃ ref : URIReference, ref.Delimited ∧ schemed scheme ++ ssp ++ marked 35 fragment = ref.text := by
    intro scheme ssp hscheme hhash hless hleading
    obtain ⟨authority, path, query, hroot, hmark, rfl⟩ := hierarchy_cases ssp
    refine ⟨⟨scheme, authority, path, query, fragment⟩, ⟨hscheme, ?_, ?_, hroot, ?_, ?_, ?_⟩, rfl⟩
    · rintro hnone rfl a b rfl
      refine (hless hnone a (b ++ marked 63 query) ?_).resolve_right fun hin =>
        hmark (mem_append_right _ (mem_append_left _ hin))
      rw [slashed, nil_append, append_assoc, cons_append]
    · rintro hsome rfl
      have hhead := hleading hsome
      cases path with
      | nil => cases query <;> cases hhead
      | cons c path => exact hhead
    · rintro a rfl
      exact ⟨fun hin => hmark (mem_append_left _ (mem_cons_of_mem _ (mem_cons_of_mem _ hin))),
        fun hin => hhash (mem_append_left _ (mem_append_left _ (mem_cons_of_mem _
          (mem_cons_of_mem _ hin))))⟩
    · exact ⟨fun hin => hmark (mem_append_right _ hin),
        fun hin => hhash (mem_append_left _ (mem_append_right _ hin))⟩
    · rintro q rfl hin
      exact hhash (mem_append_right _ (mem_cons_of_mem _ hin))
  rcases schemeless_or temp with hless | ⟨a, ssp, rfl, hcolon, hslash, hmark⟩
  · exact .inl (hhierarchy none temp (fun a ha => absurd ha (not_mem_none a)) htemp (fun _ => hless)
      fun hne => absurd rfl hne)
  · have hscheme : (58 ∉ a ∧ 47 ∉ a ∧ 63 ∉ a) ∧ 35 ∉ a := ⟨⟨hcolon, hslash, hmark⟩, fun hin => htemp (mem_append_left _ hin)⟩
    have hssp : 35 ∉ ssp := fun hin => htemp (mem_append_right _ (mem_cons_of_mem _ hin))
    have htext : a ++ 58 :: ssp = schemed (some a) ++ ssp := by
      rw [schemed, append_assoc, singleton_append]
    by_cases hhead : ssp.head? = some 47
    · left
      rw [htext]
      apply hhierarchy (some a) ssp _ hssp (fun hnone => by cases hnone) fun _ => hhead
      rintro _ ⟨⟩
      exact hscheme
    · right
      refine ⟨⟨a, ssp, fragment⟩, ⟨hscheme, hhead, hssp⟩, ?_⟩
      rw [htext]
      rfl

/-- **What the parser accepts**: the text of a valid reference. -/
theorem parseURI_ok {s : ByteString} {forceServer : Bool} {result : URIType} (h : parseURI s forceServer = .ok result) :
    (∃ (ref : URIReference) (server : Option ServerAuthority), ref.Delimited ∧ ref.Valid ∧ s = ref.text ∧
      parseAuthority forceServer (ref.authority.getD []) = .ok server ∧ result = ref.type server) ∨
    (∃ ref : RootlessReference, ref.Delimited ∧ ref.Valid ∧ s = ref.text ∧ result = ref.type) := by
  rcases reference_cases s with ⟨ref, hdelimited, rfl⟩ | ⟨ref, hdelimited, rfl⟩
  · obtain ⟨hvalid, server, hserver, hresult⟩ := (URIReference.parseURI_text hdelimited).mp h
    exact .inl ⟨ref, server, hdelimited, hvalid, rfl, hserver, hresult⟩
  · obtain ⟨hvalid, hresult⟩ := (RootlessReference.parseURI_text hdelimited).mp h
    exact .inr ⟨ref, hdelimited, hvalid, rfl, hresult⟩

end ActiveMQCpp.Decaf
