import ActiveMQCpp.DecafURIReference

/-! `parseAuthority`: the user info of a server, and the demand that an authority is one. -/

namespace ActiveMQCpp.Decaf

open Codec Character URIEncoderDecoder

namespace URIHelper

variable {authority : ByteString}
variable {result : Option ServerAuthority} {forceServer : Bool}

/-! ### The user info -/

theorem splitUserinfo_marked {userinfo : ByteString} (h : 64 ∉ userinfo) (temp : ByteString) :
    splitUserinfo (userinfo ++ 64 :: temp) = (userinfo, temp) := by
  have hdrop : (userinfo ++ 64 :: temp).drop (userinfo.length + 1) = temp := by
    rw [← List.drop_drop, List.drop_left]
    rfl
  rw [splitUserinfo, find_append h]
  show (List.take _ _, List.drop _ _) = _
  rw [List.take_left, hdrop]

theorem splitUserinfo_none (h : 64 ∉ authority) : splitUserinfo authority = ([], authority) := by
  rw [splitUserinfo, find_none h]

/-! ### The demand for a server -/

theorem isValidHost_forced {host : ByteString} {b : Bool} (h : isValidHost true host = .ok b) :
    isValidHost false host = .ok b ∧ b = true := by
  rw [isValidHost] at h ⊢
  by_cases hbracket : host.head? = some 91
  · rw [if_pos hbracket] at h ⊢
    split_ifs at h ⊢
    cases h
    exact ⟨rfl, rfl⟩
  rw [if_neg hbracket] at h ⊢
  by_cases hinside : (host.contains 91 || host.contains 93) = true
  · rw [if_pos hinside] at h
    cases h
  rw [if_neg hinside] at h ⊢
  cases hdomain : hasDomainName host with
  | true =>
    rw [hdomain, if_pos rfl] at h
    rw [if_pos rfl]
    match hvalid : convert (isValidDomainName host), h with
    | .ok true, h =>
      cases h
      exact ⟨rfl, rfl⟩
  | false =>
    rw [hdomain, if_neg Bool.false_ne_true] at h
    rw [if_neg Bool.false_ne_true]
    cases haddress : isValidIPv4Address host with
    | true =>
      rw [haddress] at h
      cases h
      exact ⟨rfl, rfl⟩
    | false =>
      rw [haddress] at h
      cases h

theorem hostAndPort_forced {temp : ByteString} {result : Option (ByteString × Int)}
    (h : hostAndPort true authority temp = .ok result) : hostAndPort false authority temp = .ok result ∧ result ≠ none := by
  rw [hostAndPort] at h ⊢
  cases hcolon : rfind 58 temp with
  | none =>
    rw [hcolon] at h
    cases h
    exact ⟨rfl, Option.some_ne_none _⟩
  | some index =>
    rw [hcolon] at h
    simp only [] at h ⊢
    by_cases hbracket : (find 93 temp 0).all (· < index) = true
    · rw [if_pos hbracket] at h ⊢
      by_cases hlast : index < temp.length - 1
      · rw [if_pos hlast] at h ⊢
        match hport : Integer.parseInt (temp.drop (index + 1)), h with
        | .ok port, h =>
          simp only [] at h ⊢
          by_cases hnegative : port < 0
          · rw [if_pos hnegative] at h
            cases h
          · rw [if_neg hnegative] at h ⊢
            cases h
            exact ⟨rfl, Option.some_ne_none _⟩
      · rw [if_neg hlast] at h ⊢
        cases h
        exact ⟨rfl, Option.some_ne_none _⟩
    · rw [if_neg hbracket] at h ⊢
      cases h
      exact ⟨rfl, Option.some_ne_none _⟩

theorem parseAuthority_ok (hne : authority ≠ []) (h : parseAuthority forceServer authority = .ok result) :
    validateUserinfo authority (splitUserinfo authority).1 = .ok () ∧
      ∃ parts, hostAndPort forceServer authority (splitUserinfo authority).2 = .ok parts ∧
        match parts with
        | none => result = none
        | some (host, port) =>
          (host = [] ∧ forceServer = false ∧ result = none) ∨
            (host ≠ [] ∧ ∃ valid, isValidHost forceServer host = .ok valid ∧
              result = if valid then some { userinfo := (splitUserinfo authority).1, host, port } else none) := by
  rw [parseAuthority, if_neg hne] at h
  obtain ⟨u, hvalidate, h⟩ := except_bind_eq_ok.mp h
  obtain ⟨parts, hparts, h⟩ := except_bind_eq_ok.mp h
  refine ⟨hvalidate, parts, hparts, ?_⟩
  match parts with
  | none => exact (Except.ok.inj h).symm
  | some (host, port) =>
    simp only [] at h
    split_ifs at h with hempty hforce
    · refine .inl ⟨hempty, ?_, (Except.ok.inj h).symm⟩
      exact Bool.eq_false_iff.mpr hforce
    · obtain ⟨valid, hvalid, h⟩ := except_bind_eq_ok.mp h
      refine .inr ⟨hempty, valid, hvalid, ?_⟩
      cases valid with
      | true => exact (Except.ok.inj h).symm
      | false => exact (Except.ok.inj h).symm

theorem parseAuthority_userinfo {server : ServerAuthority}
    (h : parseAuthority forceServer authority = .ok (some server)) :
    server.userinfo = (splitUserinfo authority).1 := by
  by_cases hne : authority = []
  · rw [parseAuthority, if_pos hne] at h
    cases h
  · obtain ⟨-, parts, -, hparts⟩ := parseAuthority_ok hne h
    match parts with
    | none => cases hparts
    | some (host, port) =>
      rcases hparts with ⟨-, -, hnone⟩ | ⟨-, valid, -, hresult⟩
      · cases hnone
      · cases valid with
        | true =>
          cases hresult
          rfl
        | false => cases hresult

theorem parseAuthority_forced (h : parseAuthority true authority = .ok result) :
    parseAuthority false authority = .ok result ∧ (result = none → authority = []) := by
  by_cases hne : authority = []
  · rw [parseAuthority, if_pos hne] at h ⊢
    exact ⟨h, fun _ => hne⟩
  · obtain ⟨hvalidate, parts, hparts, hrest⟩ := parseAuthority_ok hne h
    obtain ⟨hpartsFalse, hsome⟩ := hostAndPort_forced hparts
    match parts with
    | none => exact absurd rfl hsome
    | some (host, port) =>
      rcases hrest with ⟨-, hforce, -⟩ | ⟨hhost, valid, hvalid, hresult⟩
      · cases hforce
      · obtain ⟨hvalidFalse, rfl⟩ := isValidHost_forced hvalid
        cases hresult
        refine ⟨?_, fun hnone => by cases hnone⟩
        rw [parseAuthority, if_neg hne]
        refine except_bind_eq_ok.mpr ⟨(), hvalidate, ?_⟩
        refine except_bind_eq_ok.mpr ⟨_, hpartsFalse, ?_⟩
        simp only [if_neg hhost]
        exact except_bind_eq_ok.mpr ⟨true, hvalidFalse, rfl⟩

end URIHelper

end ActiveMQCpp.Decaf
