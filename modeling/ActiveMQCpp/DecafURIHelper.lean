import ActiveMQCpp.DecafURIEncoderDecoder

/-! `URIHelper`: the parser of a URI. Positions are only there for the index of an exception, which is left out. -/

namespace ActiveMQCpp.Decaf

/-- The parts of a URI as they stand in its string; a part that is not there is empty, and a port that is not there is
`-1`. -/
structure URIType where
  scheme : ByteString := []
  schemeSpecificPart : ByteString := []
  authority : ByteString := []
  userinfo : ByteString := []
  host : ByteString := []
  port : Int := -1
  path : ByteString := []
  query : ByteString := []
  fragment : ByteString := []
  isOpaque : Bool := false
  absolute : Bool := false
  serverAuthority : Bool := false
  deriving DecidableEq

namespace URIHelper

open Character URIEncoderDecoder

variable {c : UInt8}

def someLegal : ByteString := ascii "_-!.~'()*,;:$&+="

def allLegal : ByteString := ascii "_-!.~'()*,;:$&+=?/[]@"

/-! ### Strings -/

def find (c : UInt8) (s : ByteString) (pos : Nat) : Option Nat := ((s.drop pos).findIdx? (· = c)).map (pos + ·)

def rfind (c : UInt8) (s : ByteString) : Option Nat := (s.reverse.findIdx? (· = c)).map (s.length - 1 - ·)

theorem rfind_append (a : ByteString) {b : ByteString} (h : c ∉ b) : rfind c (a ++ c :: b) = some a.length := by
  have hnone : b.reverse.findIdx? (· = c) = none :=
    List.findIdx?_eq_none_iff.mpr fun x hx => decide_eq_false fun heq => h (heq ▸ List.mem_reverse.mp hx)
  rw [rfind, List.reverse_append, List.reverse_cons, List.append_assoc, List.findIdx?_append, hnone, List.singleton_append,
    List.findIdx?_cons]
  simp only [decide_true, if_true, Option.map_some, Option.none_or, List.length_append, List.length_cons,
    List.length_reverse]
  congr 1
  omega

theorem rfind_none {s : ByteString} (h : c ∉ s) : rfind c s = none := by
  rw [rfind, List.findIdx?_eq_none_iff.mpr]
  · rfl
  · intro x hx
    exact decide_eq_false fun heq => h (heq ▸ List.mem_reverse.mp hx)

/-! ### Hosts -/

/-- The first block of a host name in which a `-` is the first or the last character makes it invalid; the last one
must not begin with a digit, and is missing where there is none. -/
def isValidDomainName (host : ByteString) : Except URIException Bool :=
  match validateSimple host (ascii "-.") with
  | .error _ => .ok false
  | .ok () =>
    let labels := (host.splitOn 46).filter (· ≠ [])
    if labels.any fun label => label.head? = some 45 || label.getLast? = some 45 then .ok false
    else
      let label := labels.getLast?.getD []
      if label ≠ host then
        match label with
        | [] => .error .outOfRange
        | c :: _ => .ok (!isDigit c)
      else .ok true

def isIPv4Number (s : ByteString) : Bool :=
  match Integer.parseInt s with
  | .ok num => 0 ≤ num && num ≤ 255
  | .error _ => false

/-- The part between two dots. Before and behind one that is not there are the start and the end of the string, by
the overflow of `npos`. -/
def between (host : ByteString) (index index2 : Option Nat) : ByteString :=
  let start := (index.map (· + 1)).getD 0
  (host.drop start).take (index2.getD host.length - start)

def isValidIPv4Address (host : ByteString) : Bool :=
  let index := find 46 host 0
  let index2 := find 46 host ((index.map (· + 1)).getD 0)
  let index3 := find 46 host ((index2.map (· + 1)).getD 0)
  isIPv4Number (host.take (index.getD host.length)) && isIPv4Number (between host index index2) &&
    isIPv4Number (between host index2 index3) && isIPv4Number (between host index3 none)

def isValidIP4Word (word : ByteString) : Bool :=
  1 ≤ word.length && word.length ≤ 3 && word.all isDigit && isIPv4Number word

def isValidHexChar (c : UInt8) : Bool :=
  (48 ≤ c.toNat && c.toNat ≤ 57) || (65 ≤ c.toNat && c.toNat ≤ 70) || (97 ≤ c.toNat && c.toNat ≤ 102)

/-- The variables of the loop of `isValidIP6Address`. -/
structure IP6Scan where
  doubleColon : Bool := false
  numberOfColons : Nat := 0
  numberOfPeriods : Nat := 0
  word : ByteString := []
  c : UInt8 := 0
  offset : Nat := 0

def charAt (s : ByteString) (i : Nat) : UInt8 := s.getD i 0

/-- A turn of the loop; none where the address is found invalid. -/
def scanIP6 (ipAddress : ByteString) (i : Nat) (c : UInt8) (scan : IP6Scan) : Option IP6Scan :=
  let prevChar := scan.c
  let scan := { scan with c }
  let length := ipAddress.length
  if c = 91 then
    if i ≠ 0 then none
    else if charAt ipAddress (length - 1) ≠ 93 then none
    else if charAt ipAddress 1 = 58 ∧ charAt ipAddress 2 ≠ 58 then none
    else if length < 4 then none
    else some { scan with offset := 1 }
  else if c = 93 then
    if i ≠ length - 1 then none else if charAt ipAddress 0 ≠ 91 then none else some scan
  else if c = 46 then
    let numberOfPeriods := scan.numberOfPeriods + 1
    if numberOfPeriods > 3 then none
    else if !isValidIP4Word scan.word then none
    else if scan.numberOfColons ≠ 6 ∧ scan.doubleColon = false then none
    else if scan.numberOfColons = 7 ∧ charAt ipAddress scan.offset ≠ 58 ∧ charAt ipAddress (1 + scan.offset) ≠ 58 then none
    else some { scan with numberOfPeriods, word := [] }
  else if c = 58 then
    let numberOfColons := scan.numberOfColons + 1
    if numberOfColons > 7 then none
    else if scan.numberOfPeriods > 0 then none
    else if prevChar = 58 ∧ scan.doubleColon then none
    else some { scan with numberOfColons, doubleColon := scan.doubleColon || prevChar == 58, word := [] }
  else if scan.word.length > 3 then none
  else if !isValidHexChar c then none
  else some { scan with word := scan.word ++ [c] }

def scanIP6All (ipAddress : ByteString) : (i : Nat) → ByteString → IP6Scan → Option IP6Scan
  | _, [], scan => some scan
  | i, c :: rest, scan => (scanIP6 ipAddress i c scan).bind (scanIP6All ipAddress (i + 1) rest)

def isValidIP6Address (ipAddress : ByteString) : Bool :=
  let length := ipAddress.length
  if length < 2 then false
  else
    match scanIP6All ipAddress 0 ipAddress {} with
    | none => false
    | some scan =>
      if scan.numberOfPeriods > 0 then scan.numberOfPeriods = 3 && isValidIP4Word scan.word
      else if scan.numberOfColons ≠ 7 ∧ scan.doubleColon = false then false
      else
        !(scan.word = [] && charAt ipAddress (length - 1 - scan.offset) ≠ 58 &&
          charAt ipAddress (length - 2 - scan.offset) ≠ 58)

/-- `DECAF_CATCH_RETHROW(URISyntaxException) DECAF_CATCHALL_THROW(URISyntaxException)`. -/
def convert {α : Type} : Except URIException α → Except URIException α
  | .ok a => .ok a
  | .error (.syntaxException input reason) => .error (.syntaxException input reason)
  | .error _ => .error (.syntaxException [] "caught unknown exception")

/-- No digit behind the last `.`. -/
def hasDomainName (host : ByteString) : Bool :=
  (rfind 46 host).all fun index => index = host.length - 1 || !isDigit (charAt host (index + 1))

def isValidHost (forceServer : Bool) (host : ByteString) : Except URIException Bool :=
  if host.head? = some 91 then
    if host.getLast? ≠ some 93 then .error (.syntaxException host "Host address does not end in ']'")
    else if !isValidIP6Address host then .error (.syntaxException host "Host IPv6 address is not valid")
    else .ok true
  else if host.contains 91 || host.contains 93 then
    .error (.syntaxException host "Unexpected '[' or ']' found in address")
  else if hasDomainName host then
    match convert (isValidDomainName host) with
    | .error e => .error e
    | .ok true => .ok true
    | .ok false => if forceServer then .error (.syntaxException host "Host address is not valid") else .ok false
  else if isValidIPv4Address host then .ok true
  else if forceServer then .error (.syntaxException host "Host IPv4 address is not valid")
  else .ok false

/-! ### The authority -/

/-- The parts of the authority of a server. -/
structure ServerAuthority where
  userinfo : ByteString
  host : ByteString
  port : Int
  deriving DecidableEq

def validateUserinfo (uri userinfo : ByteString) : Except URIException Unit :=
  if userinfo.contains 91 || userinfo.contains 93 then
    .error (.syntaxException uri "User Info cannot contain '[' or ']'")
  else .ok ()

/-- What follows `@`: the host, and the number behind the last `:` that is not in brackets. Nothing is returned for a
port that is none, which is an exception for a server. -/
def hostAndPort (forceServer : Bool) (authority temp : ByteString) : Except URIException (Option (ByteString × Int)) :=
  match rfind 58 temp with
  | none => .ok (some (temp, -1))
  | some index =>
    if (find 93 temp 0).all (· < index) then
      if index < temp.length - 1 then
        match Integer.parseInt (temp.drop (index + 1)) with
        | .ok port =>
          if port < 0 then
            if forceServer then .error (.syntaxException authority "Port number is missing") else .ok none
          else .ok (some (temp.take index, port))
        | .error _ =>
          if forceServer then .error (.syntaxException authority "Port number is malformed.") else .ok none
      else .ok (some (temp.take index, -1))
    else .ok (some (temp, -1))

/-- The user info, and what follows `@`. -/
def splitUserinfo (authority : ByteString) : ByteString × ByteString :=
  match find 64 authority 0 with
  | some index => (authority.take index, authority.drop (index + 1))
  | none => ([], authority)

/-- Nothing is returned for an authority that is not that of a server. -/
def parseAuthority (forceServer : Bool) (authority : ByteString) : Except URIException (Option ServerAuthority) :=
  if authority = [] then .ok none
  else do
    let (userinfo, temp) := splitUserinfo authority
    validateUserinfo authority userinfo
    match ← hostAndPort forceServer authority temp with
    | none => pure none
    | some (host, port) =>
      if host = [] then
        if forceServer then throw (.syntaxException authority "Host name is empty") else pure none
      else if ← isValidHost forceServer host then pure (some { userinfo, host, port })
      else pure none

/-! ### The URI -/

/-- `validateFragment` and its like: the exception names the URI. -/
def validatePart (uri part legal : ByteString) (reason : String) : Except URIException Unit :=
  match validate part legal with
  | .ok () => .ok ()
  | .error _ => .error (.syntaxException uri reason)

def validateScheme (uri scheme : ByteString) : Except URIException Unit :=
  if !isLetter (charAt scheme 0) then .error (.syntaxException uri "Schema must start with a Letter.")
  else
    match validateSimple scheme (ascii "+-.") with
    | .ok () => .ok ()
    | .error _ => .error (.syntaxException uri "Invalid Schema")

/-- The part behind the first `mark`, and what stands before it. -/
def parsePart (mark : UInt8) (uri temp : ByteString) (reason : String) : Except URIException (ByteString × ByteString) :=
  match find mark temp 0 with
  | some index => do
    validatePart uri (temp.drop (index + 1)) allLegal reason
    pure (temp.drop (index + 1), temp.take index)
  | none => pure ([], temp)

def parseFragment (uri : ByteString) : Except URIException (ByteString × ByteString) :=
  parsePart 35 uri uri "Invalid URI Fragment"

/-- The scheme, if a `:` comes before all `/` and `?`, and the part behind it. -/
def parseScheme (uri temp : ByteString) : Except URIException (Option ByteString × ByteString) :=
  match find 58 temp 0 with
  | none => pure (none, temp)
  | some index =>
    if (find 47 temp 0).all (· ≥ index) && (find 63 temp 0).all (· ≥ index) then
      if temp.take index = [] then throw (.syntaxException uri "Scheme not specified.")
      else do
        validateScheme uri (temp.take index)
        if temp.drop (index + 1) = [] then throw (.syntaxException uri "Scheme specific part is invalid..")
        else pure (some (temp.take index), temp.drop (index + 1))
    else pure (none, temp)

def parseQuery (uri ssp : ByteString) : Except URIException (ByteString × ByteString) :=
  parsePart 63 uri ssp "Invalid URI Query"

/-- The authority, if there are two slashes, and the path. -/
def splitAuthority (uri temp query fragment : ByteString) : Except URIException (ByteString × ByteString) :=
  if temp.take 2 = [47, 47] then
    match find 47 temp 2 with
    | some index => .ok ((temp.take index).drop 2, temp.drop index)
    | none =>
      if temp.drop 2 = [] ∧ query = [] ∧ fragment = [] then
        .error (.syntaxException uri "Scheme specific part is invalid..")
      else .ok (temp.drop 2, [])
  else .ok ([], temp)

def parseHierarchy (uri temp query fragment : ByteString) : Except URIException (ByteString × ByteString) := do
  let (authority, path) ← splitAuthority uri temp query fragment
  if authority ≠ [] then validatePart uri authority (ascii "@[]" ++ someLegal) "Invalid URI Authority"
  validatePart uri path (ascii "/@" ++ someLegal) "Invalid URI Path"
  pure (authority, path)

def parseURI (uri : ByteString) (forceServer : Bool) : Except URIException URIType := do
  let (fragment, temp) ← parseFragment uri
  let (scheme, schemeSpecificPart) ← parseScheme uri temp
  let result : URIType := { scheme := scheme.getD [], absolute := scheme.isSome, schemeSpecificPart, fragment }
  if scheme = none ∨ schemeSpecificPart.head? = some 47 then
    let (query, temp) ← parseQuery uri schemeSpecificPart
    let (authority, path) ← parseHierarchy uri temp query fragment
    let result := { result with query, authority, path }
    match ← parseAuthority forceServer authority with
    | none => pure result
    | some server =>
      pure { result with userinfo := server.userinfo, host := server.host, port := server.port, serverAuthority := true }
  else
    validatePart uri schemeSpecificPart allLegal "Invalid URI Ssp"
    pure { result with isOpaque := true }

end URIHelper

end ActiveMQCpp.Decaf
