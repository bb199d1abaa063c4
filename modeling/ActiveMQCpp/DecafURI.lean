import ActiveMQCpp.DecafURIHelper

/-! `URI`: its constructors, its string, and `normalize`, `relativize` and `resolve`. -/

namespace ActiveMQCpp.Decaf

open URIHelper URIEncoderDecoder

/-- The string is the one that was parsed, or empty until `toString` composes one. -/
structure URI where
  uri : URIType := {}
  uriString : ByteString := []
  deriving DecidableEq

namespace URI

/-! ### The constructors -/

def parseURI (uri : ByteString) (forceServer : Bool) : Except URIException URIType :=
  convert (URIHelper.parseURI uri forceServer)

def ofString (uri : ByteString) : Except URIException URI := do
  pure { uri := ← parseURI uri false, uriString := uri }

def behind (mark part text : ByteString) : ByteString := if part = [] then [] else mark ++ text

def before (part mark : ByteString) : ByteString := if part = [] then [] else part ++ mark

def ofSchemeSpecificPart (scheme ssp fragment : ByteString) : Except URIException URI := do
  let uri := before scheme (ascii ":") ++ quoteIllegal ssp allLegal ++
    behind (ascii "#") fragment (quoteIllegal fragment allLegal)
  pure { uri := ← parseURI uri false }

def bracketed (host : ByteString) : ByteString :=
  if host.contains 58 && !host.contains 93 && !host.contains 91 then ascii "[" ++ host ++ ascii "]" else host

def hostText (host : ByteString) (port : Int) : ByteString :=
  bracketed host ++ if port = -1 then [] else ascii ":" ++ Integer.toString port

def serverAuthority (userInfo host : ByteString) (port : Int) : ByteString :=
  (if userInfo = [] then [] else quoteIllegal userInfo someLegal ++ ascii "@") ++ hostText host port

def pathLegal : ByteString := ascii "/@" ++ someLegal

def authorityLegal : ByteString := ascii "@[]" ++ someLegal

/-- The sets that the parts of a URI are quoted with. -/
def legalSets : List ByteString := [someLegal, allLegal, pathLegal, authorityLegal]

theorem percent_not_legal : ∀ legal ∈ legalSets, (37 : UInt8) ∉ legal := by decide

/-- What is quoted decodes to what it was and is accepted with the set it was quoted with. Encoding the rest
changes nothing for the one who decodes. -/
theorem quoting_undone (s : ByteString) {legal : ByteString} (h : legal ∈ legalSets) :
    decode (quoteIllegal s legal) = .ok s ∧ validate (quoteIllegal s legal) legal = .ok () ∧
      decode (encodeOthers s) = decode s :=
  ⟨decode_quoteIllegal (percent_not_legal legal h) s, validate_iff.mpr (legal_quoteIllegal (percent_not_legal legal h) s),
    decode_encodeOthers s⟩

/-- A quotation mark, an escape and a character above 127. -/
theorem quoting_undone_path :
    decode (quoteIllegal (ascii "\"%41" ++ [233]) pathLegal) = .ok (ascii "\"%41" ++ [233]) ∧
      validate (quoteIllegal (ascii "\"%41" ++ [233]) pathLegal) pathLegal = .ok () ∧
      decode (encodeOthers (ascii "\"%41" ++ [233])) = decode (ascii "\"%41" ++ [233]) :=
  quoting_undone _ (by decide)

def startsWithInvalidChar (path : ByteString) : URIException :=
  .syntaxException path "URI::URI - Path string: %s starts with invalid char '/'"

/-- `URI(scheme, userInfo, host, port, path, query, fragment)`. -/
def ofServer (scheme userInfo host : ByteString) (port : Int) (path query fragment : ByteString) :
    Except URIException URI := do
  if scheme = [] ∧ userInfo = [] ∧ host = [] ∧ path = [] ∧ query = [] ∧ fragment = [] then pure {}
  else if scheme ≠ [] ∧ path ≠ [] ∧ path.head? ≠ some 47 then throw (startsWithInvalidChar path)
  else
    let uri := before scheme (ascii ":") ++ ascii "//" ++ serverAuthority userInfo host port ++
      quoteIllegal path pathLegal ++ behind (ascii "?") query (quoteIllegal query allLegal) ++
      behind (ascii "#") fragment (quoteIllegal fragment allLegal)
    pure { uri := ← parseURI uri true }

/-- `URI(scheme, host, path, fragment)`. -/
def ofHost (scheme host path fragment : ByteString) : Except URIException URI := do
  if scheme = [] ∧ host = [] ∧ path = [] ∧ fragment = [] then pure {}
  else if scheme ≠ [] ∧ path ≠ [] ∧ path.head? ≠ some 47 then throw (startsWithInvalidChar path)
  else
    let uri := before scheme (ascii ":") ++ behind (ascii "//") host (bracketed host) ++
      quoteIllegal path pathLegal ++ behind (ascii "#") fragment (quoteIllegal fragment allLegal)
    pure { uri := ← parseURI uri true }

/-- `URI(scheme, authority, path, query, fragment)`. -/
def ofAuthority (scheme authority path query fragment : ByteString) : Except URIException URI := do
  if scheme ≠ [] ∧ path ≠ [] ∧ path.head? ≠ some 47 then
    throw (.syntaxException path "URI::URI - Path String %s must start with a '/'")
  else
    let uri := before scheme (ascii ":") ++ ascii "//" ++ quoteIllegal authority authorityLegal ++
      quoteIllegal path pathLegal ++ behind (ascii "?") query (quoteIllegal query allLegal) ++
      behind (ascii "#") fragment (quoteIllegal fragment allLegal)
    pure { uri := ← parseURI uri false }

/-- `create`: the exception of the parser becomes an `IllegalArgumentException`. -/
def create (uri : ByteString) : Except URIException URI :=
  match ofString uri with
  | .error (.syntaxException _ _) => .error .illegalArgumentException
  | result => result

/-! ### What is read of a URI -/

/-- The string that `toString` composes. -/
def compose (uri : URIType) : ByteString :=
  before uri.scheme (ascii ":") ++
    (if uri.isOpaque then uri.schemeSpecificPart
    else behind (ascii "//") uri.authority uri.authority ++ uri.path ++ behind (ascii "?") uri.query uri.query) ++
    behind (ascii "#") uri.fragment uri.fragment

def toString (u : URI) : ByteString := if u.uriString = [] then compose u.uri else u.uriString

def getAuthority (u : URI) : Except URIException ByteString := decode u.uri.authority

def getUserInfo (u : URI) : Except URIException ByteString := decode u.uri.userinfo

def getPath (u : URI) : Except URIException ByteString := decode u.uri.path

def getQuery (u : URI) : Except URIException ByteString := decode u.uri.query

def getFragment (u : URI) : Except URIException ByteString := decode u.uri.fragment

/-! ### normalize -/

/-- How many `/` have a character behind them that is none. -/
def countSlashes : ByteString → Nat
  | [] => 0
  | c :: rest =>
    (if c = 47 then (match rest with | [] => 0 | d :: _ => if d ≠ 47 then 1 else 0) else 0) + countSlashes rest

/-- `size`. -/
def countSegments (path : ByteString) : Nat := (if path.head? = some 47 then 0 else 1) + countSlashes path

/-- The pieces of the path that end at a `/`, and what is behind the last of them. The search begins behind the first
character of a piece, which may itself be a `/`. -/
def breakPath : (piece : ByteString) → ByteString → List ByteString × ByteString
  | piece, [] => ([], piece)
  | piece, c :: rest =>
    if c = 47 ∧ piece ≠ [] then (piece :: (breakPath [] rest).1, (breakPath [] rest).2)
    else breakPath (piece ++ [c]) rest

/-- `seglist`. Pieces beyond its size are written past its end; what is behind the last piece is dropped when no
place is left. -/
def seglist (path : ByteString) : Except URIException (List ByteString) :=
  let size := countSegments path
  let (pieces, last) := breakPath [] (if path.head? = some 47 then path.drop 1 else path)
  if size < pieces.length then .error .undefined
  else if pieces.length < size then
    .ok (pieces ++ last :: List.replicate (size - pieces.length - 1) [])
  else .ok pieces

/-- The segment before `..` that is removed with it, of the segments before it, the last first. -/
def exclude : List (ByteString × Bool) → Option (List (ByteString × Bool))
  | [] => none
  | (segment, true) :: before => if segment = ascii ".." then none else some ((segment, false) :: before)
  | (segment, false) :: before => (exclude before).map ((segment, false) :: ·)

/-- Each segment with its `include`. -/
def includeSegments : (before : List (ByteString × Bool)) → List ByteString → List (ByteString × Bool)
  | before, [] => before.reverse
  | before, segment :: rest =>
    if segment = ascii ".." then
      match exclude before with
      | some before => includeSegments ((segment, false) :: before) rest
      | none => includeSegments ((segment, true) :: before) rest
    else includeSegments ((segment, segment ≠ ascii ".") :: before) rest

/-- The segments that are included, each with a `/`. -/
def joinSegments (segments : List (ByteString × Bool)) : ByteString :=
  segments.flatMap fun segment => if segment.2 then segment.1 ++ [47] else []

/-- The `./` before a first segment with a `:`. -/
def guardColon (path : ByteString) : ByteString :=
  if (path.takeWhile (· ≠ 47)).contains 58 then ascii "./" ++ path else path

def normalizePath (path : ByteString) : Except URIException ByteString := do
  if path = [] then pure path
  else
    let segments := includeSegments [] (← seglist path)
    let newpath := (if path.head? = some 47 then [47] else []) ++ joinSegments segments
    let newpath :=
      if path.getLast? ≠ some 47 ∧ (segments.getLast?.map Prod.snd).getD false then newpath.dropLast else newpath
    pure (guardColon newpath)

def setSchemeSpecificPart (u : URI) : URI :=
  { uri := { u.uri with
      schemeSpecificPart :=
        behind (ascii "//") u.uri.authority u.uri.authority ++ u.uri.path ++ behind (ascii "?") u.uri.query u.uri.query }
    uriString := [] }

def normalize (u : URI) : Except URIException URI := do
  if u.uri.isOpaque then pure u
  else
    let normalizedPath ← normalizePath u.uri.path
    if u.uri.path = normalizedPath then pure u
    else pure (setSchemeSpecificPart { u with uri := { u.uri with path := normalizedPath } })

/-! ### relativize and resolve -/

/-- The path with a `/` at its end. -/
def closed (path : ByteString) : ByteString := if path.getLast? = some 47 then path else path ++ [47]

def relativize (u relative : URI) : Except URIException URI := do
  if relative.uri.isOpaque || u.uri.isOpaque then pure relative
  else if u.uri.scheme ≠ relative.uri.scheme then pure relative
  else if u.uri.authority ≠ relative.uri.authority then pure relative
  else
    let thisPath ← normalizePath u.uri.path
    let relativePath ← normalizePath relative.uri.path
    let thisPath := if thisPath ≠ relativePath then closed thisPath else thisPath
    if thisPath <+: relativePath then
      let uri : URIType :=
        { fragment := relative.uri.fragment, query := relative.uri.query, path := relativePath.drop thisPath.length }
      pure (setSchemeSpecificPart { uri })
    else pure relative

/-- The path up to its last `/`. -/
def directory (path : ByteString) : ByteString := (path.reverse.dropWhile (· ≠ 47)).reverse

def resolve (u relative : URI) : Except URIException URI := do
  if relative.uri.absolute || u.uri.isOpaque then pure relative
  else if relative.uri.path = [] ∧ relative.uri.scheme = [] ∧ relative.uri.authority = [] ∧ relative.uri.query = [] ∧
      relative.uri.fragment ≠ [] then
    pure { uri := { u.uri with fragment := relative.uri.fragment } }
  else if relative.uri.authority ≠ [] then
    pure { uri := { relative.uri with scheme := u.uri.scheme, absolute := u.uri.absolute } }
  else
    let result : URIType := { u.uri with fragment := relative.uri.fragment, query := relative.uri.query }
    match relative.uri.path with
    | [] => throw .outOfRange
    | c :: _ =>
      if c = 47 then pure (setSchemeSpecificPart { uri := { result with path := relative.uri.path } })
      else
        let path ← normalizePath (directory u.uri.path ++ relative.uri.path)
        pure (setSchemeSpecificPart { uri := { result with path } })

def resolveString (u : URI) (relative : ByteString) : Except URIException URI := do resolve u (← create relative)

end URI

end ActiveMQCpp.Decaf
