import ActiveMQCpp.DecafURIEquals

/-! `URI::compareTo`, and `URI::equals`. -/

namespace ActiveMQCpp.Decaf.URI

open Codec StringUtils

/-! ### compareTo -/

/-- The comparison of the strings decides if it finds a difference. -/
def signOf (ret : Int) : Int := if ret > 0 then 1 else if ret < 0 then -1 else 0

/-- A part that is not there comes first. -/
def comparePart (compare : ByteString → ByteString → Int) (part other : ByteString) : Int :=
  if part = [] then if other = [] then 0 else -1 else if other = [] then 1 else signOf (compare part other)

/-- The next comparison counts if this one finds no difference. -/
def andThen (ret : Int) (next : Except URIException Int) : Except URIException Int := if ret ≠ 0 then .ok ret else next

/-- Both authorities are servers: the user information, the host and the port. -/
def compareServers (u v : URI) : Except URIException Int := do
  andThen (comparePart StringUtils.compare (← u.getUserInfo) (← v.getUserInfo)) <|
    andThen (signOf (StringUtils.compareIgnoreCase u.uri.host v.uri.host)) <|
      .ok (if u.uri.port ≠ v.uri.port then if u.uri.port - v.uri.port > 0 then 1 else -1 else 0)

/-- As soon as one of them is not a server the authorities are compared as they are. -/
def compareAuthorities (u v : URI) : Except URIException Int :=
  if u.uri.authority = [] ∨ v.uri.authority = [] then
    .ok (comparePart (fun _ _ => 0) u.uri.authority v.uri.authority)
  else if u.uri.host ≠ [] ∧ v.uri.host ≠ [] then compareServers u v
  else .ok (signOf (StringUtils.compare u.uri.authority v.uri.authority))

def getSchemeSpecificPart (u : URI) : Except URIException ByteString := URIEncoderDecoder.decode u.uri.schemeSpecificPart

/-- Two hierarchical URIs: the authorities, the paths and the queries. -/
def compareHierarchical (u v : URI) : Except URIException Int := do
  andThen (← compareAuthorities u v) do
    andThen (signOf (StringUtils.compare (← u.getPath) (← v.getPath))) do
      .ok (comparePart StringUtils.compare (← u.getQuery) (← v.getQuery))

def compareTo (u v : URI) : Except URIException Int :=
  andThen (comparePart StringUtils.compareIgnoreCase u.uri.scheme v.uri.scheme) do
    let specific ←
      match u.uri.isOpaque, v.uri.isOpaque with
      | false, true => .ok (-1)
      | true, false => .ok 1
      | true, true => do .ok (signOf (StringUtils.compare (← u.getSchemeSpecificPart) (← v.getSchemeSpecificPart)))
      | false, false => compareHierarchical u v
    andThen specific do .ok (comparePart StringUtils.compare (← u.getFragment) (← v.getFragment))

/-- An exception of the comparison is no answer, here `2`. -/
def order (u v : URI) : Int :=
  match compareTo u v with
  | .ok ret => ret
  | .error _ => 2

def Less (u v : URI) : Prop := compareTo u v = .ok (-1)

/-! ### equals -/

/-- Two parts that are not there are equal. -/
def equalPart (equal : Option Bool) (part other : ByteString) : Option Bool :=
  if part = [] then some (decide (other = [])) else if other = [] then some false else equal

/-- The next comparison counts if this one finds no difference. -/
def andAlso (equal next : Option Bool) : Option Bool := equal.bind fun equal => if equal then next else some false

/-- Both authorities are servers: the hosts, the ports and the user information. -/
def equalServers (this uri : URIType) : Option Bool :=
  andAlso (some (decide (compareIgnoreCase uri.host this.host = 0))) <|
    andAlso (some (decide (this.port = uri.port))) <|
      equalPart (equalsHexCaseInsensitive this.userinfo uri.userinfo) uri.userinfo this.userinfo

def equalAuthorities (this uri : URIType) : Option Bool :=
  if uri.host ≠ [] ∧ this.host = [] ∨ uri.host = [] ∧ this.host ≠ [] then some false
  else if uri.host = [] ∧ this.host = [] then equalsHexCaseInsensitive uri.authority this.authority
  else equalServers this uri

def equalHierarchical (this uri : URIType) : Option Bool :=
  andAlso (equalsHexCaseInsensitive this.path uri.path) <|
    andAlso (equalPart (equalsHexCaseInsensitive uri.query this.query) uri.query this.query) <|
      equalPart (equalAuthorities this uri) uri.authority this.authority

def equals (this uri : URI) : Option Bool :=
  andAlso (equalPart (equalsHexCaseInsensitive uri.uri.fragment this.uri.fragment) uri.uri.fragment this.uri.fragment) <|
    andAlso (equalPart (some (decide (compareIgnoreCase uri.uri.scheme this.uri.scheme = 0))) uri.uri.scheme this.uri.scheme)
      (match uri.uri.isOpaque, this.uri.isOpaque with
      | true, true => equalsHexCaseInsensitive uri.uri.schemeSpecificPart this.uri.schemeSpecificPart
      | false, false => equalHierarchical this.uri uri.uri
      | _, _ => some false)

end ActiveMQCpp.Decaf.URI
