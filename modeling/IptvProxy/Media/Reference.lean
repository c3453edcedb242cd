import IptvProxy.Media.Tokens

/-!
# References

`url.Parse`, `URL.ResolveReference` and `URL.String` for all texts: a reference may be relative, it
may have user information and a fragment, and it may be opaque. Hosts, schemes and paths are read as
for absolute URLs (`Media.Tokens`).
-/

namespace IptvProxy.Media

open Xtream Catchup

/-- `url.Userinfo` -/
structure Userinfo where
  /-- `username` -/
  username : Bytes
  /-- `password`, if it is set -/
  password : Option Bytes
  deriving DecidableEq

/-- `url.URL` -/
structure Reference where
  /-- `Scheme` -/
  scheme : Bytes
  /-- `Opaque` -/
  opaquePart : Bytes
  /-- `User` -/
  user : Option Userinfo
  /-- `Host` -/
  host : Bytes
  /-- `Path` -/
  path : Bytes
  /-- `RawPath` -/
  rawPath : Bytes
  /-- `OmitHost` -/
  omitHost : Bool
  /-- `ForceQuery` -/
  forceQuery : Bool
  /-- `RawQuery` -/
  rawQuery : Bytes
  /-- `Fragment` -/
  fragment : Bytes
  /-- `RawFragment` -/
  rawFragment : Bytes
  deriving DecidableEq

/-! ## Escaping -/

/-- How user names and passwords are written. -/
def userMode : Percent.Mode where
  keep c := Values.unreserved c || c ∈ ascii "$&+,;="
  plusForSpace := false
  percent_escaped := by decide
  plus_escaped h := by cases h

/-- How a fragment is written. -/
def fragmentMode : Percent.Mode where
  keep c := Values.unreserved c || c ∈ ascii "$&+,/:;=?@!()*"
  plusForSpace := false
  percent_escaped := by decide
  plus_escaped h := by cases h

/-- `EscapedPath` and `EscapedFragment`: the raw text, if it is valid and means the same. -/
def escapedText (m : Percent.Mode) (valid : Bytes) (raw plain : Bytes) : Bytes :=
  if raw ≠ [] ∧ (raw.all fun c => m.keep c || valid.contains c) = true ∧
      Percent.unescape false raw = some plain then raw
  else Percent.escape m plain

/-- The raw text that `setPath` and `setFragment` keep. -/
def rawText (m : Percent.Mode) (written plain : Bytes) : Bytes :=
  if Percent.escape m plain = written then [] else written

/-- `EscapedPath` -/
def Reference.escapedPath (u : Reference) : Bytes :=
  if u.rawPath = [] ∧ u.path = ascii "*" then ascii "*"
  else escapedText pathMode (ascii "!'()*[]%") u.rawPath u.path

/-- `EscapedFragment` -/
def Reference.escapedFragment (u : Reference) : Bytes :=
  escapedText fragmentMode (ascii "'[]%") u.rawFragment u.fragment

/-- `setPath` -/
def Reference.setPath (u : Reference) (p : Bytes) : Option Reference :=
  (Percent.unescape false p).map fun path =>
    { u with path := path, rawPath := rawText pathMode p path }

/-- `setFragment` -/
def Reference.setFragment (u : Reference) (f : Bytes) : Option Reference :=
  (Percent.unescape false f).map fun fragment =>
    { u with fragment := fragment, rawFragment := rawText fragmentMode f fragment }

/-! ## Parsing -/

/-- `getScheme`, in lower case: no scheme is none that is missing before its colon. -/
def splitScheme (s : Bytes) : Option (Bytes × Bytes) :=
  let scheme := s.takeWhile isSchemeByte
  let rest := s.drop scheme.length
  match scheme with
  | [] => if rest.head? = some colon then none else some ([], s)
  | c :: _ =>
    if 97 ≤ (lower c).val ∧ (lower c).val ≤ 122 ∧ rest.head? = some colon then
      some (scheme.map lower, rest.drop 1)
    else some ([], s)

/-- `validUserinfo` -/
def validUserinfo (s : Bytes) : Bool :=
  s.all fun c => Values.unreserved c || c ∈ ascii ":!$&'()*+,;=%@"

/-- The user information in `parseAuthority`. -/
def parseUserinfo (s : Bytes) : Option Userinfo :=
  if validUserinfo s = false then none
  else if colon ∈ s then
    let (username, password) := Values.cut colon s
    match Percent.unescape false username, Percent.unescape false password with
    | some username, some password => some ⟨username, some password⟩
    | _, _ => none
  else (Percent.unescape false s).map fun username => ⟨username, none⟩

/-- `parseAuthority` -/
def parseUserHost (authority : Bytes) : Option (Option Userinfo × Bytes) :=
  match cutLast atSign authority with
  | none => (parseHost authority).map fun host => (none, host)
  | some (userinfo, host) =>
    match parseHost (host.drop 1), parseUserinfo userinfo with
    | some host, some user => some (some user, host)
    | _, _ => none

/-- A reference with a scheme and a query only. -/
def Reference.start (scheme query : Bytes) (forceQuery : Bool) : Reference :=
  ⟨scheme, [], none, [], [], [], false, forceQuery, query, [], []⟩

/-- The part of `parse` after the query has been cut off. -/
def parseHierarchy (u : Reference) (rest : Bytes) : Option Reference :=
  if rest.head? ≠ some slash ∧ u.scheme ≠ [] then some { u with opaquePart := rest }
  else if rest.head? ≠ some slash ∧ colon ∈ rest.takeWhile (· ≠ slash) then none
  else if (u.scheme ≠ [] ∨ (ascii "///").isPrefixOf rest = false) ∧
      (ascii "//").isPrefixOf rest = true then
    match parseUserHost ((rest.drop 2).takeWhile (· ≠ slash)) with
    | none => none
    | some (user, host) =>
      ({ u with user := user, host := host } : Reference).setPath
        ((rest.drop 2).dropWhile (· ≠ slash))
  else
    ({ u with omitHost := u.scheme ≠ [] ∧ rest.head? = some slash } : Reference).setPath rest

/-- `parse` -/
def parseWithoutFragment (s : Bytes) : Option Reference :=
  if s.any isControl then none
  else if s = ascii "*" then some { Reference.start [] [] false with path := ascii "*" }
  else
    match splitScheme s with
    | none => none
    | some (scheme, rest) =>
      let (rest', query) := Values.cut questionMark rest
      parseHierarchy (.start scheme query (questionMark ∈ rest && query = [])) rest'

/-- `url.Parse` -/
def Reference.parse (s : Bytes) : Option Reference :=
  let (s, fragment) := Values.cut number s
  match parseWithoutFragment s with
  | none => none
  | some u => if fragment = [] then some u else u.setFragment fragment

/-! ## Resolving and printing -/

/-- The path that `resolvePath` cleans. -/
def joinPath (base ref : Bytes) : Bytes :=
  if ref = [] then base
  else if ref.head? = some slash then ref
  else (base.reverse.dropWhile (· ≠ slash)).reverse ++ ref

/-- `ResolveReference` -/
def Reference.resolve (base ref : Reference) : Reference :=
  let url := if ref.scheme = [] then { ref with scheme := base.scheme } else ref
  if ref.scheme ≠ [] ∨ ref.host ≠ [] ∨ ref.user ≠ none then
    (url.setPath (resolvePath ref.escapedPath)).getD url
  else if ref.opaquePart ≠ [] then { url with user := none, host := [], path := [] }
  else
    let url := if ref.path = [] ∧ ref.forceQuery = false ∧ ref.rawQuery = [] then
      let url := { url with rawQuery := base.rawQuery }
      if ref.fragment = [] then
        { url with fragment := base.fragment, rawFragment := base.rawFragment }
      else url
    else url
    if ref.path = [] ∧ base.opaquePart ≠ [] then
      { url with opaquePart := base.opaquePart, user := none, host := [], path := [] }
    else
      let url := { url with host := base.host, user := base.user }
      (url.setPath (resolvePath (joinPath base.escapedPath ref.escapedPath))).getD url

/-- `Userinfo.String` -/
def Userinfo.text (u : Userinfo) : Bytes :=
  if u.username = [] ∧ u.password.getD [] = [] then []
  else Percent.escape userMode u.username ++
    (u.password.elim [] fun password => colon :: Percent.escape userMode password)

/-- The authority in `URL.String`. -/
def Reference.authority (u : Reference) : Bytes :=
  if u.scheme = [] ∧ u.host = [] ∧ u.user = none then []
  else if u.omitHost = true ∧ u.host = [] ∧ u.user = none then []
  else (if u.host ≠ [] ∨ u.path ≠ [] ∨ u.user ≠ none then ascii "//" else []) ++
    (u.user.elim [] fun user => user.text ++ [atSign]) ++ Percent.escape hostMode u.host

/-- `URL.String` -/
def Reference.text (u : Reference) : Bytes :=
  let front := if u.scheme = [] then [] else u.scheme ++ [colon]
  let middle :=
    if u.opaquePart ≠ [] then u.opaquePart
    else
      let path := u.escapedPath
      u.authority ++
        (if path ≠ [] ∧ path.head? ≠ some slash ∧ u.host ≠ [] then [slash] else []) ++
        (if front = [] ∧ u.authority = [] ∧ colon ∈ path.takeWhile (· ≠ slash) then ascii "./"
          else []) ++ path
  front ++ middle ++ (if u.forceQuery = true ∨ u.rawQuery ≠ [] then questionMark :: u.rawQuery
    else []) ++ if u.fragment ≠ [] then number :: u.escapedFragment else []

end IptvProxy.Media
