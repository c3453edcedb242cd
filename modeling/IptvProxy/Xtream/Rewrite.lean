import IptvProxy.Xtream.Translate

/-!
# URLs for clients

`rewriteXtreamAbsoluteURL` of `internal/proxy/xtream_urls.go` turns a URL of the provider into one
of the proxy, with the credentials of a client. The source writes the result as text; here it is
the URL, and `requestTarget` is the text of its path and query, which is what a client sends back
in a GET. The fragment is copied in the source and not sent.
-/

namespace IptvProxy.Xtream

/-- `xtreamRewriteCredentials` -/
structure RewriteCredentials where
  /-- `PathUsername` -/
  pathUsername : Bytes
  /-- `PathPassword` -/
  pathPassword : Bytes
  /-- `QueryUsername` -/
  queryUsername : Bytes
  /-- `QueryPassword` -/
  queryPassword : Bytes
  deriving DecidableEq

/-- `clientXtreamCredentials` -/
def clientXtreamCredentials (user : User) : RewriteCredentials :=
  ⟨user.username, user.clientPassword, user.username, user.clientPassword⟩

/-- The routes that take their credentials from the query. -/
def xtreamQueryRoutes : List Bytes :=
  [ascii "player_api.php", ascii "panel_api.php", ascii "enigma2.php", ascii "get.php",
    ascii "xmltv.php"]

/-- The routes that take their credentials from the path. -/
def xtreamPathRoutes : List Bytes :=
  [ascii "live", ascii "movie", ascii "series", ascii "timeshift", ascii "hls"]

/-- The path below the base path of the provider; a path elsewhere is left as it is. -/
def streamPath (basePath path : Bytes) : Bytes :=
  if basePath = [] then path
  else if path = basePath then [slash]
  else if basePath ++ [slash] <+: path then path.drop basePath.length
  else path

/-- Credentials in a query. -/
def RewriteCredentials.setQuery (c : RewriteCredentials) (q : Values) : Values :=
  (q.set (ascii "username") c.queryUsername).set (ascii "password") c.queryPassword

variable (L : Library)

/-- The switch over the first segment: the rewritten path and query, if the route is known. -/
def rewriteRoute (p : Provider) (c : RewriteCredentials) (path : Bytes) (q : Values) :
    Option (Bytes × Values) :=
  match splitSlash (trimPrefixSlash path) with
  | [] => none
  | first :: rest =>
    if first = [] then none
    else if L.toLower first ∈ xtreamQueryRoutes then some (path, c.setQuery q)
    else if L.toLower first ∈ xtreamPathRoutes then
      match rest with
      | username :: password :: segment :: segments =>
        if username = p.upstreamUsername ∧ password = p.upstreamPassword then
          some (slash :: joinSlash
            (first :: c.pathUsername :: c.pathPassword :: segment :: segments), q)
        else none
      | _ => none
    else if L.toLower first = ascii "streaming" then
      match rest with
      | next :: _ =>
        if L.equalFold next (ascii "timeshift.php") = true ∧
            q.get (ascii "username") = p.upstreamUsername ∧
            q.get (ascii "password") = p.upstreamPassword then
          some (path, c.setQuery q)
        else none
      | [] => none
    else
      match rest with
      | password :: segment :: segments =>
        if first = p.upstreamUsername ∧ password = p.upstreamPassword then
          some (slash :: joinSlash
            (ascii "live" :: c.pathUsername :: c.pathPassword :: segment :: segments), q)
        else none
      | _ => none

/-- `rewriteXtreamAbsoluteURLWithCredentials` -/
def rewriteXtreamAbsoluteURLWithCredentials (p : Provider) (c : RewriteCredentials)
    (publicBase raw : Bytes) : Option URL :=
  if c.pathUsername = [] ∨ c.pathPassword = [] ∨ c.queryUsername = [] ∨ c.queryPassword = [] ∨
      L.trimSpace raw = [] then none
  else do
    let target ← L.parseURL (L.trimSpace raw)
    let providerBase ← L.parseURL (trimSuffixSlash p.host)
    let localBase ← L.parseURL (trimSuffixSlash publicBase)
    if target.scheme = [] ∨ target.host = [] ∨ providerBase.host = [] ∨
        L.equalFold target.host providerBase.host = false then none
    else
      let path := streamPath (trimSuffixSlash providerBase.path) target.path
      let (path, q) ← rewriteRoute L p c path (Values.parse target.rawQuery).1
      if localBase.scheme = [] ∨ localBase.host = [] then none
      else some { localBase with
        path := trimSuffixSlash localBase.path ++ path
        rawQuery := q.encode }

/-- `rewriteXtreamAbsoluteURL` -/
def rewriteXtreamAbsoluteURL (p : Provider) (clientUser : User) (publicBase raw : Bytes) :
    Option URL :=
  rewriteXtreamAbsoluteURLWithCredentials L p (clientXtreamCredentials clientUser) publicBase raw

/-! ## As text -/

/-- `?` -/
def questionMark : Byte := 63

/-- How `URL.String` writes a path. -/
def pathMode : Percent.Mode where
  keep c := Values.unreserved c || c ∈ ascii "$&+,/:;=@"
  plusForSpace := false
  percent_escaped := by decide
  plus_escaped h := nomatch h

/-- The path and query of `URL.String`, which is what is sent in a request. -/
def URL.requestTarget (u : URL) : Bytes :=
  Percent.escape pathMode u.path ++ if u.rawQuery = [] then [] else questionMark :: u.rawQuery

/-- `URL.Path` and `URL.RawQuery` of a request with this target. -/
def parseRequestTarget (target : Bytes) : Option (Bytes × Bytes) :=
  (Percent.unescape false (Values.cut questionMark target).1).map
    fun path => (path, (Values.cut questionMark target).2)

/-- **A URL comes back as it was written.** -/
theorem parse_requestTarget (u : URL) :
    parseRequestTarget u.requestTarget = some (u.path, u.rawQuery) := by
  have hpath : questionMark ∉ Percent.escape pathMode u.path := by
    intro h
    refine Percent.escape_forall (m := pathMode) (P := fun c => c ≠ questionMark) ?_ (by decide)
      (by decide) ?_ u.path questionMark h rfl
    · rintro c hc rfl
      revert hc
      decide
    · have hdigits : ∀ n < 16, Percent.hexDigit n ≠ questionMark := by decide
      exact hdigits
  have hread : Percent.unescape false (Percent.escape pathMode u.path) = some u.path :=
    Percent.unescape_escape (m := pathMode) u.path
  rw [parseRequestTarget, URL.requestTarget]
  split
  · next hq =>
    have hcut : Values.cut questionMark (Percent.escape pathMode u.path) =
        (Percent.escape pathMode u.path, []) := by
      have hall : ∀ c ∈ Percent.escape pathMode u.path, decide (c ≠ questionMark) = true :=
        fun c hc => decide_eq_true fun heq => hpath (heq ▸ hc)
      rw [Values.cut, List.takeWhile_eq_self_iff.mpr hall, List.dropWhile_eq_nil_iff.mpr hall]
      rfl
    rw [List.append_nil, hcut, hread, hq]
    rfl
  · rw [Values.cut_append hpath, hread]
    rfl

end IptvProxy.Xtream
