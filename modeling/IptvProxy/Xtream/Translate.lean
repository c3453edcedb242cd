import IptvProxy.Xtream.Provider

/-!
# The transparent request translator

`internal/proxy/xtream_request.go`: the deny list, the substitution of credentials in the query,
the path and the body, and `buildTransparentUpstreamURL`. A request is what these functions read of
an `http.Request`; the body they leave behind is part of the result.
-/

namespace IptvProxy.Xtream

/-- `/` -/
def slash : Byte := 47

/-- The errors of the translator. -/
inductive Error where
  /-- `url.Parse` of the provider host failed -/
  | host
  /-- the deny list -/
  | management
  | conflicting
  | invalid
  /-- the body could not be read -/
  | readBody
  /-- the body is longer than `maxTransparentCredentialBodyBytes` -/
  | bodyTooLarge
  | parseForm
  | parseJSON
  deriving DecidableEq, Repr

/-- The texts of the errors; the first of `readBody`, `parseForm` and `parseJSON` is continued with
the text of the failing call. -/
def Error.text : Error → String
  | host => "parse"
  | management => "provider management endpoint is not available through IPTV proxy"
  | conflicting => "conflicting IPTV credentials in request"
  | invalid => "invalid IPTV credentials"
  | readBody => "read Xtream request body"
  | bodyTooLarge => "Xtream credential body is too large"
  | parseForm => "parse Xtream form body"
  | parseJSON => "parse Xtream JSON body"

/-- `r.Body` -/
inductive Body where
  /-- nil -/
  | absent
  /-- reading it fails -/
  | unreadable
  | bytes (b : Bytes)
  deriving DecidableEq

/-- What is read of an `http.Request`. -/
structure Request where
  /-- `Method` -/
  method : Bytes
  /-- `URL.RawQuery` -/
  rawQuery : Bytes
  /-- the header `Content-Type` -/
  contentType : Bytes
  /-- `Body` -/
  body : Body
  deriving DecidableEq

/-- `r.URL.Query()` -/
def Request.query (r : Request) : Values := (Values.parse r.rawQuery).1

/-- `maxTransparentCredentialBodyBytes` -/
def maxTransparentCredentialBodyBytes : ℕ := 2 * 1024 * 1024

variable (L : Library)

/-! ## The deny list -/

/-- `strings.Trim(s, "/")` -/
def trimSlashes (s : Bytes) : Bytes :=
  ((s.dropWhile (· = slash)).reverse.dropWhile (· = slash)).reverse

/-- `strings.TrimPrefix(s, "/")` -/
def trimPrefixSlash : Bytes → Bytes
  | [] => []
  | c :: s => if c = slash then s else c :: s

/-- `strings.TrimSuffix(s, "/")` -/
def trimSuffixSlash (s : Bytes) : Bytes := (trimPrefixSlash s.reverse).reverse

/-- `strings.Split(s, "/")` -/
def splitSlash (s : Bytes) : List Bytes := s.splitOn slash

/-- `strings.Join(segments, "/")` -/
def joinSlash (segments : List Bytes) : Bytes := [slash].intercalate segments

theorem slash_not_mem_splitSlash (s : Bytes) : ∀ segment ∈ splitSlash s, slash ∉ segment := by
  induction s with
  | nil => simp [splitSlash]
  | cons c s ih =>
    intro segment hs
    rw [splitSlash, List.splitOn_cons_eq_if_modifyHead] at hs
    split at hs
    · rcases List.mem_cons.mp hs with rfl | hs
      · simp
      · exact ih segment hs
    · next hc =>
      rcases hsplit : s.splitOn slash with _ | ⟨first, rest⟩
      · exact absurd hsplit (List.splitOn_ne_nil _ _)
      · rw [hsplit, List.modifyHead_cons] at hs
        rw [splitSlash, hsplit] at ih
        rcases List.mem_cons.mp hs with rfl | hs
        · rw [List.mem_cons, not_or]
          exact ⟨fun heq => hc (by rw [← heq]; exact beq_self_eq_true _),
            ih first (List.mem_cons_self ..)⟩
        · exact ih segment (List.mem_cons_of_mem _ hs)

/-- `blockedXtreamRoutes` -/
def blockedXtreamRoutes : List Bytes :=
  [ascii "admin_api.php", ascii "adminapi.php", ascii "reseller_api.php", ascii "reseller.php",
    ascii "api.php", ascii "portal.php", ascii "stalker_portal", ascii "mag", ascii "c"]

/-- `isBlockedXtreamRoute` -/
def isBlockedXtreamRoute (remaining : Bytes) : Bool :=
  match splitSlash (trimSlashes remaining) with
  | [] => false
  | part :: parts =>
    if part = [] then false
    else if L.toLower part ∈ blockedXtreamRoutes then true
    else L.toLower part = ascii "server" && match parts with
      | [] => false
      | next :: _ => L.equalFold next (ascii "load.php")

/-! ## Credentials -/

/-- The spellings of a credential pair in a query or a body. -/
def credentialPairs : List (Bytes × Bytes) :=
  [(ascii "username", ascii "password"), (ascii "user", ascii "pass")]

/-- `selectUser` -/
def selectUser (selected user : User) : Except Error User :=
  if selected.username ≠ [] ∧ sameClientUser selected user = false then .error .conflicting
  else .ok user

/-- The check of one complete pair. -/
def checkPair (p : Provider) (selected : User) (username password : Bytes) :
    Except Error User :=
  match authenticateXtreamClient L p username password with
  | none => .error .invalid
  | some user => selectUser selected user

/-- The loop over the credential pairs of a query or a form body. -/
def translateValues (p : Provider) : List (Bytes × Bytes) → User → Values → Bool →
    Except Error (User × Values × Bool)
  | [], selected, q, matched => .ok (selected, q, matched)
  | (nameKey, passKey) :: pairs, selected, q, matched =>
    let username := q.get nameKey
    let password := q.get passKey
    if username = [] ∨ password = [] then translateValues p pairs selected q matched
    else
      match checkPair L p selected username password with
      | .error e => .error e
      | .ok user => translateValues p pairs user
        ((q.set nameKey p.upstreamUsername).set passKey p.upstreamPassword) true

/-- The scan of the path for a known local username followed by another segment. The position of
the first such pair is reported. -/
def translatePath (p : Provider) : List Bytes → User →
    Except Error (List Bytes × User × Option ℕ)
  | [], selected => .ok ([], selected, none)
  | [segment], selected => .ok ([segment], selected, none)
  | segment :: next :: segments, selected =>
    if providerHasClientUsername p segment then
      match checkPair L p selected segment next with
      | .error e => .error e
      | .ok user =>
        match translatePath p segments user with
        | .error e => .error e
        | .ok (rest, user, _) =>
          .ok (p.upstreamUsername :: p.upstreamPassword :: rest, user, some 0)
    else
      match translatePath p (next :: segments) selected with
      | .error e => .error e
      | .ok (rest, user, first) => .ok (segment :: rest, user, first.map (· + 1))

/-- `payload[key].(string)` -/
def stringField (payload : List (Bytes × Json)) (key : Bytes) : Option Bytes :=
  match payload.lookup key with
  | some (.string s) => some s
  | _ => none

/-- `payload[key] = value` -/
def setField (payload : List (Bytes × Json)) (key value : Bytes) : List (Bytes × Json) :=
  (key, .string value) :: payload.filter fun f => f.1 ≠ key

/-- The loop over the credential pairs of a JSON body. -/
def translateFields (p : Provider) : List (Bytes × Bytes) → User → List (Bytes × Json) → Bool →
    Except Error (User × List (Bytes × Json) × Bool)
  | [], selected, payload, matched => .ok (selected, payload, matched)
  | (nameKey, passKey) :: pairs, selected, payload, matched =>
    match stringField payload nameKey, stringField payload passKey with
    | some username, some password =>
      if username = [] ∨ password = [] then translateFields p pairs selected payload matched
      else
        match checkPair L p selected username password with
        | .error e => .error e
        | .ok user => translateFields p pairs user
          (setField (setField payload nameKey p.upstreamUsername) passKey p.upstreamPassword) true
    | _, _ => translateFields p pairs selected payload matched

/-- The kinds of bodies `translateXtreamBodyCredentials` looks into. -/
inductive BodyKind where
  | form
  | json
  deriving DecidableEq

/-- The kind of the body by the content type, if it is looked into at all. -/
def bodyKind (r : Request) : Option BodyKind :=
  if r.body = .absent ∨ r.method = ascii "GET" ∨ r.method = ascii "HEAD" then none
  else if ascii "application/x-www-form-urlencoded" <:+: L.toLower r.contentType then some .form
  else if ascii "json" <:+: L.toLower r.contentType then some .json
  else none

/-- `translateXtreamBodyCredentials`: the selected user and the body left behind. -/
def translateXtreamBodyCredentials (p : Provider) (r : Request) (selected : User) :
    Except Error (User × Body) :=
  match bodyKind L r with
  | none => .ok (selected, r.body)
  | some kind =>
    match r.body with
    | .absent => .ok (selected, r.body)
    | .unreadable => .error .readBody
    | .bytes body =>
      if body.length > maxTransparentCredentialBodyBytes then .error .bodyTooLarge
      else match kind with
        | .form =>
          if (Values.parse body).2 = false then .error .parseForm
          else match translateValues L p credentialPairs selected (Values.parse body).1 false with
            | .error e => .error e
            | .ok (user, form, changed) =>
              .ok (user, if changed then .bytes form.encode else r.body)
        | .json =>
          if L.trimSpace body = [] ∨ L.trimSpace body = ascii "{}" then .ok (selected, r.body)
          else match L.decodeObject (L.trimSpace body) with
            | none => .error .parseJSON
            | some payload =>
              match translateFields L p credentialPairs selected payload false with
              | .error e => .error e
              | .ok (user, payload, changed) =>
                .ok (user, if changed then .bytes (L.marshalObject payload) else r.body)

/-! ## The translator -/

/-- What `buildTransparentUpstreamURL` returns, and the body it leaves in the request. -/
structure Translated where
  /-- the URL at the provider -/
  url : URL
  /-- the endpoint label -/
  endpoint : Bytes
  /-- the client -/
  user : User
  /-- `r.Body` afterwards -/
  body : Body
  deriving DecidableEq

/-- The endpoint label: the first segment, or `live` for the bare route. -/
def endpointOf (segments : List Bytes) (first : Option ℕ) : Bytes :=
  if first = some 0 ∧ segments.length ≥ 3 then ascii "live" else L.toLower (segments.headD [])

/-- `buildTransparentUpstreamURL` for the path that routing left over. -/
def buildTransparentUpstreamURL (p : Provider) (remaining : Bytes) (r : Request) :
    Except Error Translated :=
  match L.parseURL (trimSuffixSlash p.host) with
  | none => .error .host
  | some base =>
    if isBlockedXtreamRoute L remaining then .error .management
    else
      let segments := splitSlash (trimPrefixSlash remaining)
      match translateValues L p credentialPairs .zero r.query false with
      | .error e => .error e
      | .ok (user, q, _) =>
        match translatePath L p segments user with
        | .error e => .error e
        | .ok (translated, user, first) =>
          match translateXtreamBodyCredentials L p r user with
          | .error e => .error e
          | .ok (bodyUser, body) =>
            match (if bodyUser.username ≠ [] then selectUser user bodyUser else .ok user) with
            | .error e => .error e
            | .ok user =>
              if user.username = [] then .error .invalid
              else .ok {
                url := { base with
                  path := trimSuffixSlash base.path ++ slash :: joinSlash translated
                  rawQuery := q.encode }
                endpoint := endpointOf L segments first
                user := user
                body := body }

/-- The parts of an accepted translation. -/
structure Accepted (p : Provider) (remaining : Bytes) (r : Request) (t : Translated) where
  /-- the parsed provider host -/
  base : URL
  /-- selected by the query -/
  queryUser : User
  /-- the query with the provider's credentials -/
  query : Values
  /-- a pair of the query was replaced -/
  matched : Bool
  /-- selected after the path -/
  pathUser : User
  /-- the path with the provider's credentials -/
  segments : List Bytes
  /-- the position of the first pair in the path -/
  first : Option ℕ
  /-- selected after the body -/
  bodyUser : User
  hbase : L.parseURL (trimSuffixSlash p.host) = some base
  hblocked : isBlockedXtreamRoute L remaining = false
  hquery : translateValues L p credentialPairs .zero r.query false = .ok (queryUser, query, matched)
  hpath : translatePath L p (splitSlash (trimPrefixSlash remaining)) queryUser =
    .ok (segments, pathUser, first)
  hbody : translateXtreamBodyCredentials L p r pathUser = .ok (bodyUser, t.body)
  hselect : (if bodyUser.username ≠ [] then selectUser pathUser bodyUser else .ok pathUser) =
    .ok t.user
  huser : t.user.username ≠ []
  hurl : t.url = { base with
    path := trimSuffixSlash base.path ++ slash :: joinSlash segments
    rawQuery := query.encode }
  hendpoint : t.endpoint = endpointOf L (splitSlash (trimPrefixSlash remaining)) first

variable {L}

/-- **Inversion of the translator.** -/
theorem accepted_of_build {p : Provider} {remaining : Bytes} {r : Request} {t : Translated}
    (h : buildTransparentUpstreamURL L p remaining r = .ok t) :
    Nonempty (Accepted L p remaining r t) := by
  unfold buildTransparentUpstreamURL at h
  rcases hbase : L.parseURL (trimSuffixSlash p.host) with _ | base <;> rw [hbase] at h
  · cases h
  dsimp only at h
  split at h
  · cases h
  next hblocked =>
  rcases hquery : translateValues L p credentialPairs .zero r.query false with e | ⟨u₁, q, m⟩ <;>
    rw [hquery] at h <;> dsimp only at h
  · cases h
  rcases hpath : translatePath L p (splitSlash (trimPrefixSlash remaining)) u₁ with
    e | ⟨segments, u₂, first⟩ <;> rw [hpath] at h <;> dsimp only at h
  · cases h
  rcases hbody : translateXtreamBodyCredentials L p r u₂ with e | ⟨u₃, body⟩ <;>
    rw [hbody] at h <;> dsimp only at h
  · cases h
  split at h
  · cases h
  next user hselect =>
  split at h
  · cases h
  next huser =>
  obtain rfl := Except.ok.inj h
  exact ⟨⟨base, u₁, q, m, u₂, segments, first, u₃, hbase, by simpa using hblocked, hquery, hpath,
    hbody, hselect, huser, rfl, rfl⟩⟩

/-- The parts determine the result. -/
theorem build_of_accepted {p : Provider} {remaining : Bytes} {r : Request} {t : Translated}
    (a : Accepted L p remaining r t) : buildTransparentUpstreamURL L p remaining r = .ok t := by
  have hsel := a.hselect
  unfold buildTransparentUpstreamURL
  rw [a.hbase]
  dsimp only
  rw [if_neg (by simp [a.hblocked]), a.hquery]
  dsimp only
  rw [a.hpath]
  dsimp only
  rw [a.hbody]
  dsimp only
  rw [hsel]
  dsimp only
  rw [if_neg a.huser]
  rw [← a.hurl, ← a.hendpoint]

end IptvProxy.Xtream
