import IptvProxy.Xtream.Authentication
import IptvProxy.Xtream.Resolver
import IptvProxy.Xtream.Rewrite

/-!
# Emitted URLs come back

A URL that was rewritten for a client leads through the resolver and the translator back to the
URL it was made from, if nothing else in it looks like credentials to the translator: the
translator treats every segment that is the name of a client as the first of a pair, and every
complete pair in the query as well, and refuses the request if such a pair does not authenticate.
An account with the name of a route therefore gets URLs that are refused (`account_live_refused`).
-/

namespace IptvProxy.Xtream

variable {L : Library} {providers : List Provider} {p : Provider} {u : User}

/-! ## Segments -/

theorem splitSlash_joinSlash {segments : List Bytes} (h : ∀ s ∈ segments, slash ∉ s)
    (hne : segments ≠ []) : splitSlash (joinSlash segments) = segments :=
  List.splitOn_intercalate slash h hne

theorem joinSlash_splitSlash (s : Bytes) : joinSlash (splitSlash s) = s :=
  List.intercalate_splitOn slash

theorem splitSlash_append {a b : Bytes} (h : slash ∉ a) :
    splitSlash (a ++ slash :: b) = a :: splitSlash b := by
  rw [splitSlash, List.splitOn_append_cons_self_of_not_mem h]
  rfl

theorem joinSlash_cons (first : Bytes) (rest : List Bytes) :
    joinSlash (first :: rest) = first ++ if rest = [] then [] else slash :: joinSlash rest := by
  rcases rest with _ | ⟨next, rest⟩
  · simp [joinSlash]
  · simp [joinSlash, List.intercalate_cons_of_ne_nil]

/-- Trimming slashes at the end leaves the first segment. -/
theorem trimEnd_first {first : Bytes} (hne : first ≠ []) (hslash : slash ∉ first) (t : Bytes)
    (ht : t = [] ∨ ∃ t', t = slash :: t') :
    ∃ t', ((first ++ t).reverse.dropWhile (· = slash)).reverse = first ++ t' ∧
      (t' = [] ∨ ∃ t'', t' = slash :: t'') := by
  induction t using List.reverseRecOn with
  | nil =>
    refine ⟨[], ?_, .inl rfl⟩
    obtain ⟨a, c, rfl⟩ := List.eq_nil_or_concat' first |>.resolve_left hne
    have hc : c ≠ slash := fun heq => hslash (by simp [heq])
    simp [hc]
  | append_singleton t c ih =>
    by_cases hc : c = slash
    · have hdrop : ((first ++ (t ++ [c])).reverse.dropWhile (· = slash)).reverse =
          ((first ++ t).reverse.dropWhile (· = slash)).reverse := by
        simp [hc]
      rw [hdrop]
      rcases t with _ | ⟨d, t⟩
      · exact ih (.inl rfl)
      · obtain ⟨t', ht'⟩ := ht.resolve_left (by simp)
        rw [List.cons_append, List.cons.injEq] at ht'
        exact ih (.inr ⟨t, by rw [ht'.1]⟩)
    · refine ⟨t ++ [c], ?_, ht⟩
      have hkeep : (first ++ (t ++ [c])).reverse.dropWhile (· = slash) =
          (first ++ (t ++ [c])).reverse := by
        simp [hc]
      rw [hkeep, List.reverse_reverse]

/-- The first segment survives trimming. -/
theorem trimSlashes_first {first : Bytes} {rest : List Bytes} (hne : first ≠ [])
    (hslash : slash ∉ first) :
    (splitSlash (trimSlashes (slash :: joinSlash (first :: rest)))).head? = some first := by
  obtain ⟨t, hjoin, ht⟩ : ∃ t, joinSlash (first :: rest) = first ++ t ∧
      (t = [] ∨ ∃ t', t = slash :: t') := by
    refine ⟨_, joinSlash_cons first rest, ?_⟩
    split
    · exact .inl rfl
    · exact .inr ⟨_, rfl⟩
  have hstart : (slash :: (first ++ t)).dropWhile (· = slash) = first ++ t := by
    rcases first with _ | ⟨c, first⟩
    · exact absurd rfl hne
    · have hc : c ≠ slash := fun heq => hslash (by simp [heq])
      simp [hc]
  obtain ⟨t', htrim, ht'⟩ := trimEnd_first hne hslash t ht
  rw [hjoin, trimSlashes, hstart, htrim]
  rcases ht' with rfl | ⟨t'', rfl⟩
  · rw [List.append_nil, splitSlash, List.splitOn_eq_singleton hslash]
    rfl
  · rw [splitSlash_append hslash]
    rfl

/-- A route whose first segment is not denied. -/
theorem isBlockedXtreamRoute_join {first : Bytes} {rest : List Bytes} (hne : first ≠ [])
    (hslash : slash ∉ first) (hblocked : L.toLower first ∉ blockedXtreamRoutes)
    (hserver : L.toLower first ≠ ascii "server") :
    isBlockedXtreamRoute L (slash :: joinSlash (first :: rest)) = false := by
  have hhead : (splitSlash (trimSlashes (slash :: joinSlash (first :: rest)))).head? = some first :=
    trimSlashes_first hne hslash
  rw [isBlockedXtreamRoute]
  rcases hsplit : splitSlash (trimSlashes (slash :: joinSlash (first :: rest))) with _ | ⟨part, parts⟩
  · rfl
  · rw [hsplit, List.head?_cons] at hhead
    obtain rfl := Option.some.inj hhead
    simp [hne, hblocked, hserver]

/-! ## Resolving -/

/-- What the admin application guarantees of the routes: a route is one segment of lower-case
letters, digits, `-` and `_`, and no two providers have the same. -/
structure RoutesApart (L : Library) (providers : List Provider) (p : Provider) : Prop where
  mem : p ∈ providers
  noSlash : slash ∉ p.route
  /-- it is its own word -/
  word : L.toLower (L.trimSpace p.route) = p.route
  same : L.equalFold p.route p.route = true
  apart : ∀ q ∈ providers, L.equalFold q.route p.route = true → q = p

/-- **A path below the route of a provider is for this provider.** -/
theorem RoutesApart.resolve (h : RoutesApart L providers p) (rest : Bytes) :
    Resolver.resolve L providers (slash :: (p.route ++ slash :: rest)) =
      .ok ⟨p, .route, slash :: rest⟩ := by
  have htrim : trimPrefixSlash (slash :: (p.route ++ slash :: rest)) = p.route ++ slash :: rest :=
    by rw [trimPrefixSlash, if_pos rfl]
  have hsplit := splitSlash_append (b := rest) h.noSlash
  have hword : routeWord L (slash :: (p.route ++ slash :: rest)) = p.route := by
    rw [routeWord, htrim, hsplit, List.headD_cons, h.word]
  have hfind : providers.find? (fun q => L.equalFold q.route p.route) = some p := by
    obtain ⟨q, hq⟩ : ∃ q, providers.find? (fun q => L.equalFold q.route p.route) = some q := by
      rw [← Option.isSome_iff_exists, List.find?_isSome]
      exact ⟨p, h.mem, h.same⟩
    rw [hq, h.apart q (List.mem_of_find?_eq_some hq) (by simpa using List.find?_some hq)]
  rw [Resolver.resolve, if_neg (List.ne_nil_of_mem h.mem), hword, hfind]
  dsimp only
  rw [htrim, hsplit, List.tail_cons, joinSlash_splitSlash]

/-! ## Translating -/

/-- An enabled user of the provider, with a password that the stored verifier accepts. User names
are unique for a provider. -/
structure Client (L : Library) (p : Provider) (u : User) : Prop where
  mem : ∃ user ∈ p.users, u = { user with clientPassword := u.clientPassword } ∧
    ∀ other ∈ p.users, other.username = u.username → other = user
  enabled : u.enabled = 1
  username : u.username ≠ []
  password : u.clientPassword ≠ []
  verified : L.verifyProviderPassword u.clientPassword u.passwordHash = true

theorem Client.authenticate (h : Client L p u) :
    authenticateXtreamClient L p u.username u.clientPassword = some u := by
  obtain ⟨user, hmem, heq, hunique⟩ := h.mem
  have hloop : ∀ users : List User, (∀ other ∈ users, other.username = u.username → other = user) →
      user ∈ users →
      Provider.authenticateUsers L u.username u.clientPassword users = some u := by
    intro users hall hin
    induction users with
    | nil => cases hin
    | cons other users ih =>
      rw [Provider.authenticateUsers]
      by_cases hname : other.username = u.username
      · obtain rfl := hall other (List.mem_cons_self ..) hname
        have henabled : other.enabled = 1 := by
          have he := h.enabled
          rw [heq] at he
          exact he
        have hverified : L.verifyProviderPassword u.clientPassword other.passwordHash = true := by
          have hv := h.verified
          rw [heq] at hv
          exact hv
        rw [if_neg (by simp [henabled, hname]), if_pos hverified, ← heq]
      · rw [if_pos (.inr hname)]
        refine ih (fun o ho => hall o (List.mem_cons_of_mem _ ho)) ?_
        rcases List.mem_cons.mp hin with rfl | hin
        · exact absurd (by rw [heq]) hname
        · exact hin
  have hauth : p.authenticate L u.username u.clientPassword = some u := by
    rw [Provider.authenticate, if_neg (by simp [h.username, h.password])]
    exact hloop p.users hunique hmem
  rw [authenticateXtreamClient, hauth]

theorem Client.known (h : Client L p u) : providerHasClientUsername p u.username = true := by
  obtain ⟨user, hmem, heq, -⟩ := h.mem
  rw [providerHasClientUsername, List.any_eq_true]
  exact ⟨user, hmem, by rw [heq]; simp⟩

theorem Client.checkPair (h : Client L p u) :
    Xtream.checkPair L p .zero u.username u.clientPassword = .ok u := by
  rw [Xtream.checkPair, h.authenticate]
  rfl

theorem sameClientUser_self (h : u.username ≠ []) : sameClientUser u u = true := by
  rw [sameClientUser]
  split <;> simp [h]

theorem selectUser_self (h : u.username ≠ []) : selectUser u u = .ok u := by
  rw [selectUser, sameClientUser_self h]
  simp

/-- A query without complete pairs is not changed. -/
theorem translateValues_none {pairs : List (Bytes × Bytes)} {selected : User} {q : Values}
    {matched : Bool} (h : recognisedValues pairs q = []) :
    translateValues L p pairs selected q matched = .ok (selected, q, matched) := by
  induction pairs with
  | nil => rfl
  | cons k pairs ih =>
    simp only [recognisedValues, List.filterMap_cons] at h
    split at h
    · next hskip =>
      rw [translateValues]
      have hincomplete : q.get k.1 = [] ∨ q.get k.2 = [] := by
        by_contra hcomplete
        rw [if_neg hcomplete] at hskip
        cases hskip
      rw [if_pos hincomplete]
      exact ih h
    · cases h

/-- A path without names of clients is not changed; a name in the last place does not count. -/
theorem translatePath_none {segments : List Bytes} {selected : User}
    (h : ∀ s ∈ segments.dropLast, providerHasClientUsername p s = false) :
    translatePath L p segments selected = .ok (segments, selected, none) := by
  induction segments using recognisedPath.induct p with
  | case1 => rfl
  | case2 => rfl
  | case3 segment next segments hknown ih =>
    rw [h segment (by simp)] at hknown
    cases hknown
  | case4 segment next segments hknown ih =>
    rw [translatePath, if_neg hknown, ih fun s hs => h s (by
      rw [List.dropLast_cons_of_ne_nil (by simp)]
      exact List.mem_cons_of_mem _ hs)]
    rfl

/-- The one pair of a path is replaced. -/
theorem translatePath_one (h : Client L p u) {head : Bytes} {rest : List Bytes}
    (hhead : providerHasClientUsername p head = false)
    (hrest : ∀ s ∈ rest.dropLast, providerHasClientUsername p s = false) :
    translatePath L p (head :: u.username :: u.clientPassword :: rest) .zero =
      .ok (head :: p.upstreamUsername :: p.upstreamPassword :: rest, u, some 1) := by
  rw [translatePath, hhead, if_neg (by decide), translatePath, h.known, if_pos rfl, h.checkPair]
  dsimp only
  rw [translatePath_none hrest]
  rfl

/-- A GET without a body. -/
def bareGet (rawQuery : Bytes) : Request := ⟨ascii "GET", rawQuery, [], .absent⟩

/-- A GET whose query and path were translated to the same user. -/
theorem build_bareGet {base : URL} {segments translated : List Bytes} {rawQuery : Bytes} {q : Values}
    {queryUser : User} {matched : Bool} {first : Option ℕ}
    (hbase : L.parseURL (trimSuffixSlash p.host) = some base)
    (hblocked : isBlockedXtreamRoute L (slash :: joinSlash segments) = false)
    (hsegments : ∀ s ∈ segments, slash ∉ s) (hne : segments ≠ [])
    (hquery : translateValues L p credentialPairs .zero (Values.parse rawQuery).1 false =
      .ok (queryUser, q, matched))
    (hpath : translatePath L p segments queryUser = .ok (translated, u, first))
    (hu : u.username ≠ []) :
    buildTransparentUpstreamURL L p (slash :: joinSlash segments) (bareGet rawQuery) = .ok {
      url := { base with
        path := trimSuffixSlash base.path ++ slash :: joinSlash translated
        rawQuery := q.encode }
      endpoint := endpointOf L segments first
      user := u
      body := .absent } := by
  have htrim : splitSlash (trimPrefixSlash (slash :: joinSlash segments)) = segments := by
    rw [trimPrefixSlash, if_pos rfl, splitSlash_joinSlash hsegments hne]
  have hselect : (if u.username ≠ [] then selectUser u u else .ok u) = .ok u := by
    rw [if_pos hu, selectUser_self hu]
  refine build_of_accepted ⟨base, queryUser, q, matched, u, translated, first, u, hbase, hblocked,
    hquery, by rw [htrim]; exact hpath, ?_, hselect, hu, rfl, by rw [htrim]⟩
  simp [translateXtreamBodyCredentials, bodyKind, bareGet]

/-! ## Rewriting and coming back -/

/-- Where a URL of the provider has its credentials. -/
inductive RouteKind where
  | query
  | path
  /-- in the path, without a route in front of them -/
  | bare
  deriving DecidableEq, Repr

/-- The kind of a route, by its first segment. -/
def routeKind (L : Library) (segments : List Bytes) : RouteKind :=
  let first := L.toLower (segments.headD [])
  if first ∈ xtreamQueryRoutes ∨ first = ascii "streaming" then .query
  else if first ∈ xtreamPathRoutes then .path
  else .bare

/-- The segments of the rewritten path besides the client's credentials. -/
def otherSegments (segments : List Bytes) : RouteKind → List Bytes
  | .query => segments
  | .path => segments.headD [] :: segments.drop 3
  | .bare => ascii "live" :: segments.drop 2

/-- The credentials of the query that the rewriting leaves as they are. -/
def ownPairs : RouteKind → List (Bytes × Bytes)
  | .query => [(ascii "user", ascii "pass")]
  | _ => credentialPairs

/-- The segments of a URL of the provider below the base path. -/
def streamSegments (base target : URL) : List Bytes :=
  splitSlash (trimPrefixSlash (streamPath (trimSuffixSlash base.path) target.path))

/-- `xtreamProviderPublicBase` -/
def xtreamProviderPublicBase (appURL : Bytes) (p : Provider) : Bytes :=
  if trimSlashes p.route = [] then trimSuffixSlash appURL
  else trimSuffixSlash appURL ++ slash :: trimSlashes p.route

/-- Nothing in the rewritten URL looks like other credentials. -/
structure Unambiguous (L : Library) (p : Provider) (u : User) (base target : URL) : Prop where
  /-- it is a URL below the base path of the host -/
  below : trimSuffixSlash base.path ++ [slash] <+: target.path
  /-- no other segment, except the last one, is the name of a client -/
  segments : ∀ s ∈ (otherSegments (streamSegments base target)
    (routeKind L (streamSegments base target))).dropLast, providerHasClientUsername p s = false
  /-- credentials in the path are segments -/
  noSlash : routeKind L (streamSegments base target) ≠ .query →
    slash ∉ u.username ∧ slash ∉ u.clientPassword
  /-- the query has no complete pair of its own -/
  query : recognisedValues (ownPairs (routeKind L (streamSegments base target)))
    (Values.parse target.rawQuery).1 = []

/-- The provider's credentials in a query. -/
def upstreamQuery (p : Provider) (q : Values) : Values :=
  (q.set (ascii "username") p.upstreamUsername).set (ascii "password") p.upstreamPassword

/-- **A GET for `y` leads to `target`**: the resolver finds the provider, and the translator
authenticates the client and builds a URL on the provider's host with the path and the query of
`target`; the bare route has become a `live` route, and the query routes carry the provider's
credentials. -/
def LeadsBack (L : Library) (providers : List Provider) (p : Provider) (u : User)
    (base target y : URL) : Prop :=
  ∃ path rawQuery resolved t, parseRequestTarget y.requestTarget = some (path, rawQuery) ∧
    Resolver.resolve L providers path = .ok resolved ∧ resolved.provider = p ∧
    buildTransparentUpstreamURL L p resolved.remainingPath (bareGet rawQuery) = .ok t ∧
    t.user = u ∧ t.url.scheme = base.scheme ∧ t.url.host = base.host ∧
    (t.url.path = match routeKind L (streamSegments base target) with
      | .bare => trimSuffixSlash base.path ++ slash :: ascii "live" ++
        streamPath (trimSuffixSlash base.path) target.path
      | _ => target.path) ∧
    (Values.parse t.url.rawQuery).1.Same (match routeKind L (streamSegments base target) with
      | .query => upstreamQuery p (Values.parse target.rawQuery).1
      | _ => (Values.parse target.rawQuery).1)

/-- What the switch over the routes does, by the kind of the route. -/
theorem rewriteRoute_eq_some {c : RewriteCredentials} {path path' : Bytes} {q q' : Values}
    (h : rewriteRoute L p c path q = some (path', q')) :
    let segments := splitSlash (trimPrefixSlash path)
    segments.headD [] ≠ [] ∧
    match routeKind L segments with
    | .query => path' = path ∧ q' = c.setQuery q
    | .path => ∃ first rest, rest ≠ [] ∧
      segments = first :: p.upstreamUsername :: p.upstreamPassword :: rest ∧
      path' = slash :: joinSlash (first :: c.pathUsername :: c.pathPassword :: rest) ∧ q' = q
    | .bare => ∃ rest, rest ≠ [] ∧
      segments = p.upstreamUsername :: p.upstreamPassword :: rest ∧
      path' = slash :: joinSlash (ascii "live" :: c.pathUsername :: c.pathPassword :: rest) ∧
        q' = q := by
  intro segments
  rw [rewriteRoute] at h
  split at h
  · cases h
  next first rest hsegments =>
  rw [show segments = first :: rest from hsegments, List.headD_cons]
  split at h
  · cases h
  next hfirst =>
  refine ⟨hfirst, ?_⟩
  split at h
  · next hquery =>
    have hkind : routeKind L (first :: rest) = .query := if_pos (.inl hquery)
    rw [hkind]
    simp only [Option.some.injEq, Prod.mk.injEq] at h
    exact ⟨h.1.symm, h.2.symm⟩
  next hquery =>
  split at h
  · next hpath =>
    -- the kinds are told apart by the first segment, and "streaming" is no path kind
    have hstreaming : L.toLower first ≠ ascii "streaming" := by
      intro heq
      rw [heq] at hpath
      revert hpath
      decide
    have hkind : routeKind L (first :: rest) = .path :=
      (if_neg (not_or.mpr ⟨hquery, hstreaming⟩)).trans (if_pos hpath)
    rw [hkind]
    split at h
    · next username password segment segments' =>
      split at h
      · next hcredentials =>
        simp only [Option.some.injEq, Prod.mk.injEq] at h
        obtain ⟨rfl, rfl⟩ := hcredentials
        exact ⟨first, segment :: segments', by simp, rfl, h.1.symm, h.2.symm⟩
      · cases h
    · cases h
  next hpath =>
  split at h
  · next hstreaming =>
    have hkind : routeKind L (first :: rest) = .query := if_pos (.inr hstreaming)
    rw [hkind]
    split at h
    · split at h
      · simp only [Option.some.injEq, Prod.mk.injEq] at h
        exact ⟨h.1.symm, h.2.symm⟩
      · cases h
    · cases h
  next hstreaming =>
  have hkind : routeKind L (first :: rest) = .bare :=
    (if_neg (not_or.mpr ⟨hquery, hstreaming⟩)).trans (if_neg hpath)
  rw [hkind]
  split at h
  · next password segment segments' =>
    split at h
    · next hcredentials =>
      simp only [Option.some.injEq, Prod.mk.injEq] at h
      obtain ⟨rfl, rfl⟩ := hcredentials
      exact ⟨segment :: segments', by simp, rfl, h.1.symm, h.2.symm⟩
    · cases h
  · cases h

/-- A rewritten URL. -/
theorem rewrite_eq_some {c : RewriteCredentials} {publicBase raw : Bytes} {y target base loc : URL}
    (htarget : L.parseURL (L.trimSpace raw) = some target)
    (hbase : L.parseURL (trimSuffixSlash p.host) = some base)
    (hlocal : L.parseURL (trimSuffixSlash publicBase) = some loc)
    (h : rewriteXtreamAbsoluteURLWithCredentials L p c publicBase raw = some y) :
    ∃ path q, rewriteRoute L p c (streamPath (trimSuffixSlash base.path) target.path)
        (Values.parse target.rawQuery).1 = some (path, q) ∧
      y = { loc with path := trimSuffixSlash loc.path ++ path, rawQuery := q.encode } := by
  rw [rewriteXtreamAbsoluteURLWithCredentials] at h
  split at h
  · cases h
  simp only [htarget, hbase, hlocal, Option.bind_eq_bind, Option.bind_some] at h
  split at h
  · cases h
  obtain ⟨⟨path, q⟩, hroute, h⟩ := Option.bind_eq_some_iff.mp h
  dsimp only at h
  split at h
  · cases h
  · exact ⟨path, q, hroute, (Option.some.inj h).symm⟩

/-- The path below the base path begins with a slash and is the rest of the path. -/
theorem streamPath_below {basePath path : Bytes} (h : basePath ++ [slash] <+: path) :
    ∃ rest, streamPath basePath path = slash :: rest ∧ path = basePath ++ slash :: rest := by
  obtain ⟨rest, rfl⟩ := h
  refine ⟨rest, ?_, by simp⟩
  rw [streamPath]
  split
  · next hnil => simp [hnil]
  · have hne : basePath ++ [slash] ++ rest ≠ basePath := by
      intro heq
      have hlength := congrArg List.length heq
      simp at hlength
    rw [if_neg hne, if_pos (List.prefix_append _ _), List.append_assoc, List.drop_left]
    rfl

theorem trimSuffixSlash_route {route : Bytes} (h : slash ∉ route) (hne : route ≠ []) :
    trimSuffixSlash (slash :: route) = slash :: route := by
  obtain ⟨a, c, rfl⟩ := List.eq_nil_or_concat' route |>.resolve_left hne
  have hc : c ≠ slash := fun heq => h (by simp [heq])
  simp [trimSuffixSlash, trimPrefixSlash, hc]

/-- The pairs of the rewritten query: the client's own is replaced. -/
theorem translateValues_client (h : Client L p u) {q : Values}
    (hown : recognisedValues [(ascii "user", ascii "pass")] q = []) {r : Values}
    (hr : r.Same ((clientXtreamCredentials u).setQuery q)) :
    ∃ q', translateValues L p credentialPairs .zero r false = .ok (u, q', true) ∧
      q'.Same (upstreamQuery p q) := by
  have hkeys : ascii "username" ≠ ascii "password" := by decide
  have hget : ∀ k, r.get k = ((clientXtreamCredentials u).setQuery q).get k := fun k => by
    rw [Values.get, Values.get, hr k]
  have hname : r.get (ascii "username") = u.username := by
    rw [hget, RewriteCredentials.setQuery, Values.get_set_ne hkeys, Values.get,
      Values.values_set_self]
    rfl
  have hpass : r.get (ascii "password") = u.clientPassword := by
    rw [hget, RewriteCredentials.setQuery, Values.get, Values.values_set_self]
    rfl
  have hother : ∀ k ∈ [ascii "user", ascii "pass"], k ≠ ascii "username" ∧ k ≠ ascii "password" := by
    decide
  refine ⟨upstreamQuery p r, ?_, fun k => ?_⟩
  · have hrest : recognisedValues [(ascii "user", ascii "pass")] (upstreamQuery p r) = [] := by
      have hsame : ∀ k ∈ [ascii "user", ascii "pass"], (upstreamQuery p r).get k = q.get k := by
        intro k hk
        obtain ⟨hu, hp⟩ := hother k hk
        rw [upstreamQuery, Values.get_set_ne hp, Values.get_set_ne hu, hget,
          RewriteCredentials.setQuery, Values.get_set_ne hp, Values.get_set_ne hu]
      refine Eq.trans (List.filterMap_congr fun k hk => ?_) hown
      obtain rfl := List.mem_singleton.mp hk
      rw [hsame _ (by simp), hsame _ (by simp)]
    rw [credentialPairs, translateValues]
    simp only [hname, hpass]
    rw [if_neg (by simp [h.username, h.password]), h.checkPair]
    exact translateValues_none hrest
  · by_cases hkp : k = ascii "password"
    · rw [hkp, upstreamQuery, upstreamQuery, Values.values_set_self, Values.values_set_self]
    · rw [upstreamQuery, upstreamQuery, Values.values_set_ne hkp, Values.values_set_ne hkp]
      by_cases hku : k = ascii "username"
      · rw [hku, Values.values_set_self, Values.values_set_self]
      · rw [Values.values_set_ne hku, Values.values_set_ne hku, hr k, RewriteCredentials.setQuery,
          Values.values_set_ne hkp, Values.values_set_ne hku]

/-- A query with the same values has the same pairs. -/
theorem recognisedValues_same {pairs : List (Bytes × Bytes)} {v w : Values} (h : v.Same w) :
    recognisedValues pairs v = recognisedValues pairs w := by
  have hget : ∀ k, v.get k = w.get k := fun k => by rw [Values.get, Values.get, h k]
  rw [recognisedValues, recognisedValues]
  simp only [hget]

/-- The known routes are not denied. -/
theorem not_blocked_of_kind {segments : List Bytes} (h : routeKind L segments ≠ .bare) :
    L.toLower (segments.headD []) ∉ blockedXtreamRoutes ∧
      L.toLower (segments.headD []) ≠ ascii "server" := by
  have hall : ∀ w ∈ xtreamQueryRoutes ++ ascii "streaming" :: xtreamPathRoutes,
      w ∉ blockedXtreamRoutes ∧ w ≠ ascii "server" := by decide
  apply hall
  rw [routeKind] at h
  rw [List.mem_append, List.mem_cons]
  split at h
  · next hquery => exact hquery.imp_right .inl
  · split at h
    · next hpath => exact .inr (.inr hpath)
    · exact absurd rfl h

/-- A rewritten path and query that translate to a client. -/
theorem leads_back_of_translate (hroutes : RoutesApart L providers p) (hroute : p.route ≠ [])
    (hu : u.username ≠ []) {base loc : URL} {segments translated : List Bytes} {q q' : Values}
    {queryUser : User} {matched : Bool} {first : Option ℕ}
    (hbase : L.parseURL (trimSuffixSlash p.host) = some base)
    (hloc : loc.path = slash :: p.route) (hne : segments ≠ [])
    (hsegments : ∀ s ∈ segments, slash ∉ s) (hfirst : segments.headD [] ≠ [])
    (hblocked : L.toLower (segments.headD []) ∉ blockedXtreamRoutes ∧
      L.toLower (segments.headD []) ≠ ascii "server")
    (hquery : translateValues L p credentialPairs .zero q.sorted false =
      .ok (queryUser, q', matched))
    (hpath : translatePath L p segments queryUser = .ok (translated, u, first)) :
    ∃ path rawQuery resolved t,
      parseRequestTarget ({ loc with
        path := trimSuffixSlash loc.path ++ slash :: joinSlash segments
        rawQuery := q.encode } : URL).requestTarget = some (path, rawQuery) ∧
      Resolver.resolve L providers path = .ok resolved ∧ resolved.provider = p ∧
      buildTransparentUpstreamURL L p resolved.remainingPath (bareGet rawQuery) = .ok t ∧
      t.user = u ∧ t.url.scheme = base.scheme ∧ t.url.host = base.host ∧
      t.url.path = trimSuffixSlash base.path ++ slash :: joinSlash translated ∧
      (Values.parse t.url.rawQuery).1.Same q' := by
  obtain ⟨head, rest, rfl⟩ := List.exists_cons_of_ne_nil hne
  have hallowed : isBlockedXtreamRoute L (slash :: joinSlash (head :: rest)) = false :=
    isBlockedXtreamRoute_join hfirst (hsegments head (List.mem_cons_self ..)) hblocked.1 hblocked.2
  have hread : translateValues L p credentialPairs .zero (Values.parse q.encode).1 false =
      .ok (queryUser, q', matched) := by
    rw [Values.parse_encode]
    exact hquery
  have hbuild := build_bareGet hbase hallowed hsegments hne hread hpath hu
  have hresolve := hroutes.resolve (joinSlash (head :: rest))
  have hparse := parse_requestTarget { loc with
    path := trimSuffixSlash loc.path ++ slash :: joinSlash (head :: rest)
    rawQuery := q.encode }
  have hpathText : trimSuffixSlash loc.path ++ slash :: joinSlash (head :: rest) =
      slash :: (p.route ++ slash :: joinSlash (head :: rest)) := by
    rw [hloc, trimSuffixSlash_route hroutes.noSlash hroute]
    rfl
  refine ⟨_, _, _, _, hparse, (congrArg _ hpathText).trans hresolve, rfl, hbuild, rfl, rfl, rfl, rfl,
    fun k => ?_⟩
  rw [Values.parse_encode]
  exact Values.sorted_same k

/-- A rewritten path with the client's credentials after a first segment. -/
theorem leads_back_of_path (hroutes : RoutesApart L providers p) (hroute : p.route ≠ [])
    (hclient : Client L p u) {base loc : URL} {first : Bytes} {others : List Bytes} {q : Values}
    (hbase : L.parseURL (trimSuffixSlash p.host) = some base) (hloc : loc.path = slash :: p.route)
    (hfirst : first ≠ []) (hfirstSlash : slash ∉ first) (hothers : ∀ s ∈ others, slash ∉ s)
    (hslash : slash ∉ u.username ∧ slash ∉ u.clientPassword)
    (hblocked : L.toLower first ∉ blockedXtreamRoutes ∧ L.toLower first ≠ ascii "server")
    (hown : recognisedValues credentialPairs q = [])
    (hfirstUnknown : providerHasClientUsername p first = false)
    (hunknown : ∀ s ∈ others.dropLast, providerHasClientUsername p s = false) :
    ∃ path rawQuery resolved t,
      parseRequestTarget ({ loc with
        path := trimSuffixSlash loc.path ++
          slash :: joinSlash (first :: u.username :: u.clientPassword :: others)
        rawQuery := q.encode } : URL).requestTarget = some (path, rawQuery) ∧
      Resolver.resolve L providers path = .ok resolved ∧ resolved.provider = p ∧
      buildTransparentUpstreamURL L p resolved.remainingPath (bareGet rawQuery) = .ok t ∧
      t.user = u ∧ t.url.scheme = base.scheme ∧ t.url.host = base.host ∧
      t.url.path = trimSuffixSlash base.path ++
        slash :: joinSlash (first :: p.upstreamUsername :: p.upstreamPassword :: others) ∧
      (Values.parse t.url.rawQuery).1.Same q := by
  have hnoSlash : ∀ s ∈ first :: u.username :: u.clientPassword :: others, slash ∉ s := by
    intro s hs
    simp only [List.mem_cons] at hs
    rcases hs with rfl | rfl | rfl | hs
    · exact hfirstSlash
    · exact hslash.1
    · exact hslash.2
    · exact hothers s hs
  have hquery : recognisedValues credentialPairs q.sorted = [] := by
    rw [recognisedValues_same Values.sorted_same, hown]
  obtain ⟨path, rawQuery, resolved, t, hparse, hresolve, hp, hbuild, hu, hscheme, hhost, hpath,
    hsame⟩ := leads_back_of_translate hroutes hroute hclient.username hbase hloc (by simp) hnoSlash
      hfirst hblocked (translateValues_none hquery) (translatePath_one hclient hfirstUnknown hunknown)
  exact ⟨path, rawQuery, resolved, t, hparse, hresolve, hp, hbuild, hu, hscheme, hhost, hpath,
    fun k => (hsame k).trans (Values.sorted_same k)⟩

/-- **Emitted URLs come back.** For every provider and enabled client, and every URL of the
provider below its base path in which nothing else looks like credentials: if it is rewritten for
the client, a GET for the result leads back to it. -/
theorem emitted_url_leads_back
    (hlower : ∀ s : Bytes, (∀ c ∈ s, 97 ≤ c.val ∧ c.val ≤ 122) → L.toLower s = s)
    (hroutes : RoutesApart L providers p) (hroute : p.route ≠ []) (hclient : Client L p u)
    {appURL raw : Bytes} {base target loc y : URL}
    (hbase : L.parseURL (trimSuffixSlash p.host) = some base)
    (htarget : L.parseURL (L.trimSpace raw) = some target)
    (hlocal : L.parseURL (trimSuffixSlash (xtreamProviderPublicBase appURL p)) = some loc)
    (hlocalPath : loc.path = slash :: p.route)
    (hplain : Unambiguous L p u base target)
    (hy : rewriteXtreamAbsoluteURL L p u (xtreamProviderPublicBase appURL p) raw = some y) :
    LeadsBack L providers p u base target y := by
  obtain ⟨path, q, hrewrite, rfl⟩ := rewrite_eq_some htarget hbase hlocal hy
  obtain ⟨rest, hstream, htargetPath⟩ := streamPath_below hplain.below
  obtain ⟨hfirst, hspec⟩ := rewriteRoute_eq_some hrewrite
  have hsplit : splitSlash (trimPrefixSlash (streamPath (trimSuffixSlash base.path) target.path)) =
      streamSegments base target := rfl
  have hjoin : streamPath (trimSuffixSlash base.path) target.path =
      slash :: joinSlash (streamSegments base target) := by
    rw [streamSegments, hstream, trimPrefixSlash, if_pos rfl, joinSlash_splitSlash]
  have hjoinTarget : target.path =
      trimSuffixSlash base.path ++ slash :: joinSlash (streamSegments base target) := by
    rw [← hjoin, hstream]
    exact htargetPath
  have hnoSlash : ∀ s ∈ streamSegments base target, slash ∉ s := slash_not_mem_splitSlash _
  have hsegments := hplain.segments
  have hown := hplain.query
  rw [hsplit] at hfirst hspec
  have hne : streamSegments base target ≠ [] := by
    intro hnil
    rw [hnil] at hfirst
    exact hfirst rfl
  rcases hkind : routeKind L (streamSegments base target) with _ | _ | _ <;>
    simp only [hkind, otherSegments, ownPairs] at hspec hsegments hown
  case query =>
    -- the credentials are in the query; the path goes through unchanged
    obtain ⟨rfl, rfl⟩ := hspec
    obtain ⟨q', htranslated, hsame⟩ := translateValues_client hclient hown Values.sorted_same
    obtain ⟨path, rawQuery, resolved, t, hparse, hresolve, hp, hbuild, hu, hscheme, hhost, hpath,
      hquery⟩ := leads_back_of_translate hroutes hroute hclient.username hbase hlocalPath hne
        hnoSlash hfirst (not_blocked_of_kind (by rw [hkind]; decide)) htranslated
        (translatePath_none hsegments)
    rw [← hjoin] at hparse
    refine ⟨path, rawQuery, resolved, t, hparse, hresolve, hp, hbuild, hu, hscheme, hhost, ?_, ?_⟩
    · rw [hkind, hpath, hjoinTarget]
    · rw [hkind]
      exact fun k => (hquery k).trans (hsame k)
  case path =>
    -- the credentials are the second and third segment
    obtain ⟨first, others, hothers, heq, rfl, rfl⟩ := hspec
    obtain ⟨huSlash, hpSlash⟩ := hplain.noSlash (by rw [hkind]; decide)
    have hnotBare : routeKind L (streamSegments base target) ≠ .bare := by
      rw [hkind]
      decide
    have hblocked := not_blocked_of_kind hnotBare
    rw [heq] at hsegments hfirst hnoSlash hblocked
    simp only [List.headD_cons, List.drop_succ_cons, List.drop_zero] at hsegments hfirst hblocked
    rw [List.dropLast_cons_of_ne_nil hothers, List.forall_mem_cons] at hsegments
    obtain ⟨path, rawQuery, resolved, t, hparse, hresolve, hp, hbuild, hu, hscheme, hhost, hpath,
      hquery⟩ := leads_back_of_path hroutes hroute hclient hbase hlocalPath hfirst
        (hnoSlash first (by simp)) (fun s hs => hnoSlash s (by simp [hs])) ⟨huSlash, hpSlash⟩
        hblocked hown hsegments.1 hsegments.2
    refine ⟨path, rawQuery, resolved, t, hparse, hresolve, hp, hbuild, hu, hscheme, hhost, ?_, ?_⟩
    · rw [hkind, hpath, hjoinTarget, heq]
    · rw [hkind]
      exact hquery
  case bare =>
    -- a bare path gets the segment "live" in front, which the way back keeps
    obtain ⟨others, hothers, heq, rfl, rfl⟩ := hspec
    have hslash := hplain.noSlash (by rw [hkind]; decide)
    have hlive : L.toLower (ascii "live") = ascii "live" :=
      hlower _ (List.forall_iff_forall_mem.mp (by decide))
    rw [heq] at hsegments hnoSlash
    simp only [List.drop_succ_cons, List.drop_zero] at hsegments
    rw [List.dropLast_cons_of_ne_nil hothers, List.forall_mem_cons] at hsegments
    obtain ⟨path, rawQuery, resolved, t, hparse, hresolve, hp, hbuild, hu, hscheme, hhost, hpath,
      hquery⟩ := leads_back_of_path hroutes hroute hclient hbase hlocalPath (by decide) (by decide)
        (fun s hs => hnoSlash s (by simp [hs])) hslash (by rw [hlive]; decide) hown
        hsegments.1 hsegments.2
    refine ⟨path, rawQuery, resolved, t, hparse, hresolve, hp, hbuild, hu, hscheme, hhost, ?_, ?_⟩
    · rw [hkind, hpath, hjoin, heq, joinSlash_cons (ascii "live"), if_neg (by simp)]
      simp only [List.append_assoc, List.cons_append]
    · rw [hkind]
      exact hquery

/-! ## Examples -/

/-- A URL without a query. -/
def plainURL (host path : String) : URL := ⟨ascii "http", ascii host, ascii path, []⟩

/-- The library that reads the URLs of the examples. -/
def emittedLibrary : Library :=
  { asciiLibrary with
    parseURL := fun s =>
      if s = ascii "http://upstream" then some (plainURL "upstream" "")
      else if s = ascii "http://upstream/live/UP/SECRET/7.ts" then
        some (plainURL "upstream" "/live/UP/SECRET/7.ts")
      else if s = ascii "http://proxy/tv" then some (plainURL "proxy" "/tv")
      else none }

/-- The provider with one user of this name. -/
def emittedProvider (name : String) : Provider := sampleProvider [sampleUser "1" name "a"]

/-- The user after it has authenticated. -/
def emittedUser (name : String) : User :=
  { sampleUser "1" name "a" with clientPassword := ascii "a" }

theorem emittedUser_client (name : String) (h : ascii name ≠ []) :
    Client emittedLibrary (emittedProvider name) (emittedUser name) := by
  have hpassword : ascii "a" ≠ [] := by decide
  have hverified : emittedLibrary.verifyProviderPassword (ascii "a") (ascii "a") = true := by
    decide
  refine ⟨⟨sampleUser "1" name "a", List.mem_singleton_self _, rfl, ?_⟩, rfl, h, hpassword, hverified⟩
  intro other hother _
  exact List.mem_singleton.mp hother

/-- The stream that is rewritten for the user `live` is refused when it is asked for. -/
theorem account_live_refused :
    Client emittedLibrary (emittedProvider "live") (emittedUser "live") ∧
    ∃ y, rewriteXtreamAbsoluteURL emittedLibrary (emittedProvider "live") (emittedUser "live")
        (xtreamProviderPublicBase (ascii "http://proxy") (emittedProvider "live"))
        (ascii "http://upstream/live/UP/SECRET/7.ts") = some y ∧
      ¬ LeadsBack emittedLibrary [emittedProvider "live"] (emittedProvider "live")
        (emittedUser "live") (plainURL "upstream" "") (plainURL "upstream" "/live/UP/SECRET/7.ts")
        y := by
  refine ⟨emittedUser_client "live" (by decide), plainURL "proxy" "/tv/live/live/a/7.ts",
    by decide, ?_⟩
  rintro ⟨path, rawQuery, resolved, t, hparse, hresolve, hp, hbuild, -⟩
  rw [parse_requestTarget, Option.some.injEq, Prod.mk.injEq] at hparse
  obtain ⟨rfl, rfl⟩ := hparse
  have hroute : Resolver.resolve emittedLibrary [emittedProvider "live"]
      (plainURL "proxy" "/tv/live/live/a/7.ts").path =
        .ok ⟨emittedProvider "live", .route, ascii "/live/live/a/7.ts"⟩ := by decide
  rw [hroute] at hresolve
  obtain rfl := Except.ok.inj hresolve
  have hrefused : buildTransparentUpstreamURL emittedLibrary (emittedProvider "live")
      (ascii "/live/live/a/7.ts") (bareGet []) = .error .invalid := by decide
  rw [show (plainURL "proxy" "/tv/live/live/a/7.ts").rawQuery = [] from rfl, hrefused] at hbuild
  cases hbuild

/-- The same stream for `bob`. -/
theorem emitted_url_leads_back_bob :
    ∃ y, rewriteXtreamAbsoluteURL emittedLibrary (emittedProvider "bob") (emittedUser "bob")
        (xtreamProviderPublicBase (ascii "http://proxy") (emittedProvider "bob"))
        (ascii "http://upstream/live/UP/SECRET/7.ts") = some y ∧
      LeadsBack emittedLibrary [emittedProvider "bob"] (emittedProvider "bob")
        (emittedUser "bob") (plainURL "upstream" "") (plainURL "upstream" "/live/UP/SECRET/7.ts")
        y := by
  have hlower : ∀ s : Bytes, (∀ c ∈ s, 97 ≤ c.val ∧ c.val ≤ 122) →
      emittedLibrary.toLower s = s := by
    intro s hs
    refine (List.map_congr_left fun c hc => ?_).trans (List.map_id s)
    have hletter := hs c hc
    exact if_neg (by omega)
  have hroutes : RoutesApart emittedLibrary [emittedProvider "bob"] (emittedProvider "bob") := by
    refine ⟨List.mem_singleton_self _, by decide, by decide, by decide, ?_⟩
    intro q hq _
    exact List.mem_singleton.mp hq
  have hplain : Unambiguous emittedLibrary (emittedProvider "bob") (emittedUser "bob")
      (plainURL "upstream" "") (plainURL "upstream" "/live/UP/SECRET/7.ts") := by
    constructor <;> decide
  have hy : rewriteXtreamAbsoluteURL emittedLibrary (emittedProvider "bob") (emittedUser "bob")
      (xtreamProviderPublicBase (ascii "http://proxy") (emittedProvider "bob"))
      (ascii "http://upstream/live/UP/SECRET/7.ts") =
        some (plainURL "proxy" "/tv/live/bob/a/7.ts") := by decide
  exact ⟨_, hy, emitted_url_leads_back hlower hroutes (by decide)
    (emittedUser_client "bob" (by decide)) (by decide) (by decide)
    (show _ = some (plainURL "proxy" "/tv") by decide) (by decide) hplain hy⟩

end IptvProxy.Xtream
