import IptvProxy.Xtream.Authentication
import IptvProxy.Xtream.Leaves

/-!
# Credentials in JSON

A string leaks if it is a URL on the origin of the provider, with a route of Xtream below the base
path, and carries the credentials of the provider. `no_leak_iff` says when the rewritten document
has none: when every string that leaks names the host as the address of the provider does, and has
the credentials where its route has them. The default port of the scheme is enough to be missed
(`default_port_leaks`).
-/

namespace IptvProxy.Xtream

/-! ## Leaks -/

/-- Without a suffix. -/
def withoutSuffix (suffix s : Bytes) : Bytes :=
  if suffix.isSuffixOf s then s.take (s.length - suffix.length) else s

/-- The host without a port that is empty or the default port of the scheme. -/
def URL.originHost (u : URL) : Bytes :=
  let host := withoutSuffix (ascii ":") u.host
  if u.scheme = ascii "http" then withoutSuffix (ascii ":80") host
  else if u.scheme = ascii "https" then withoutSuffix (ascii ":443") host
  else host

/-- The path below a base path. -/
def below (basePath path : Bytes) : Option Bytes :=
  if path = basePath then some [slash]
  else if basePath ++ [slash] <+: path then some (path.drop basePath.length)
  else none

variable (L : Library) (p : Provider) (publicBase : Bytes)

/-- The hosts are one, whatever the case and with or without a default port. -/
def SameOrigin (base u : URL) : Prop := L.equalFold u.originHost base.originHost = true

instance (base u : URL) : Decidable (SameOrigin L base u) :=
  inferInstanceAs (Decidable (_ = _))

example : SameOrigin asciiLibrary ⟨ascii "http", ascii "upstream", [], []⟩
    ⟨ascii "http", ascii "UPSTREAM:", ascii "/live/UP/SECRET/7.ts", []⟩ := by
  decide

/-- A route of Xtream: an API script, a stream, the archive script or the bare alias. -/
def IsRoute (path : Bytes) : Prop :=
  ∃ first rest, splitSlash (trimPrefixSlash path) = first :: rest ∧
    (L.toLower first ∈ xtreamQueryRoutes ∨ L.toLower first ∈ xtreamPathRoutes ∨
      (L.toLower first = ascii "streaming" ∧ ∃ next segments, rest = next :: segments ∧
        L.equalFold next (ascii "timeshift.php") = true) ∨
      (first = p.upstreamUsername ∧ ∃ segment segments,
        rest = p.upstreamPassword :: segment :: segments))

/-- The credentials of the provider, side by side in the path or as a pair of parameters. -/
def Carries (path : Bytes) (q : Values) : Prop :=
  (∃ before after,
    splitSlash path = before ++ p.upstreamUsername :: p.upstreamPassword :: after) ∨
  ∃ pair ∈ credentialPairs, p.upstreamUsername ∈ q.values pair.1 ∧
    p.upstreamPassword ∈ q.values pair.2

/-- The string is a URL of the provider with its credentials. -/
def Leaks (raw : Bytes) : Prop :=
  ∃ u base path, L.parseURL (L.trimSpace raw) = some u ∧
    L.parseURL (trimSuffixSlash p.host) = some base ∧
    (u.scheme = ascii "http" ∨ u.scheme = ascii "https") ∧ u.host ≠ [] ∧ SameOrigin L base u ∧
    below (trimSuffixSlash base.path) u.path = some path ∧ IsRoute L p path ∧
    Carries p u.path (Values.parse u.rawQuery).1

/-! ## What is rewritten -/

/-- The credentials stand where the route has them. -/
def PlacedAfter (q : Values) (first : Bytes) (rest : List Bytes) : Prop :=
  if L.toLower first ∈ xtreamQueryRoutes then True
  else if L.toLower first ∈ xtreamPathRoutes then
    ∃ segment segments, rest = p.upstreamUsername :: p.upstreamPassword :: segment :: segments
  else if L.toLower first = ascii "streaming" then
    (∃ next segments, rest = next :: segments ∧ L.equalFold next (ascii "timeshift.php") = true) ∧
      q.get (ascii "username") = p.upstreamUsername ∧
      q.get (ascii "password") = p.upstreamPassword
  else first = p.upstreamUsername ∧ ∃ segment segments,
    rest = p.upstreamPassword :: segment :: segments

/-- The path starts with a route, and the credentials stand where it has them. -/
def Placed (path : Bytes) (q : Values) : Prop :=
  ∃ first rest, splitSlash (trimPrefixSlash path) = first :: rest ∧ first ≠ [] ∧
    PlacedAfter L p q first rest

/-- The URL of a string, the address of the provider and the address of the proxy, where the
string is rewritten. -/
structure RewritableAt (raw : Bytes) (target base loc : URL) : Prop where
  /-- it is not blank -/
  trimmed : L.trimSpace raw ≠ []
  /-- it is a URL -/
  parsed : L.parseURL (L.trimSpace raw) = some target
  /-- the address of the provider is one -/
  parsedBase : L.parseURL (trimSuffixSlash p.host) = some base
  /-- the address of the proxy is one -/
  parsedLocal : L.parseURL (trimSuffixSlash publicBase) = some loc
  /-- the URL is absolute -/
  absolute : target.scheme ≠ [] ∧ target.host ≠ [] ∧ base.host ≠ []
  /-- it names the host as the address of the provider does -/
  host : L.equalFold target.host base.host = true
  /-- the credentials stand where the route has them -/
  placed : Placed L p (streamPath (trimSuffixSlash base.path) target.path)
    (Values.parse target.rawQuery).1
  /-- the address of the proxy is absolute -/
  absoluteLocal : loc.scheme ≠ [] ∧ loc.host ≠ []

/-- The string is rewritten. -/
def Rewritable (raw : Bytes) : Prop :=
  ∃ target base loc, RewritableAt L p publicBase raw target base loc

variable {L p publicBase} {c : RewriteCredentials} {raw path : Bytes} {q : Values}

theorem rewriteRoute_isSome_iff :
    (rewriteRoute L p c path q).isSome = true ↔ Placed L p path q := by
  rw [rewriteRoute, Placed]
  rcases hsegments : splitSlash (trimPrefixSlash path) with _ | ⟨first, rest⟩
  · exact absurd hsegments (List.splitOn_ne_nil _ _)
  · have hone : (∃ first' rest', first :: rest = first' :: rest' ∧ first' ≠ [] ∧
        PlacedAfter L p q first' rest') ↔ first ≠ [] ∧ PlacedAfter L p q first rest := by
      constructor
      · rintro ⟨first', rest', heq, h⟩
        obtain ⟨rfl, rfl⟩ := List.cons.inj heq
        exact h
      · intro h
        exact ⟨first, rest, rfl, h⟩
    rw [hone, PlacedAfter]
    dsimp only
    split
    · next hfirst => simp [hfirst]
    · next hfirst =>
      rw [and_iff_right hfirst]
      split
      · simp
      · split
        · rcases rest with _ | ⟨username, _ | ⟨password, _ | ⟨segment, segments⟩⟩⟩
          · simp
          · simp
          · simp
          · by_cases hpair : username = p.upstreamUsername ∧ password = p.upstreamPassword
            · simp [hpair]
            · simp only [if_neg hpair, Option.isSome_none, Bool.false_eq_true, false_iff]
              rintro ⟨segment', segments', heq⟩
              simp only [List.cons.injEq] at heq
              exact hpair ⟨heq.1, heq.2.1⟩
        · split
          · rcases rest with _ | ⟨next, segments⟩
            · simp
            · by_cases hall : L.equalFold next (ascii "timeshift.php") = true ∧
                  q.get (ascii "username") = p.upstreamUsername ∧
                  q.get (ascii "password") = p.upstreamPassword
              · simp [hall]
              · simp only [if_neg hall, Option.isSome_none, Bool.false_eq_true, false_iff]
                rintro ⟨⟨next', segments', heq, hnext⟩, hpair⟩
                obtain ⟨rfl, rfl⟩ := List.cons.inj heq
                exact hall ⟨hnext, hpair⟩
          · rcases rest with _ | ⟨password, _ | ⟨segment, segments⟩⟩
            · simp
            · simp
            · by_cases hpair : first = p.upstreamUsername ∧ password = p.upstreamPassword
              · simp [hpair]
              · simp only [if_neg hpair, Option.isSome_none, Bool.false_eq_true, false_iff]
                rintro ⟨hfirst, segment', segments', heq⟩
                simp only [List.cons.injEq] at heq
                exact hpair ⟨hfirst, heq.1⟩

/-- Credentials for clients are complete. -/
def RewriteCredentials.Complete (c : RewriteCredentials) : Prop :=
  c.pathUsername ≠ [] ∧ c.pathPassword ≠ [] ∧ c.queryUsername ≠ [] ∧ c.queryPassword ≠ []

/-- **What is rewritten.** -/
theorem rewrite_isSome_iff (hc : c.Complete) :
    (rewriteXtreamAbsoluteURLWithCredentials L p c publicBase raw).isSome = true ↔
      Rewritable L p publicBase raw := by
  obtain ⟨h1, h2, h3, h4⟩ := hc
  constructor
  · intro h
    obtain ⟨y, h⟩ := Option.isSome_iff_exists.mp h
    rw [rewriteXtreamAbsoluteURLWithCredentials] at h
    split at h
    · cases h
    next hblank =>
    obtain ⟨target, htarget, h⟩ := Option.bind_eq_some_iff.mp h
    obtain ⟨base, hbase, h⟩ := Option.bind_eq_some_iff.mp h
    obtain ⟨loc, hloc, h⟩ := Option.bind_eq_some_iff.mp h
    split at h
    · cases h
    next hhost =>
    obtain ⟨⟨path, q⟩, hroute, h⟩ := Option.bind_eq_some_iff.mp h
    dsimp only at h
    split at h
    · cases h
    next habsolute =>
    simp only [not_or, Bool.not_eq_false] at hblank hhost habsolute
    refine ⟨target, base, loc, ?_⟩
    exact {
      trimmed := hblank.2.2.2.2
      parsed := htarget
      parsedBase := hbase
      parsedLocal := hloc
      absolute := ⟨hhost.1, hhost.2.1, hhost.2.2.1⟩
      host := hhost.2.2.2
      placed := rewriteRoute_isSome_iff.mp (Option.isSome_iff_exists.mpr ⟨_, hroute⟩)
      absoluteLocal := habsolute }
  · rintro ⟨target, base, loc, h⟩
    obtain ⟨⟨path, q⟩, hroute⟩ := Option.isSome_iff_exists.mp
      (rewriteRoute_isSome_iff (c := c) |>.mpr h.placed)
    obtain ⟨hscheme, hhost, hbase⟩ := h.absolute
    rw [rewriteXtreamAbsoluteURLWithCredentials, if_neg (by simp [h1, h2, h3, h4, h.trimmed])]
    simp only [h.parsed, h.parsedBase, h.parsedLocal, Option.bind_eq_bind, Option.bind_some]
    rw [if_neg (by simp [hscheme, hhost, hbase, h.host]), hroute]
    simp only [Option.bind_some]
    rw [if_neg (by simp [h.absoluteLocal])]
    rfl

/-! ## Exactly when -/

theorem authenticate_password {username password : Bytes} {u : User}
    (h : p.authenticate L username password = some u) : u.clientPassword ≠ [] := by
  obtain ⟨user, -, hu⟩ := (Provider.authenticate_eq_some h).mem
  rw [Provider.authenticate] at h
  split at h
  · cases h
  · next hne =>
    rw [hu]
    exact (not_or.mp hne).2

/-- The credentials of an authenticated client are complete. -/
theorem complete_of_authenticated {username password : Bytes} {u : User}
    (h : authenticateXtreamClient L p username password = some u) :
    (clientXtreamCredentials u).Complete := by
  have hpassword : u.clientPassword ≠ [] := by
    rw [authenticateXtreamClient] at h
    split at h
    · next hu =>
      obtain rfl := Option.some.inj h
      exact authenticate_password hu
    · dsimp only at h
      split at h
      · exact authenticate_password h
      · cases h
  exact ⟨username_ne_nil h, hpassword, username_ne_nil h, hpassword⟩

/-- The proxy is not on the origin of the provider. -/
def ProxyApart (L : Library) (p : Provider) (publicBase : Bytes) : Prop :=
  ∀ base loc, L.parseURL (trimSuffixSlash p.host) = some base →
    L.parseURL (trimSuffixSlash publicBase) = some loc → ¬ SameOrigin L base loc

/-- No string of the document leaks. -/
def NoLeak (L : JSONLibrary) (p : Provider) (body : Bytes) : Prop :=
  ∀ w, L.decode body = some w → ∀ s ∈ w.leaves, ¬ Leaks L.toLibrary p s

section

variable {J : JSONLibrary} {u : User} {username password body : Bytes} {v : Json}

/-- A URL of the proxy does not leak. -/
theorem not_leaks_of_replacement (hJ : J.Reads) (hproxy : ProxyApart J.toLibrary p publicBase)
    {text : Bytes} (h : replacement J p c publicBase raw = some text) :
    ¬ Leaks J.toLibrary p text := by
  obtain ⟨y, hy, rfl⟩ := Option.map_eq_some_iff.mp h
  obtain ⟨loc, path, q, hloc, hhost, rfl⟩ := rewrite_local hy
  rintro ⟨target, base, -, htarget, hbase, -, -, horigin, -⟩
  obtain ⟨hscheme, hhost'⟩ := hJ.parse_urlString _ loc { loc with path := path, rawQuery := q.encode }
    _ target hloc rfl rfl hhost htarget
  apply hproxy base loc hbase hloc
  have hsame : target.originHost = loc.originHost := by
    rw [URL.originHost, URL.originHost, hscheme, hhost']
  rw [SameOrigin, ← hsame]
  exact horigin

theorem rewritable_of_noLeak (hJ : J.Reads) (hc : c.Complete) (hbody : J.decode body = some v)
    (hv : v.isContainer = true)
    (h : NoLeak J p (rewriteXtreamJSONURLsWithCredentials J p c publicBase body)) {s : Bytes}
    (hs : s ∈ v.leaves) (hleak : Leaks J.toLibrary p s) :
    Rewritable J.toLibrary p publicBase s := by
  obtain ⟨w, hw, hleaves⟩ := leaves_rewriteXtreamJSONURLs (p := p) (c := c) hJ hbody hv
  rw [← rewrite_isSome_iff hc]
  by_contra hnone
  rw [Bool.not_eq_true, Option.isSome_eq_false_iff, Option.isNone_iff_eq_none] at hnone
  have hsame : s = replaced J p c publicBase s := by
    rw [replaced, replacement, hnone]
    rfl
  exact h w hw s ((hleaves s).mpr ⟨s, hs, hsame⟩) hleak

/-- **No leak, exactly when**: the rewritten document has no string that leaks if and only if every
string of the document that leaks is rewritten. -/
theorem no_leak_iff (hJ : J.Reads) (hproxy : ProxyApart J.toLibrary p publicBase)
    (hu : authenticateXtreamClient J.toLibrary p username password = some u)
    (hbody : J.decode body = some v) (hv : v.isContainer = true) :
    NoLeak J p (rewriteXtreamJSONURLs J p publicBase u body) ↔
      ∀ s ∈ v.leaves, Leaks J.toLibrary p s → Rewritable J.toLibrary p publicBase s := by
  have hc := complete_of_authenticated hu
  constructor
  · intro h s hs hleak
    exact rewritable_of_noLeak hJ hc hbody hv h hs hleak
  · intro h w hw s hs hleak
    obtain ⟨w', hw', hleaves⟩ := leaves_rewriteXtreamJSONURLs (p := p)
      (c := clientXtreamCredentials u) hJ hbody hv
    rw [rewriteXtreamJSONURLs, hw'] at hw
    obtain rfl := Option.some.inj hw
    obtain ⟨raw, hraw, rfl⟩ := (hleaves s).mp hs
    rw [replaced] at hleak
    cases hreplacement : replacement J p (clientXtreamCredentials u) publicBase raw with
    | some text =>
      rw [hreplacement] at hleak
      exact not_leaks_of_replacement hJ hproxy hreplacement hleak
    | none =>
      rw [hreplacement] at hleak
      have hsome := (rewrite_isSome_iff hc).mpr (h raw hraw hleak)
      rw [replacement, Option.map_eq_none_iff] at hreplacement
      rw [hreplacement] at hsome
      cases hsome

end

/-! ## The default port -/

/-- The URLs of the sample: `http`, a host, a path and a query. -/
def parseHTTP (t : Bytes) : Option URL :=
  if (ascii "http://").isPrefixOf t then
    some ⟨ascii "http", (t.drop 7).takeWhile (· ≠ slash),
      (Values.cut questionMark ((t.drop 7).dropWhile (· ≠ slash))).1,
      (Values.cut questionMark ((t.drop 7).dropWhile (· ≠ slash))).2⟩
  else none

/-- The text of a document with one string. -/
def jsonText (s : Bytes) : Bytes := ascii "\x7b\x22url\x22:\x22" ++ (s ++ ascii "\x22\x7d")

/-- The string of such a text. -/
def stringOf (body : Bytes) : Option Bytes :=
  if (ascii "\x7b\x22url\x22:\x22").isPrefixOf body then
    some ((body.drop 8).take ((body.drop 8).length - 2))
  else none

/-- The document with one string. -/
def oneString (s : Bytes) : Json := .object [(ascii "url", .string s)]

/-- The text of a document, if it has one string. -/
def marshalOne : Json → Bytes
  | .object [(_, .string s)] => jsonText s
  | _ => []

/-- A library for documents with one string and URLs with `http`. -/
def sampleJSON : JSONLibrary :=
  { asciiLibrary with
    parseURL := parseHTTP
    decode := fun body => (stringOf body).map oneString
    marshal := marshalOne
    fragment := fun _ => []
    urlString := fun u _ => u.scheme ++ ascii "://" ++ u.host ++
      slash :: (trimPrefixSlash u.path ++ if u.rawQuery = [] then [] else questionMark :: u.rawQuery) }

theorem stringOf_jsonText (s : Bytes) : stringOf (jsonText s) = some s := by
  have hdrop : (jsonText s).drop 8 = s ++ ascii "\x22\x7d" := rfl
  rw [stringOf, hdrop, if_pos]
  · rw [List.length_append, show (ascii "\x22\x7d").length = 2 from rfl, Nat.add_sub_cancel,
      List.take_left]
  · rfl

theorem parseHTTP_eq_some {t : Bytes} {loc : URL} (h : parseHTTP t = some loc) :
    loc.scheme = ascii "http" ∧ slash ∉ loc.host := by
  rw [parseHTTP] at h
  split at h
  · obtain rfl := Option.some.inj h
    refine ⟨rfl, fun hmem => ?_⟩
    have hne := List.mem_takeWhile_imp (p := fun c => decide (c ≠ slash)) hmem
    exact absurd rfl (of_decide_eq_true hne)
  · cases h

theorem sampleJSON_reads : sampleJSON.Reads where
  decode_marshal body v f _ _ hbody _ _ _ := by
    obtain ⟨s, -, rfl⟩ := Option.map_eq_some_iff.mp hbody
    refine ⟨oneString (f s), ?_, fun _ => .rfl⟩
    change (stringOf (jsonText (f s))).map oneString = _
    rw [stringOf_jsonText]
    rfl
  parse_urlString t loc u f v hloc hscheme hhost _ hv := by
    obtain ⟨hhttp, hslash⟩ := parseHTTP_eq_some hloc
    change parseHTTP (u.scheme ++ ascii "://" ++ u.host ++ slash :: _) = some v at hv
    rw [hscheme, hhost, hhttp, parseHTTP, if_pos (by rfl)] at hv
    obtain rfl := Option.some.inj hv
    refine ⟨hhttp.symm, ?_⟩
    exact congrArg Prod.fst (Values.cut_append hslash)

/-- A string with the default port of `http`. -/
def portString : Bytes := ascii "http://upstream:80/live/UP/SECRET/7.ts"

/-- The provider and its client `bob`. -/
def bobsProvider : Provider := sampleProvider [sampleUser "1" "bob" "a"]

/-- `bob`, authenticated. -/
def bobAuthenticated : User := { sampleUser "1" "bob" "a" with clientPassword := ascii "a" }

theorem bob_authenticates :
    authenticateXtreamClient sampleJSON.toLibrary bobsProvider (ascii "bob") (ascii "a") =
      some bobAuthenticated := by decide

theorem decode_portString :
    sampleJSON.decode (jsonText portString) = some (oneString portString) := by
  change (stringOf (jsonText portString)).map oneString = _
  rw [stringOf_jsonText]
  rfl

/-- **The claim fails**: a URL that names the default port goes to the client as it is. -/
theorem default_port_leaks :
    authenticateXtreamClient sampleJSON.toLibrary bobsProvider (ascii "bob") (ascii "a") =
      some bobAuthenticated ∧
    bobAuthenticated.username ≠ bobsProvider.upstreamUsername ∧
    ¬ NoLeak sampleJSON bobsProvider (rewriteXtreamJSONURLs sampleJSON bobsProvider
      (ascii "http://proxy") bobAuthenticated (jsonText portString)) := by
  refine ⟨bob_authenticates, by decide, fun h => ?_⟩
  have hout : rewriteXtreamJSONURLs sampleJSON bobsProvider (ascii "http://proxy") bobAuthenticated
      (jsonText portString) = jsonText portString := by decide
  rw [hout] at h
  refine h _ decode_portString portString List.mem_cons_self ?_
  refine ⟨⟨ascii "http", ascii "upstream:80", ascii "/live/UP/SECRET/7.ts", []⟩,
    ⟨ascii "http", ascii "upstream", [], []⟩, ascii "/live/UP/SECRET/7.ts", by decide,
    by decide, .inl rfl, by decide, by decide,
    by decide,
    ?_, ?_⟩
  · exact ⟨ascii "live", [ascii "UP", ascii "SECRET", ascii "7.ts"], by decide,
      .inr (.inl (by decide))⟩
  · exact .inl ⟨[[], ascii "live"], [ascii "7.ts"], by decide⟩

theorem no_leak_iff_bob :
    NoLeak sampleJSON bobsProvider (rewriteXtreamJSONURLs sampleJSON bobsProvider
        (ascii "http://proxy") bobAuthenticated (jsonText portString)) ↔
      ∀ s ∈ (oneString portString).leaves, Leaks sampleJSON.toLibrary bobsProvider s →
        Rewritable sampleJSON.toLibrary bobsProvider (ascii "http://proxy") s := by
  have hbase : parseHTTP (trimSuffixSlash bobsProvider.host) =
      some ⟨ascii "http", ascii "upstream", [], []⟩ := by decide
  have hlocal : parseHTTP (trimSuffixSlash (ascii "http://proxy")) =
      some ⟨ascii "http", ascii "proxy", [], []⟩ := by decide
  have hproxy : ProxyApart sampleJSON.toLibrary bobsProvider (ascii "http://proxy") := by
    intro base loc hb hl
    obtain rfl := Option.some.inj (hbase.symm.trans hb)
    obtain rfl := Option.some.inj (hlocal.symm.trans hl)
    decide
  exact no_leak_iff sampleJSON_reads hproxy bob_authenticates decode_portString rfl

end IptvProxy.Xtream
