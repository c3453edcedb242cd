import IptvProxy.Xtream.Resolver

/-!
# What the shared cache is keyed by

The cache keeps whole catalogs per provider, so an entry is described without any client:
`internal/proxy/cache_spec.go`, `isCacheable` of `handler.go` and `Descriptor.CacheKey` of
`internal/cache/manager.go`. A descriptor is the provider, the endpoint and the query without
`username` and `password`; its key is these three joined with colons.

`cacheKey_injective` says that for cacheable queries the key determines the descriptor up to its
headers.
-/

namespace IptvProxy.Catalog

open Xtream

/-- `Descriptor` -/
structure Descriptor where
  /-- `ProviderID` -/
  providerID : Bytes
  /-- `Endpoint` -/
  endpoint : Bytes
  /-- `Query` -/
  query : Bytes
  /-- `Headers` -/
  headers : List (Bytes × Bytes)
  deriving DecidableEq

/-- `:` -/
def colon : Byte := 58

/-- `iptv:cache:` -/
def cachePrefix : Bytes := ascii "iptv:cache:"

/-- `Descriptor.CacheKey` -/
def Descriptor.cacheKey (d : Descriptor) : Bytes :=
  cachePrefix ++ d.providerID ++ colon :: d.endpoint ++
    if d.query = [] then [] else colon :: d.query

/-! ## What is cacheable -/

/-- The names of the credentials. -/
def credentialKeys : List Bytes := [ascii "username", ascii "password"]

/-- `cacheablePlayerActions` -/
def cacheablePlayerActions : List Bytes :=
  [ascii "get_live_streams", ascii "get_vod_streams", ascii "get_series"]

/-- `hasOnlyQueryKeys` -/
def hasOnlyQueryKeys (q : Values) (allowed : List Bytes) : Bool := q.all fun p => p.1 ∈ allowed

/-- `isCacheable` -/
def isCacheable (endpoint : Bytes) (q : Values) : Bool :=
  if endpoint = ascii "xmltv.php" then hasOnlyQueryKeys q credentialKeys
  else if endpoint = ascii "get.php" then
    hasOnlyQueryKeys q (credentialKeys ++ [ascii "type", ascii "output"])
  else if endpoint = ascii "player_api.php" then
    q.get (ascii "action") ∈ cacheablePlayerActions &&
      hasOnlyQueryKeys q (credentialKeys ++ [ascii "action"])
  else false

/-- The query without the credentials. -/
def withoutCredentials (q : Values) : Values := (q.del (ascii "username")).del (ascii "password")

/-! ## Descriptors and specs -/

variable (L : Library)

/-- `metadataHeaders` -/
def metadataHeaders (source : Values) : List (Bytes × Bytes) :=
  let userAgent := L.trimSpace (source.get (ascii "User-Agent"))
  let accept := L.trimSpace (source.get (ascii "Accept"))
  [(ascii "User-Agent", if userAgent = [] then ascii "IPTV-Proxy/1.0" else userAgent),
    (ascii "Accept", if accept = [] then ascii "*/*" else accept)]

/-- `cacheDescriptor` -/
def cacheDescriptor (providerID endpoint : Bytes) (target : URL) (sourceHeaders : Values) :
    Descriptor where
  providerID := providerID
  endpoint := endpoint
  query := (withoutCredentials (Values.parse target.rawQuery).1).encode
  headers := metadataHeaders L sourceHeaders

/-- The errors of a fetch before it sends anything. -/
inductive FetchError where
  | provider (e : ResolveError)
  /-- `url.Parse` of the provider host failed -/
  | host
  /-- `url.ParseQuery` failed -/
  | query
  deriving DecidableEq

/-- A request for an upstream catalog: the provider as it is now, the URL and the headers. -/
structure Target where
  provider : Provider
  url : URL
  headers : List (Bytes × Bytes)

/-- `targetFromCacheDescriptor`, for the providers as they are now. -/
def targetFromCacheDescriptor (providers : List Provider) (d : Descriptor) :
    Except FetchError Target :=
  match Resolver.providerByID providers d.providerID with
  | .error e => .error (.provider e)
  | .ok p =>
    match L.parseURL (trimSuffixSlash p.host ++ slash :: trimPrefixSlash d.endpoint) with
    | none => .error .host
    | some target =>
      match Values.parse d.query with
      | (_, false) => .error .query
      | (query, true) => .ok {
          provider := p
          url := { target with
            rawQuery := ((query.set (ascii "username") p.upstreamUsername).set
              (ascii "password") p.upstreamPassword).encode }
          headers := d.headers.filter fun h => L.trimSpace h.2 ≠ [] }

/-- `time.Second` -/
def second : ℤ := 1000000000

/-- `time.Hour` -/
def hour : ℤ := 3600 * second

/-- An `int64`. -/
def int64 (n : ℤ) : ℤ := n.bmod (2 ^ 64)

/-- `Spec`; `Fetch` is the request it sends. -/
structure Spec where
  /-- `Key` -/
  key : Bytes
  /-- `TTL`, in nanoseconds -/
  ttl : ℤ
  /-- `Descriptor` -/
  descriptor : Descriptor
  /-- `Fetch` -/
  fetch : List Provider → Except FetchError Target

/-- `cacheSpecFromDescriptor` -/
def cacheSpecFromDescriptor (d : Descriptor) (ttl : ℤ) : Spec where
  key := d.cacheKey
  ttl := ttl
  descriptor := d
  fetch providers := targetFromCacheDescriptor L providers d

/-- `newCacheSpec` -/
def newCacheSpec (p : Provider) (endpoint : Bytes) (target : URL) (sourceHeaders : Values) : Spec :=
  cacheSpecFromDescriptor L (cacheDescriptor L p.id endpoint target sourceHeaders)
    (int64 (p.cacheDurationHours * hour))

/-! ## Cacheable queries -/

variable {v w : Values} {k : Bytes}

theorem hasOnlyQueryKeys_iff {allowed : List Bytes} :
    hasOnlyQueryKeys v allowed = true ↔ ∀ k, v.values k ≠ [] → k ∈ allowed := by
  have hmem : (∀ k, v.values k ≠ [] → k ∈ allowed) ↔ ∀ k ∈ v.map Prod.fst, k ∈ allowed := by
    apply forall_congr'
    intro k
    rw [← Values.mem_names, Values.names, List.mem_insertionSort, List.mem_dedup]
  rw [hmem, hasOnlyQueryKeys, List.all_eq_true]
  simp

/-- Whether a query is cacheable depends on its names and on its action. -/
theorem isCacheable_congr {endpoint : Bytes} (hkeys : ∀ k, v.values k = [] ↔ w.values k = [])
    (haction : v.get (ascii "action") = w.get (ascii "action")) :
    isCacheable endpoint v = isCacheable endpoint w := by
  have honly : ∀ allowed, hasOnlyQueryKeys v allowed = hasOnlyQueryKeys w allowed := by
    intro allowed
    rw [Bool.eq_iff_iff, hasOnlyQueryKeys_iff, hasOnlyQueryKeys_iff]
    exact forall_congr' fun k => by rw [ne_eq, ne_eq, hkeys k]
  rw [isCacheable, isCacheable, honly, honly, honly, haction]

/-- The names of a cacheable query. -/
theorem key_of_isCacheable {endpoint : Bytes} (h : isCacheable endpoint v = true)
    (hk : v.values k ≠ []) :
    k ∈ credentialKeys ++ [ascii "type", ascii "output", ascii "action"] := by
  have hall {some all : List Bytes} (hsub : some.Sublist all) :
      (credentialKeys ++ some).Sublist (credentialKeys ++ all) :=
    (List.append_sublist_append_left _).mpr hsub
  unfold isCacheable at h
  split at h
  · have hmem := hasOnlyQueryKeys_iff.mp h k hk
    exact List.mem_append_left _ hmem
  · split at h
    · have hmem := hasOnlyQueryKeys_iff.mp h k hk
      exact (hall (List.sublist_append_left _ [ascii "action"])).mem hmem
    · split at h
      · rw [Bool.and_eq_true] at h
        have hmem := hasOnlyQueryKeys_iff.mp h.2 k hk
        exact (hall (List.sublist_append_right [ascii "type", ascii "output"] _)).mem hmem
      · cases h

/-- The endpoints of cacheable requests. -/
theorem endpoint_of_isCacheable {endpoint : Bytes} (h : isCacheable endpoint v = true) :
    endpoint ∈ [ascii "xmltv.php", ascii "get.php", ascii "player_api.php"] := by
  unfold isCacheable at h
  split at h
  · next he => simp [he]
  · split at h
    · next he => simp [he]
    · split at h
      · next he => simp [he]
      · cases h

theorem mem_credentialKeys : k ∈ credentialKeys ↔ k = ascii "username" ∨ k = ascii "password" := by
  simp [credentialKeys]

theorem values_withoutCredentials :
    (withoutCredentials v).values k = if k ∈ credentialKeys then [] else v.values k := by
  rw [withoutCredentials]
  by_cases hp : k = ascii "password"
  · rw [hp, Values.values_del_self, if_pos (by decide)]
  · rw [Values.values_del_ne hp]
    by_cases hu : k = ascii "username"
    · rw [hu, Values.values_del_self, if_pos (by decide)]
    · rw [Values.values_del_ne hu, if_neg (by simp [mem_credentialKeys, hu, hp])]

theorem hasOnlyQueryKeys_withoutCredentials (allowed : List Bytes) :
    hasOnlyQueryKeys (withoutCredentials v) (credentialKeys ++ allowed) =
      hasOnlyQueryKeys v (credentialKeys ++ allowed) := by
  rw [Bool.eq_iff_iff, hasOnlyQueryKeys_iff, hasOnlyQueryKeys_iff]
  apply forall_congr'
  intro k
  rw [values_withoutCredentials]
  by_cases hk : k ∈ credentialKeys
  · simp [hk]
  · rw [if_neg hk]

/-- **The credentials do not matter** for what is cacheable. -/
theorem isCacheable_withoutCredentials {endpoint : Bytes} :
    isCacheable endpoint (withoutCredentials v) = isCacheable endpoint v := by
  have honly := hasOnlyQueryKeys_withoutCredentials (v := v) []
  rw [List.append_nil] at honly
  have haction : (withoutCredentials v).get (ascii "action") = v.get (ascii "action") := by
    rw [Values.get, Values.get, values_withoutCredentials, if_neg (by decide)]
  rw [isCacheable, isCacheable, honly, hasOnlyQueryKeys_withoutCredentials,
    hasOnlyQueryKeys_withoutCredentials, haction]

theorem isCacheable_same {endpoint : Bytes} (h : v.Same w) :
    isCacheable endpoint v = isCacheable endpoint w :=
  isCacheable_congr (fun k => by rw [h k]) (by rw [Values.get, Values.get, h])

/-! ## Keys -/

/-- The bytes of an encoded query are those of its escaped names and values and the separators. -/
theorem encode_forall {P : Byte → Prop}
    (hescape : ∀ s, ∀ c ∈ Percent.escape Values.queryMode s, P c)
    (hequals : P Values.equals) (hamp : P Values.amp) (v : Values) : ∀ c ∈ v.encode, P c := by
  have hpair : ∀ p : Bytes × Bytes, ∀ c ∈ Values.encodePair p, P c := by
    intro p c hc
    rw [Values.encodePair, List.mem_append, List.mem_cons] at hc
    rcases hc with hc | rfl | hc
    · exact hescape _ c hc
    · exact hequals
    · exact hescape _ c hc
  rw [Values.encode]
  induction v.sorted with
  | nil =>
    intro c hc
    cases hc
  | cons p ps ih =>
    intro c hc
    rcases ps with _ | ⟨p', ps⟩
    · rw [List.map_cons, List.map_nil, List.intercalate_singleton] at hc
      exact hpair p c hc
    · rw [List.map_cons, List.intercalate_cons_of_ne_nil (by simp), List.mem_append,
        List.mem_append] at hc
      rcases hc with (hc | hc) | hc
      · exact hpair p c hc
      · rw [List.mem_singleton.mp hc]
        exact hamp
      · exact ih c hc

/-- The bytes of an encoded query are ASCII and none of them is a colon. -/
theorem encode_bytes (v : Values) : ∀ c ∈ v.encode, c.val < 128 ∧ c ≠ colon := by
  have hunreserved : ∀ c, Values.unreserved c = true → c.val < 128 ∧ c ≠ colon := by
    decide +kernel
  have hdigit : ∀ n < 16, (Percent.hexDigit n).val < 128 ∧ Percent.hexDigit n ≠ colon := by decide
  refine encode_forall (P := fun c => c.val < 128 ∧ c ≠ colon) (fun s c hc => ?_) (by decide)
    (by decide) v
  exact Percent.escape_forall (m := Values.queryMode) (P := fun c => c.val < 128 ∧ c ≠ colon)
    hunreserved (by decide) (by decide) hdigit s c hc

theorem colon_cut {a a' b b' : Bytes} (ha : colon ∉ a) (ha' : colon ∉ a')
    (h : a ++ colon :: b = a' ++ colon :: b') : a = a' ∧ b = b' := by
  have hcut := congrArg (Values.cut colon) h
  rw [Values.cut_append ha, Values.cut_append ha'] at hcut
  exact Prod.mk.inj hcut

/-- An endpoint and a query are told apart by the first colon. -/
theorem endpoint_query_injective {e e' q q' : Bytes} (he : colon ∉ e) (he' : colon ∉ e')
    (h : (e ++ if q = [] then [] else colon :: q) = e' ++ if q' = [] then [] else colon :: q') :
    e = e' ∧ q = q' := by
  by_cases hq : q = [] <;> by_cases hq' : q' = []
  · rw [if_pos hq, if_pos hq', List.append_nil, List.append_nil] at h
    exact ⟨h, hq.trans hq'.symm⟩
  · rw [if_pos hq, if_neg hq', List.append_nil] at h
    exact absurd (h ▸ List.mem_append_right _ (List.mem_cons_self ..)) he
  · rw [if_neg hq, if_pos hq', List.append_nil] at h
    exact absurd (h ▸ List.mem_append_right _ (List.mem_cons_self ..)) he'
  · rw [if_neg hq, if_neg hq'] at h
    exact colon_cut he he' h

/-- **The key determines the entry**: for provider ids and endpoints without a colon. -/
theorem cacheKey_injective {d d' : Descriptor} (hid : colon ∉ d.providerID)
    (hid' : colon ∉ d'.providerID) (he : colon ∉ d.endpoint) (he' : colon ∉ d'.endpoint)
    (h : d.cacheKey = d'.cacheKey) :
    d.providerID = d'.providerID ∧ d.endpoint = d'.endpoint ∧ d.query = d'.query := by
  simp only [Descriptor.cacheKey, List.append_assoc, List.cons_append,
    List.append_cancel_left_eq] at h
  obtain ⟨hids, hrest⟩ := colon_cut hid hid' h
  exact ⟨hids, endpoint_query_injective he he' hrest⟩

theorem colon_not_mem_endpoint {endpoint : Bytes} (h : isCacheable endpoint v = true) :
    colon ∉ endpoint := by
  have hall : ∀ e ∈ [ascii "xmltv.php", ascii "get.php", ascii "player_api.php"], colon ∉ e := by
    decide
  exact hall _ (endpoint_of_isCacheable h)

end IptvProxy.Catalog
