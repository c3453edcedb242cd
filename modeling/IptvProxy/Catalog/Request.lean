import IptvProxy.Xtream.Authentication
import IptvProxy.Catalog.Descriptor

/-!
# Which requests share a cache entry

`cacheTargetForRequest` maps the catalog requests of all clients to one target:
`internal/proxy/cache_request.go`, with `xtreamRequestValues` of `xtream_metadata.go`, which merges
the parameters of the query and of a POST body.

A parameter that a JSON body sets to `null` is removed from the merged parameters, but the loop
that overrides the translated query has nothing to override it with, so it stays in the target.
Such parameters are `lost`; two requests with the same merged parameters are treated alike if and
only if they lose the same ones, or are both not cacheable with them (`shared_identity_iff`).
-/

namespace IptvProxy.Catalog

open Xtream

/-- `maxXtreamFormBytes` -/
def maxXtreamFormBytes : ℕ := 1024 * 1024

/-- The errors of `xtreamRequestValues`. -/
inductive ValuesError where
  | readBody
  | bodyTooLarge
  | parseJSON
  | parseForm
  deriving DecidableEq, Repr

/-- Their texts, or how they begin. -/
def ValuesError.text : ValuesError → String
  | readBody => "read Xtream form body"
  | bodyTooLarge => "Xtream form body is too large"
  | parseJSON => "parse Xtream JSON body"
  | parseForm => "parse Xtream form body"

/-- The values of `form` replace those of `values`, name by name. -/
def overrideValues (values form : Values) : Values :=
  form.names.foldl (fun values key => values.replace key (form.values key)) values

/-- One field of a JSON body: texts, numbers and truth values are set, `null` removes, and
structured values are ignored. -/
def setJsonValue (values : Values) (key : Bytes) : Option Json → Values
  | some (.string s) => values.set key s
  | some (.number text) => values.set key text
  | some (.bool b) => values.set key (ascii (if b then "true" else "false"))
  | some .null => values.del key
  | _ => values

/-- The names of an object. -/
def fieldNames (payload : List (Bytes × Json)) : List Bytes := (payload.map Prod.fst).dedup

variable (L : Library)

/-- The fields of a body that is read as a JSON object. -/
def jsonBody (body : Bytes) : Option (Option (List (Bytes × Json))) :=
  let trimmed := L.trimSpace body
  if trimmed.head? = some 123 then some (L.decodeObject trimmed) else none

/-- `xtreamRequestValues` -/
def xtreamRequestValues (r : Request) : Except ValuesError Values :=
  if r.method ≠ ascii "POST" then .ok r.query
  else match r.body with
    | .absent => .ok r.query
    | .unreadable => .error .readBody
    | .bytes body =>
      if body = [] then .ok r.query
      else if body.length > maxXtreamFormBytes then .error .bodyTooLarge
      else if L.trimSpace body = ascii "\x7b\x7d" then .ok r.query
      else match jsonBody L body with
        | some none => .error .parseJSON
        | some (some payload) =>
          .ok ((fieldNames payload).foldl (fun v k => setJsonValue v k (payload.lookup k)) r.query)
        | none =>
          if (Values.parse body).2 = false then .error .parseForm
          else .ok (overrideValues r.query (Values.parse body).1)

/-- The parameters `cacheTargetForRequest` looks at. -/
def targetValues (p : Provider) (upstream : URL) (parsed : Option Values) : Values :=
  let values := (Values.parse upstream.rawQuery).1
  let values := match parsed with
    | some parsed => overrideValues values parsed
    | none => values
  if values.has (ascii "username") || values.has (ascii "password") then
    (values.set (ascii "username") p.upstreamUsername).set (ascii "password") p.upstreamPassword
  else values

/-- `cacheTargetForRequest`: the target, if the request is cacheable. -/
def cacheTargetForRequest (r : Request) (p : Provider) (endpoint : Bytes) (upstream : URL) :
    Option URL :=
  if r.method = ascii "POST" then
    match xtreamRequestValues L r with
    | .error _ => none
    | .ok parsed =>
      let values := targetValues p upstream (some parsed)
      if isCacheable endpoint values then some { upstream with rawQuery := values.encode } else none
  else
    let values := targetValues p upstream none
    if isCacheable endpoint values then some { upstream with rawQuery := values.encode } else none

/-! ## Merging, name by name -/

variable {L} {p : Provider} {v w form : Values} {k : Bytes}

theorem values_overrideValues :
    (overrideValues v form).values k = if form.values k = [] then v.values k else form.values k := by
  have hfold : ∀ (ks : List Bytes) (v : Values), ks.Nodup →
      (ks.foldl (fun values key => values.replace key (form.values key)) v).values k =
        if k ∈ ks then form.values k else v.values k := by
    intro ks
    induction ks with
    | nil => simp
    | cons key ks ih =>
      intro v hks
      obtain ⟨hkey, hks⟩ := List.nodup_cons.mp hks
      rw [List.foldl_cons, ih _ hks]
      by_cases hk : k ∈ ks
      · simp [hk]
      · by_cases heq : k = key
        · subst heq
          simp [hk]
        · rw [Values.values_replace_ne _ heq]
          simp [hk, heq]
  rw [overrideValues, hfold _ _ Values.nodup_names]
  by_cases hk : form.values k = []
  · rw [if_neg (by rwa [Values.mem_names, not_not]), if_pos hk]
  · rw [if_pos (by rwa [Values.mem_names]), if_neg hk]

theorem values_setJsonValue_ne {key : Bytes} {x : Option Json} (h : k ≠ key) :
    (setJsonValue v key x).values k = v.values k := by
  rcases x with _ | (_ | _ | _ | _ | _ | _)
  case none => rfl
  case some.null => exact Values.values_del_ne h
  case some.bool => exact Values.values_set_ne h
  case some.number => exact Values.values_set_ne h
  case some.string => exact Values.values_set_ne h
  case some.array => rfl
  case some.object => rfl

/-- What a field does to its name depends on the values of this name only. -/
theorem values_setJsonValue_congr {x : Option Json} (h : v.values k = w.values k) :
    (setJsonValue v k x).values k = (setJsonValue w k x).values k := by
  rcases x with _ | (_ | _ | _ | _ | _ | _)
  case none => exact h
  case some.null => exact Values.values_del_self.trans Values.values_del_self.symm
  case some.bool => exact Values.values_set_self.trans Values.values_set_self.symm
  case some.number => exact Values.values_set_self.trans Values.values_set_self.symm
  case some.string => exact Values.values_set_self.trans Values.values_set_self.symm
  case some.array => exact h
  case some.object => exact h

theorem lookup_eq_none {payload : List (Bytes × Json)} (h : k ∉ fieldNames payload) :
    payload.lookup k = none := by
  rw [fieldNames, List.mem_dedup] at h
  rw [List.lookup_eq_none_iff]
  intro f hf
  rw [bne_iff_ne]
  rintro rfl
  exact h (List.mem_map_of_mem hf)

/-- The fold over the fields of an object, name by name. -/
theorem values_fields (payload : List (Bytes × Json)) :
    ((fieldNames payload).foldl (fun v k => setJsonValue v k (payload.lookup k)) v).values k =
      (setJsonValue v k (payload.lookup k)).values k := by
  have hfold : ∀ (ks : List Bytes) (v : Values), ks.Nodup →
      (ks.foldl (fun v k => setJsonValue v k (payload.lookup k)) v).values k =
        if k ∈ ks then (setJsonValue v k (payload.lookup k)).values k else v.values k := by
    intro ks
    induction ks with
    | nil => simp
    | cons key ks ih =>
      intro v hks
      obtain ⟨hkey, hks⟩ := List.nodup_cons.mp hks
      rw [List.foldl_cons, ih _ hks]
      by_cases heq : k = key
      · subst heq
        rw [if_neg hkey, if_pos (List.mem_cons_self ..)]
      · have hframe := values_setJsonValue_ne (v := v) (x := payload.lookup key) heq
        rw [values_setJsonValue_congr hframe, hframe]
        simp [heq]
  rw [hfold (fieldNames payload) v (List.nodup_dedup _)]
  split
  · rfl
  · next hk => rw [lookup_eq_none hk]; rfl

/-! ## Lost parameters -/

/-- The field is `null`. -/
def isNull : Option Json → Bool
  | some .null => true
  | _ => false

/-- The fields of the JSON object in the body that `xtreamRequestValues` merges. -/
def jsonFields (L : Library) (r : Request) : List (Bytes × Json) :=
  match r.body with
  | .bytes body =>
    if r.method ≠ ascii "POST" ∨ body = [] ∨ L.trimSpace body = ascii "\x7b\x7d" then []
    else (jsonBody L body).join.getD []
  | _ => []

/-- The parameters of the query, other than the credentials, that the body sets to `null`. -/
def lost (L : Library) (r : Request) : Values :=
  r.query.filter fun q => q.1 ∉ credentialKeys ∧ isNull ((jsonFields L r).lookup q.1) = true

theorem values_lost (r : Request) : (lost L r).values k =
    if k ∉ credentialKeys ∧ isNull ((jsonFields L r).lookup k) = true then r.query.values k
    else [] := by
  by_cases hk : k ∉ credentialKeys ∧ isNull ((jsonFields L r).lookup k) = true
  · rw [if_pos hk, lost, Values.values, Values.values, List.filter_filter]
    congr 1
    apply List.filter_congr
    intro q _
    by_cases hq : q.1 = k
    · simp [hq, hk.1, hk.2]
    · simp [hq]
  · rw [if_neg hk, lost, Values.values, List.filter_filter, List.map_eq_nil_iff,
      List.filter_eq_nil_iff]
    rintro q - hq
    simp only [Bool.decide_and, Bool.and_eq_true, decide_eq_true_eq] at hq
    obtain ⟨rfl, hq⟩ := hq
    exact hk (by simpa using hq)

theorem setJsonValue_null {x : Option Json} (h : isNull x = true) :
    (setJsonValue v k x).values k = [] := by
  rcases x with _ | (_ | _ | _ | _ | _ | _)
  case some.null => exact Values.values_del_self
  all_goals cases h

theorem values_of_setJsonValue {x : Option Json} (h : isNull x = false)
    (hk : (setJsonValue v k x).values k = []) : v.values k = [] := by
  rcases x with _ | (_ | _ | _ | _ | _ | _)
  case none => exact hk
  case some.null => cases h
  case some.bool => simp [setJsonValue] at hk
  case some.number => simp [setJsonValue] at hk
  case some.string => simp [setJsonValue] at hk
  case some.array => exact hk
  case some.object => exact hk

/-- **What merging removes**: a name of the query is missing from the merged parameters only if it
was set to `null`. -/
theorem merged_values {r : Request} {m : Values} (h : xtreamRequestValues L r = .ok m) (k : Bytes) :
    (isNull ((jsonFields L r).lookup k) = true → m.values k = []) ∧
    (isNull ((jsonFields L r).lookup k) = false → m.values k = [] → r.query.values k = []) := by
  have hquery : jsonFields L r = [] → m = r.query →
      (isNull ((jsonFields L r).lookup k) = true → m.values k = []) ∧
      (isNull ((jsonFields L r).lookup k) = false → m.values k = [] → r.query.values k = []) := by
    rintro hf rfl
    rw [hf]
    exact ⟨fun h => (nomatch h), fun _ h => h⟩
  rw [xtreamRequestValues] at h
  split at h
  · next hmethod =>
    refine hquery ?_ (Except.ok.inj h).symm
    rw [jsonFields]
    split
    · rw [if_pos (.inl hmethod)]
    · rfl
  next hmethod =>
  split at h
  · next hbody => exact hquery (by rw [jsonFields, hbody]) (Except.ok.inj h).symm
  · cases h
  next body hbody =>
  split at h
  · next hempty =>
    exact hquery (by rw [jsonFields, hbody]; exact if_pos (.inr (.inl hempty)))
      (Except.ok.inj h).symm
  next hempty =>
  split at h
  · cases h
  split at h
  · next hobject =>
    exact hquery (by rw [jsonFields, hbody]; exact if_pos (.inr (.inr hobject)))
      (Except.ok.inj h).symm
  next hobject =>
  have hfields : jsonFields L r = (jsonBody L body).join.getD [] := by
    rw [jsonFields, hbody]
    exact if_neg (by simp [hempty, hobject, not_not.mp hmethod])
  split at h
  · cases h
  · next payload hjson =>
    rw [hjson] at hfields
    obtain rfl := Except.ok.inj h
    rw [show jsonFields L r = payload from hfields, values_fields]
    exact ⟨setJsonValue_null, values_of_setJsonValue⟩
  · next hjson =>
    rw [hjson] at hfields
    split at h
    · cases h
    obtain rfl := Except.ok.inj h
    rw [show jsonFields L r = [] from hfields, values_overrideValues]
    refine ⟨fun hnull => (nomatch hnull), fun _ hk => ?_⟩
    split at hk
    · exact hk
    · next hne => exact absurd hk hne

/-! ## The target of an accepted request -/

/-- The translator replaces values of credential names that are there. -/
theorem translateValues_values {pairs : List (Bytes × Bytes)} {selected u : User} {q q' : Values}
    {matched matched' : Bool}
    (h : translateValues L p pairs selected q matched = .ok (u, q', matched')) (k : Bytes) :
    (q'.values k = [] ↔ q.values k = []) ∧
    ((∀ pr ∈ pairs, k ≠ pr.1 ∧ k ≠ pr.2) → q'.values k = q.values k) := by
  induction pairs generalizing selected q matched with
  | nil =>
    simp only [translateValues, Except.ok.injEq, Prod.mk.injEq] at h
    obtain ⟨-, rfl, -⟩ := h
    exact ⟨Iff.rfl, fun _ => rfl⟩
  | cons pr pairs ih =>
    obtain ⟨nameKey, passKey⟩ := pr
    simp only [translateValues] at h
    split at h
    · obtain ⟨hnil, hvalues⟩ := ih h
      exact ⟨hnil, fun hk => hvalues fun pr hpr => hk pr (List.mem_cons_of_mem _ hpr)⟩
    next hcomplete =>
    split at h
    · cases h
    obtain ⟨hnil, hvalues⟩ := ih h
    obtain ⟨hname, hpass⟩ := not_or.mp hcomplete
    constructor
    · rw [hnil]
      by_cases hkp : k = passKey
      · subst hkp
        simpa using fun hv => hpass (Values.get_eq_nil_of_values hv)
      · rw [Values.values_set_ne hkp]
        by_cases hkn : k = nameKey
        · subst hkn
          simpa using fun hv => hname (Values.get_eq_nil_of_values hv)
        · rw [Values.values_set_ne hkn]
    · intro hk
      obtain ⟨hkn, hkp⟩ := hk (nameKey, passKey) (List.mem_cons_self ..)
      rw [hvalues fun pr hpr => hk pr (List.mem_cons_of_mem _ hpr), Values.values_set_ne hkp,
        Values.values_set_ne hkn]

/-- The names of the second spelling of credentials. -/
def otherCredentialKeys : List Bytes := [ascii "user", ascii "pass"]

/-- The query at the provider, read back. -/
theorem upstream_values {remaining : Bytes} {r : Request} {t : Translated}
    (h : buildTransparentUpstreamURL L p remaining r = .ok t) (k : Bytes) :
    ((Values.parse t.url.rawQuery).1.values k = [] ↔ r.query.values k = []) ∧
    (k ∉ credentialKeys → k ∉ otherCredentialKeys →
      (Values.parse t.url.rawQuery).1.values k = r.query.values k) := by
  obtain ⟨a⟩ := accepted_of_build h
  have hparse : (Values.parse t.url.rawQuery).1.values k = a.query.values k := by
    rw [a.hurl, Values.parse_encode]
    exact Values.sorted_same k
  obtain ⟨hnil, hvalues⟩ := translateValues_values a.hquery k
  rw [hparse]
  refine ⟨hnil, fun hk hk' => hvalues ?_⟩
  simp only [credentialKeys, otherCredentialKeys, List.mem_cons, List.not_mem_nil, or_false,
    not_or] at hk hk'
  simp [credentialPairs, hk, hk']

/-- The credentials are the provider's, the other parameters are as merged. -/
theorem withoutCredentials_targetValues {upstream : URL} (parsed : Option Values)
    (hk : k ∉ credentialKeys) : (targetValues p upstream parsed).values k =
      match parsed with
      | some parsed => if parsed.values k = [] then (Values.parse upstream.rawQuery).1.values k
        else parsed.values k
      | none => (Values.parse upstream.rawQuery).1.values k := by
  have hset : ∀ v : Values, (if v.has (ascii "username") || v.has (ascii "password") then
      (v.set (ascii "username") p.upstreamUsername).set (ascii "password") p.upstreamPassword
      else v).values k = v.values k := by
    intro v
    rw [mem_credentialKeys, not_or] at hk
    split
    · rw [Values.values_set_ne hk.2, Values.values_set_ne hk.1]
    · rfl
  rcases parsed with _ | parsed
  · exact hset _
  · exact (hset _).trans values_overrideValues

/-- What identifies a request for the shared cache: the merged parameters and the lost ones,
without the credentials. -/
def identity (L : Library) (r : Request) (m : Values) : Values :=
  withoutCredentials (m ++ lost L r)

theorem values_identity {r : Request} {m : Values} : (identity L r m).values k =
    if k ∈ credentialKeys then [] else m.values k ++ (lost L r).values k := by
  rw [identity, values_withoutCredentials, Values.values_append]

/-- A request as the cache reads it, after the translator has replaced its body. -/
def afterTranslation (r : Request) (t : Translated) : Request := { r with body := t.body }

/-- The parameters of the target and the identity have the same names, and the same values except
under the second spelling of credentials. -/
theorem targetValues_identity {remaining : Bytes} {r : Request} {t : Translated} {m : Values}
    (h : buildTransparentUpstreamURL L p remaining r = .ok t)
    (hm : xtreamRequestValues L (afterTranslation r t) = .ok m) {parsed : Option Values}
    (hparsed : parsed = if r.method = ascii "POST" then some m else none) (k : Bytes) :
    ((withoutCredentials (targetValues p t.url parsed)).values k = [] ↔
      (identity L (afterTranslation r t) m).values k = []) ∧
    (k ∉ otherCredentialKeys → (withoutCredentials (targetValues p t.url parsed)).values k =
      (identity L (afterTranslation r t) m).values k) := by
  rw [values_withoutCredentials, values_identity]
  by_cases hk : k ∈ credentialKeys
  · simp [hk]
  rw [if_neg hk, if_neg hk, withoutCredentials_targetValues parsed hk, values_lost]
  obtain ⟨hnil, hvalues⟩ := upstream_values h k
  obtain ⟨hnull, hkept⟩ := merged_values hm k
  have hq : (afterTranslation r t).query = r.query := rfl
  rw [hq] at hkept
  rw [hq]
  by_cases hpost : r.method = ascii "POST"
  · rw [if_pos hpost] at hparsed
    subst hparsed
    dsimp only
    by_cases hisnull : isNull ((jsonFields L (afterTranslation r t)).lookup k) = true
    · rw [hnull hisnull, if_pos rfl, if_pos ⟨hk, hisnull⟩, List.nil_append]
      exact ⟨hnil, hvalues hk⟩
    · have hkeep : ¬ (k ∉ credentialKeys ∧
          isNull ((jsonFields L (afterTranslation r t)).lookup k) = true) :=
        fun hand => hisnull hand.2
      rw [if_neg hkeep, List.append_nil]
      rw [Bool.not_eq_true] at hisnull
      by_cases hmk : m.values k = []
      · have hempty := hkept hisnull hmk
        rw [if_pos hmk, hmk]
        have hup := hnil.mpr hempty
        rw [hup]
        exact ⟨Iff.rfl, fun _ => rfl⟩
      · rw [if_neg hmk]
        exact ⟨Iff.rfl, fun _ => rfl⟩
  · rw [if_neg hpost] at hparsed
    subst hparsed
    have hmr : m = r.query := by
      rw [xtreamRequestValues] at hm
      split at hm
      · exact (Except.ok.inj hm).symm
      · next hmethod => exact absurd (not_not.mp hmethod) hpost
    have hfields : jsonFields L (afterTranslation r t) = [] := by
      rw [jsonFields]
      split
      · exact if_pos (.inl hpost)
      · rfl
    rw [hfields, if_neg fun hand => (nomatch hand.2), List.append_nil, hmr]
    exact ⟨hnil, hvalues hk⟩

/-- The target is the query with the body's parameters, if these are cacheable. -/
theorem cacheTargetForRequest_eq {r : Request} {endpoint : Bytes} {upstream : URL} {m : Values}
    (hm : xtreamRequestValues L r = .ok m) {parsed : Option Values}
    (hparsed : parsed = if r.method = ascii "POST" then some m else none) :
    cacheTargetForRequest L r p endpoint upstream =
      if isCacheable endpoint (targetValues p upstream parsed) then
        some { upstream with rawQuery := (targetValues p upstream parsed).encode } else none := by
  rw [cacheTargetForRequest, hparsed]
  by_cases hpost : r.method = ascii "POST"
  · rw [if_pos hpost, if_pos hpost, hm]
  · rw [if_neg hpost, if_neg hpost]

/-- **The decision of one request** is that of its identity. -/
theorem isSome_cacheTargetForRequest {remaining : Bytes} {r : Request} {t : Translated} {m : Values}
    (h : buildTransparentUpstreamURL L p remaining r = .ok t)
    (hm : xtreamRequestValues L (afterTranslation r t) = .ok m) :
    (cacheTargetForRequest L (afterTranslation r t) p t.endpoint t.url).isSome =
      isCacheable t.endpoint (identity L (afterTranslation r t) m) := by
  obtain ⟨parsed, hparsed⟩ :
      ∃ parsed, parsed = if r.method = ascii "POST" then some m else none := ⟨_, rfl⟩
  have hids := targetValues_identity h hm hparsed
  have haction := (hids (ascii "action")).2 (by decide)
  have hcacheable : isCacheable t.endpoint _ = isCacheable t.endpoint _ :=
    isCacheable_congr (fun k => (hids k).1) (by rw [Values.get, Values.get, haction])
  rw [isCacheable_withoutCredentials] at hcacheable
  rw [cacheTargetForRequest_eq hm hparsed, ← hcacheable, Bool.eq_iff_iff]
  exact Option.isSome_ite

/-- **The descriptor of one request**: its query is the encoded identity. -/
theorem query_cacheDescriptor {remaining : Bytes} {r : Request} {t : Translated} {m : Values}
    (h : buildTransparentUpstreamURL L p remaining r = .ok t)
    (hm : xtreamRequestValues L (afterTranslation r t) = .ok m) {target : URL}
    (ht : cacheTargetForRequest L (afterTranslation r t) p t.endpoint t.url = some target)
    (providerID : Bytes) (sourceHeaders : Values) :
    (cacheDescriptor L providerID t.endpoint target sourceHeaders).query =
      (identity L (afterTranslation r t) m).encode := by
  have hsome := isSome_cacheTargetForRequest h hm
  rw [ht, Option.isSome_some] at hsome
  obtain ⟨parsed, hparsed⟩ :
      ∃ parsed, parsed = if r.method = ascii "POST" then some m else none := ⟨_, rfl⟩
  have hids := targetValues_identity h hm hparsed
  rw [cacheTargetForRequest_eq hm hparsed] at ht
  obtain ⟨-, ht⟩ := Option.ite_none_right_eq_some.mp ht
  obtain rfl := Option.some.inj ht
  simp only [cacheDescriptor, Values.parse_encode]
  refine Values.encode_congr fun k => ?_
  rw [values_withoutCredentials, Values.sorted_same k, ← values_withoutCredentials]
  by_cases hother : k ∈ otherCredentialKeys
  · -- a cacheable request has no such parameter
    have hforeign : ∀ k ∈ otherCredentialKeys,
        k ∉ credentialKeys ++ [ascii "type", ascii "output", ascii "action"] := by decide
    have habsent : (identity L (afterTranslation r t) m).values k = [] := by
      by_contra hne
      exact hforeign k hother (key_of_isCacheable hsome.symm hne)
    rw [habsent, (hids k).1.mpr habsent]
  · exact (hids k).2 hother

/-! ## Two requests -/

/-- An accepted request: how it was resolved and translated. -/
structure Accept (L : Library) (providers : List Provider) (path : Bytes) (r : Request) where
  resolved : Resolved
  translated : Translated
  hresolve : Resolver.resolve L providers path = .ok resolved
  hbuild : buildTransparentUpstreamURL L resolved.provider resolved.remainingPath r = .ok translated

/-- Accept a request, if it can be. -/
def accept (L : Library) (providers : List Provider) (path : Bytes) (r : Request) :
    Option (Accept L providers path r) :=
  match hresolve : Resolver.resolve L providers path with
  | .error _ => none
  | .ok resolved =>
    match hbuild : buildTransparentUpstreamURL L resolved.provider resolved.remainingPath r with
    | .error _ => none
    | .ok translated => some ⟨resolved, translated, hresolve, hbuild⟩

section TwoRequests

variable {providers providers' : List Provider} {path path' : Bytes} {r r' : Request}

/-- The request as the cache reads it. -/
def Accept.request (a : Accept L providers path r) : Request := afterTranslation r a.translated

/-- What `cacheTargetForRequest` decides for it. -/
def Accept.cacheTarget (a : Accept L providers path r) : Option URL :=
  cacheTargetForRequest L a.request a.resolved.provider a.translated.endpoint a.translated.url

/-- Its descriptor for a target. -/
def Accept.descriptor (a : Accept L providers path r) (target : URL) (sourceHeaders : Values) :
    Descriptor :=
  cacheDescriptor L a.resolved.provider.id a.translated.endpoint target sourceHeaders

/-- Two requests share an identity: the same decision, and the same key and query of their
descriptors whatever headers they have; the query names no credential. -/
structure SharedIdentity (a : Accept L providers path r) (a' : Accept L providers' path' r') :
    Prop where
  /-- both are cacheable or none is -/
  decision : a.cacheTarget.isSome = a'.cacheTarget.isSome
  /-- with the same key and query -/
  entry : ∀ target target', a.cacheTarget = some target → a'.cacheTarget = some target' →
    ∀ headers headers',
      (a.descriptor target headers).cacheKey = (a'.descriptor target' headers').cacheKey ∧
      (a.descriptor target headers).query = (a'.descriptor target' headers').query
  /-- without credentials -/
  noCredentials : ∀ target headers, a.cacheTarget = some target →
    ∀ k, (Values.parse (a.descriptor target headers).query).1.values k ≠ [] →
      k ∈ [ascii "type", ascii "output", ascii "action"]

theorem Accept.isSome_cacheTarget (a : Accept L providers path r) {m : Values}
    (hm : xtreamRequestValues L a.request = .ok m) :
    a.cacheTarget.isSome = isCacheable a.translated.endpoint (identity L a.request m) :=
  isSome_cacheTargetForRequest a.hbuild hm

theorem Accept.query_descriptor (a : Accept L providers path r) {m : Values}
    (hm : xtreamRequestValues L a.request = .ok m) {target : URL} (ht : a.cacheTarget = some target)
    (headers : Values) : (a.descriptor target headers).query = (identity L a.request m).encode :=
  query_cacheDescriptor a.hbuild hm ht _ headers

/-- Encoded queries that are equal have the same values. -/
theorem same_of_encode (h : v.encode = w.encode) : v.Same w := by
  intro k
  have hparse := congrArg (fun query => (Values.parse query).1.values k) h
  simp only [Values.parse_encode] at hparse
  rw [Values.sorted_same k, Values.sorted_same k] at hparse
  exact hparse

/-- The query of a descriptor names no credential. -/
theorem Accept.noCredentials (a : Accept L providers path r) {m : Values}
    (hm : xtreamRequestValues L a.request = .ok m) {target : URL} {headers : Values}
    (ht : a.cacheTarget = some target) {k : Bytes}
    (hk : (Values.parse (a.descriptor target headers).query).1.values k ≠ []) :
    k ∈ [ascii "type", ascii "output", ascii "action"] := by
  have hcacheable := a.isSome_cacheTarget hm
  rw [ht, Option.isSome_some] at hcacheable
  rw [a.query_descriptor hm ht, Values.parse_encode, Values.sorted_same k] at hk
  rcases List.mem_append.mp (key_of_isCacheable hcacheable.symm hk) with hcred | hother
  · rw [values_identity, if_pos hcred] at hk
    exact absurd rfl hk
  · exact hother

/-- The identities are the same if the requests lose the same parameters. -/
theorem same_identity_iff {r r' : Request} {m m' : Values}
    (hmerged : ∀ k, k ≠ ascii "username" → k ≠ ascii "password" → m.values k = m'.values k) :
    (identity L r m).Same (identity L r' m') ↔ (lost L r).Same (lost L r') := by
  refine forall_congr' fun k => ?_
  rw [values_identity, values_identity]
  by_cases hk : k ∈ credentialKeys
  · have hnone : ∀ r : Request, (lost L r).values k = [] := fun r => by
      rw [values_lost, if_neg fun hand => hand.1 hk]
    rw [if_pos hk, if_pos hk, hnone, hnone]
  · rw [if_neg hk, if_neg hk]
    rw [mem_credentialKeys, not_or] at hk
    rw [hmerged k hk.1 hk.2, List.append_cancel_left_eq]

/-- **Shared cache identity, exactly when**: two accepted requests for one provider and endpoint
with the same merged parameters other than the credentials share their identity if and only if they
lose the same parameters to `null`, or none of them is cacheable with the lost ones. -/
theorem shared_identity_iff (a : Accept L providers path r) (a' : Accept L providers' path' r')
    {m m' : Values} (hprovider : a.resolved.provider = a'.resolved.provider)
    (hendpoint : a.translated.endpoint = a'.translated.endpoint)
    (hm : xtreamRequestValues L a.request = .ok m) (hm' : xtreamRequestValues L a'.request = .ok m')
    (hmerged : ∀ k, k ≠ ascii "username" → k ≠ ascii "password" → m.values k = m'.values k) :
    SharedIdentity a a' ↔
      (lost L a.request).Same (lost L a'.request) ∨
      (isCacheable a.translated.endpoint (m ++ lost L a.request) = false ∧
        isCacheable a'.translated.endpoint (m' ++ lost L a'.request) = false) := by
  have hdecision := a.isSome_cacheTarget hm
  have hdecision' := a'.isSome_cacheTarget hm'
  have hidentity : (identity L a.request m).Same (identity L a'.request m') ↔ _ :=
    same_identity_iff hmerged
  constructor
  · intro hshared
    by_cases hc : a.cacheTarget.isSome = true
    · left
      obtain ⟨target, ht⟩ := Option.isSome_iff_exists.mp hc
      obtain ⟨target', ht'⟩ := Option.isSome_iff_exists.mp (hshared.decision ▸ hc)
      have heq := (hshared.entry target target' ht ht' [] []).2
      rw [a.query_descriptor hm ht, a'.query_descriptor hm' ht'] at heq
      exact hidentity.mp (same_of_encode heq)
    · right
      rw [Bool.not_eq_true] at hc
      have hc' := hshared.decision.symm.trans hc
      rw [hdecision, identity, isCacheable_withoutCredentials] at hc
      rw [hdecision', identity, isCacheable_withoutCredentials] at hc'
      exact ⟨hc, hc'⟩
  · intro hcondition
    have hsame : isCacheable a.translated.endpoint (identity L a.request m) =
        isCacheable a'.translated.endpoint (identity L a'.request m') := by
      rcases hcondition with hlost | ⟨hno, hno'⟩
      · rw [hendpoint]
        exact isCacheable_same (hidentity.mpr hlost)
      · rw [identity, identity, isCacheable_withoutCredentials, isCacheable_withoutCredentials,
          hno, hno']
    refine ⟨by rw [hdecision, hdecision', hsame], fun target target' ht ht' headers headers' => ?_,
      fun target headers ht k hk => a.noCredentials hm ht hk⟩
    have hlost : (lost L a.request).Same (lost L a'.request) := by
      rcases hcondition with hlost | ⟨hno, -⟩
      · exact hlost
      · rw [ht, identity, isCacheable_withoutCredentials, hno] at hdecision
        cases hdecision
    have heq : (a.descriptor target headers).query = (a'.descriptor target' headers').query := by
      rw [a.query_descriptor hm ht, a'.query_descriptor hm' ht']
      exact Values.encode_congr (hidentity.mpr hlost)
    refine ⟨?_, heq⟩
    have hid : (a.descriptor target headers).providerID =
        (a'.descriptor target' headers').providerID := congrArg Provider.id hprovider
    have hend : (a.descriptor target headers).endpoint =
        (a'.descriptor target' headers').endpoint := hendpoint
    rw [Descriptor.cacheKey, Descriptor.cacheKey, hid, hend, heq]

/-- `{"action":null}` -/
def nullAction : Bytes := ascii "\x7b\"action\":null\x7d"

/-- The library that reads this body. -/
def nullLibrary : Library :=
  { asciiLibrary with
    decodeObject := fun s => if s = nullAction then some [(ascii "action", .null)] else none }

/-- The provider of the examples. -/
def catalogProvider : Provider := sampleProvider [sampleUser "1" "bob" "a"]

/-- An accepted catalog request of `bob`. -/
def catalogRequest (r : Request)
    (h : (accept nullLibrary [catalogProvider] (ascii "/player_api.php") r).isSome = true) :
    Accept nullLibrary [catalogProvider] (ascii "/player_api.php") r :=
  (accept nullLibrary [catalogProvider] (ascii "/player_api.php") r).get h

/-- A POST that sets the action of its query to `null` is cached as this action, and a GET with the
same merged parameters is not cached. -/
theorem null_action_is_cached :
    ∃ (a : Accept nullLibrary [catalogProvider] (ascii "/player_api.php")
        ⟨ascii "POST", ascii "username=bob&password=a&action=get_series", [], .bytes nullAction⟩)
      (a' : Accept nullLibrary [catalogProvider] (ascii "/player_api.php")
        (getRequest "username=bob&password=a")) (m : Values),
      a.resolved.provider = a'.resolved.provider ∧
      a.translated.endpoint = a'.translated.endpoint ∧
      xtreamRequestValues nullLibrary a.request = .ok m ∧
      xtreamRequestValues nullLibrary a'.request = .ok m ∧ ¬ SharedIdentity a a' := by
  refine ⟨catalogRequest _ (by decide), catalogRequest _ (by decide),
    [(ascii "username", ascii "bob"), (ascii "password", ascii "a")], by decide,
    by decide, by decide, by decide, fun hshared => ?_⟩
  have hdecision := hshared.decision
  revert hdecision
  decide

/-- The same catalog by GET and by POST. -/
theorem shared_identity_iff_sample :
    ∃ (a : Accept nullLibrary [catalogProvider] (ascii "/player_api.php")
        (getRequest "username=bob&password=a&action=get_series"))
      (a' : Accept nullLibrary [catalogProvider] (ascii "/player_api.php")
        ⟨ascii "POST", [], ascii "application/x-www-form-urlencoded",
          .bytes (ascii "action=get_series&username=bob&password=a")⟩), SharedIdentity a a' := by
  refine ⟨catalogRequest _ (by decide), catalogRequest _ (by decide),
    (shared_identity_iff _ _ (by decide) (by decide)
      (show _ = Except.ok [(ascii "username", ascii "bob"), (ascii "password", ascii "a"),
        (ascii "action", ascii "get_series")] by decide)
      (show _ = Except.ok [(ascii "username", ascii "UP"), (ascii "password", ascii "SECRET"),
        (ascii "action", ascii "get_series")] by decide) ?_).mpr (.inl ?_)⟩
  · intro k hu hp
    simp [Values.values, List.filter_cons, Ne.symm hu, Ne.symm hp]
  · have hlost : lost nullLibrary (catalogRequest (getRequest
        "username=bob&password=a&action=get_series") (by decide)).request = [] := by
      decide
    have hlost' : lost nullLibrary (catalogRequest ⟨ascii "POST", [],
        ascii "application/x-www-form-urlencoded",
        .bytes (ascii "action=get_series&username=bob&password=a")⟩ (by decide)).request =
          [] := by
      decide
    rw [hlost, hlost']
    exact fun _ => rfl

end TwoRequests

end IptvProxy.Catalog
