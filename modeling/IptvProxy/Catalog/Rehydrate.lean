import IptvProxy.Xtream.Authentication
import IptvProxy.Catalog.Descriptor

/-!
# After a restart

`RehydratePersistedCache` of `internal/proxy/cache_rehydrate.go` with the operations of the cache
manager it uses. The manager's refresh jobs are lost with the process; the entries in Redis keep
the descriptors, from which the jobs are rebuilt.

An entry in Redis is a hash at its key; of its manifest the pass reads the descriptor and the
lifetime, both stored as JSON. `jsonText` is what becomes of a string that is written to JSON and
read back.
-/

namespace IptvProxy.Catalog

open Xtream

/-- What rehydration reads of `manifest`. -/
structure Manifest where
  /-- `Descriptor` -/
  descriptor : Descriptor
  /-- `Meta.TTLSeconds` -/
  ttlSeconds : ℤ

/-- What rehydration reads of `Entry`. -/
structure Entry where
  /-- `Key` -/
  key : Bytes
  /-- `Descriptor` -/
  descriptor : Descriptor
  /-- `TTLSeconds` -/
  ttlSeconds : ℤ

/-- `Manager`, with the part of Redis it works on. -/
structure Manager where
  /-- the hashes under `iptv:cache:*` -/
  stored : AList fun _ : Bytes => Manifest
  /-- the keys whose replacement lock is held -/
  locked : List Bytes
  /-- `specs` -/
  specs : AList fun _ : Bytes => Spec

/-- The errors of the manager. -/
inductive CacheError where
  /-- of `validateSpec` -/
  | invalidSpec
  | invalidKey
  /-- `ErrCacheUnavailable` -/
  | unavailable
  /-- `ErrReplacementInProgress` -/
  | replacementInProgress
  /-- of `MigrateLegacy` -/
  | disabled
  deriving DecidableEq, Repr

variable (L : Library) (jsonText : Bytes → Bytes)

/-- A descriptor, written to JSON and read back. -/
def Descriptor.persisted (d : Descriptor) : Descriptor where
  providerID := jsonText d.providerID
  endpoint := jsonText d.endpoint
  query := jsonText d.query
  headers := d.headers.map fun h => (jsonText h.1, jsonText h.2)

/-- `validateSpec` -/
def validateSpec (spec : Spec) : Bool :=
  spec.descriptor.providerID ≠ [] ∧ spec.descriptor.endpoint ≠ [] ∧ cachePrefix <+: spec.key

/-- `publish`: the manifest of a new generation. The whole seconds of the lifetime are kept. -/
def Manager.publish (m : Manager) (spec : Spec) : Manager :=
  let manifest : Manifest := ⟨spec.descriptor.persisted jsonText, spec.ttl / second⟩
  { m with stored := m.stored.insert spec.key manifest }

/-- `Register` -/
def Manager.register (m : Manager) (spec : Spec) : Except CacheError Manager :=
  if validateSpec spec = false then .error .invalidSpec
  else if spec.ttl ≤ 0 then .ok m
  else match m.stored.lookup spec.key with
    | none => .error .unavailable
    | some _ => .ok { m with specs := m.specs.insert spec.key spec }

/-- `Remove` -/
def Manager.remove (m : Manager) (key : Bytes) : Except CacheError Manager :=
  if ¬ cachePrefix <+: key then .error .invalidKey
  else if key ∈ m.locked then .error .replacementInProgress
  else .ok { m with stored := m.stored.erase key, specs := m.specs.erase key }

/-- `deleteDuplicate` -/
def Manager.deleteDuplicate (m : Manager) (key : Bytes) : Manager where
  stored := m.stored.erase key
  locked := m.locked.filter (· ≠ key)
  specs := m.specs.erase key

/-- `MigrateLegacy` -/
def Manager.migrateLegacy (m : Manager) (oldKey : Bytes) (spec : Spec) :
    Except CacheError Manager :=
  if oldKey = spec.key then m.register spec
  else if validateSpec spec = false then .error .invalidSpec
  else match m.stored.lookup spec.key with
    | some _ =>
      match m.register spec with
      | .error e => .error e
      | .ok m => .ok (m.deleteDuplicate oldKey)
    | none =>
      match m.stored.lookup oldKey with
      | none => .error .unavailable
      | some _ =>
        if spec.ttl ≤ 0 then .error .disabled
        else
          let m := m.publish jsonText spec
          .ok ({ m with specs := m.specs.insert spec.key spec }.deleteDuplicate oldKey)

/-- `Entries` -/
def Manager.entries (m : Manager) : List Entry :=
  (m.stored.entries.map fun e => ⟨e.1, e.2.descriptor, e.2.ttlSeconds⟩).insertionSort
    fun e e' => e.key ≤ e'.key

/-! ## Keys of the first version -/

/-- `strings.SplitN` -/
def splitN (c : Byte) : ℕ → Bytes → List Bytes
  | 0, _ => []
  | 1, s => [s]
  | n + 2, s => if c ∈ s then (Values.cut c s).1 :: splitN c (n + 1) (Values.cut c s).2 else [s]

/-- One token of the query in such a key: `name=value`, or the rest of a value with a colon. The
state is the query and `currentName`. -/
def legacyToken (state : Values × Bytes) (token : Bytes) : Values × Bytes :=
  let (name, value) := Values.cut Values.equals token
  if Values.equals ∈ token ∧ name ≠ [] then (state.1.set name value, name)
  else if state.2 ≠ [] then
    (state.1.replace state.2 ((state.1.values state.2).modifyLast (· ++ colon :: token)), state.2)
  else state

/-- `legacyCacheDescriptor` -/
def legacyCacheDescriptor (key : Bytes) : Option Descriptor :=
  if ¬ cachePrefix <+: key then none
  else match splitN colon 4 (key.drop cachePrefix.length) with
    | providerID :: endpoint :: _ :: rest =>
      if providerID = [] ∨ endpoint = [] then none
      else
        let query : Values := match rest with
          | [tokens] =>
            if tokens = [] then [] else ((tokens.splitOn colon).foldl legacyToken ([], [])).1
          | _ => []
        some ⟨providerID, endpoint, query.encode, metadataHeaders L []⟩
    | _ => none

/-! ## The pass -/

/-- What the pass reports. -/
inductive Problem where
  | legacyKey
  /-- `url.ParseQuery` failed -/
  | query
  | cache (e : CacheError)
  deriving DecidableEq, Repr

/-- What becomes of an entry. -/
inductive Outcome where
  | registered
  | removed
  | problem (p : Problem)
  deriving DecidableEq, Repr

/-- `h.cache.Remove` for an entry, and the report. -/
def removeEntry (m : Manager) (key : Bytes) : Manager × Outcome :=
  match m.remove key with
  | .error e => (m, .problem (.cache e))
  | .ok m => (m, .removed)

/-- The body of the loop of `RehydratePersistedCache`. -/
def rehydrateEntry (m : Manager) (entry : Entry) : Manager × Outcome :=
  let legacy := entry.descriptor.providerID = [] ∨ entry.descriptor.endpoint = []
  match if legacy then legacyCacheDescriptor L entry.key else some entry.descriptor with
  | none => (m, .problem .legacyKey)
  | some descriptor =>
    match Values.parse descriptor.query with
    | (_, false) => (m, .problem .query)
    | (query, true) =>
      if isCacheable descriptor.endpoint query = false then removeEntry m entry.key
      else
        let ttl := int64 (entry.ttlSeconds * second)
        if ttl ≤ 0 then removeEntry m entry.key
        else
          let spec := cacheSpecFromDescriptor L descriptor ttl
          match if legacy ∨ entry.key ≠ spec.key then m.migrateLegacy jsonText entry.key spec
            else m.register spec with
          | .error e => (m, .problem (.cache e))
          | .ok m => (m, .registered)

/-- The result of the pass. -/
structure Rehydrated where
  manager : Manager
  /-- the number of restored jobs -/
  registered : ℕ
  problems : List Problem

/-- One entry, reported. -/
def Rehydrated.step (s : Rehydrated) (entry : Entry) : Rehydrated :=
  match rehydrateEntry L jsonText s.manager entry with
  | (m, .registered) => ⟨m, s.registered + 1, s.problems⟩
  | (m, .removed) => ⟨m, s.registered, s.problems⟩
  | (m, .problem p) => ⟨m, s.registered, s.problems ++ [p]⟩

/-- `RehydratePersistedCache` -/
def rehydratePersistedCache (m : Manager) : Rehydrated :=
  m.entries.foldl (Rehydrated.step L jsonText) ⟨m, 0, []⟩

/-! ## Entries that can be restored -/

/-- A stored manifest from which the refresh job of its key can be rebuilt. -/
structure Restorable (key : Bytes) (manifest : Manifest) : Prop where
  key_eq : key = manifest.descriptor.cacheKey
  providerID : manifest.descriptor.providerID ≠ []
  cacheable : isCacheable manifest.descriptor.endpoint
    (Values.parse manifest.descriptor.query).1 = true
  wellFormed : (Values.parse manifest.descriptor.query).2 = true
  positive : 0 < int64 (manifest.ttlSeconds * second)

/-- The manifest of an entry. -/
def Entry.manifest (e : Entry) : Manifest := ⟨e.descriptor, e.ttlSeconds⟩

/-- The job that is rebuilt. -/
def Manifest.job (manifest : Manifest) : Spec :=
  cacheSpecFromDescriptor L manifest.descriptor (int64 (manifest.ttlSeconds * second))

variable {L jsonText} {m : Manager} {key : Bytes} {manifest : Manifest}

theorem endpoint_ne_nil {endpoint : Bytes} {v : Values} (h : isCacheable endpoint v = true) :
    endpoint ≠ [] := by
  have hall : ∀ e ∈ [ascii "xmltv.php", ascii "get.php", ascii "player_api.php"], e ≠ [] := by
    decide
  exact hall _ (endpoint_of_isCacheable h)

theorem prefix_cacheKey (d : Descriptor) : cachePrefix <+: d.cacheKey :=
  ⟨_, (List.append_assoc _ _ _).symm.trans (List.append_assoc _ _ _).symm⟩

theorem Restorable.register (h : Restorable key manifest) (hs : m.stored.lookup key = some manifest) :
    m.register (manifest.job L) =
      .ok { m with specs := m.specs.insert key (manifest.job L) } := by
  have hkey : (manifest.job L).key = key := h.key_eq.symm
  have hvalid : validateSpec (manifest.job L) = true := by
    rw [validateSpec, decide_eq_true_eq]
    exact ⟨h.providerID, endpoint_ne_nil h.cacheable, prefix_cacheKey _⟩
  have hpositive : ¬ (manifest.job L).ttl ≤ 0 := not_le.mpr h.positive
  rw [Manager.register, hvalid, if_neg (by decide), if_neg hpositive, hkey, hs]

/-- **One entry**: a restorable entry is registered under its own key, and nothing else changes. -/
theorem rehydrateEntry_restorable {e : Entry} (h : Restorable e.key e.manifest)
    (hs : m.stored.lookup e.key = some e.manifest) :
    rehydrateEntry L jsonText m e =
      ({ m with specs := m.specs.insert e.key (e.manifest.job L) }, .registered) := by
  have hlegacy : ¬ (e.descriptor.providerID = [] ∨ e.descriptor.endpoint = []) :=
    not_or.mpr ⟨h.providerID, endpoint_ne_nil h.cacheable⟩
  have hparse : Values.parse e.descriptor.query = ((Values.parse e.descriptor.query).1, true) :=
    Prod.ext rfl h.wellFormed
  have hcacheable : isCacheable e.descriptor.endpoint (Values.parse e.descriptor.query).1 = true :=
    h.cacheable
  have hpositive : ¬ int64 (e.ttlSeconds * second) ≤ 0 := not_le.mpr h.positive
  have hkey : ¬ ((e.descriptor.providerID = [] ∨ e.descriptor.endpoint = []) ∨
      e.key ≠ (cacheSpecFromDescriptor L e.descriptor (int64 (e.ttlSeconds * second))).key) := by
    rw [not_or, not_not]
    exact ⟨hlegacy, h.key_eq⟩
  have hregister := h.register (L := L) hs
  rw [Manifest.job, Entry.manifest] at hregister
  simp only [rehydrateEntry, if_neg hlegacy]
  rw [hparse]
  simp only [hcacheable, Bool.true_eq_false, if_false, if_neg hpositive, if_neg hkey, hregister,
    Manifest.job, Entry.manifest]

/-- **The whole pass** over restorable entries: all are registered, under their own keys; nothing is
removed or reported. -/
theorem foldl_step (entries : List Entry) (s : Rehydrated)
    (hentries : ∀ e ∈ entries, Restorable e.key e.manifest ∧
      s.manager.stored.lookup e.key = some e.manifest) :
    let after := entries.foldl (Rehydrated.step L jsonText) s
    after.manager.stored = s.manager.stored ∧ after.registered = s.registered + entries.length ∧
    after.problems = s.problems ∧
    ∀ k, after.manager.specs.lookup k = if k ∈ entries.map Entry.key then
      (s.manager.stored.lookup k).map (Manifest.job L) else s.manager.specs.lookup k := by
  induction entries generalizing s with
  | nil => simp
  | cons e entries ih =>
    obtain ⟨hrest, hs⟩ := hentries e (List.mem_cons_self ..)
    have hentry : rehydrateEntry L jsonText s.manager e = _ := rehydrateEntry_restorable hrest hs
    have hstored : (Rehydrated.step L jsonText s e).manager.stored = s.manager.stored := by
      rw [Rehydrated.step, hentry]
    have hregistered : (Rehydrated.step L jsonText s e).registered = s.registered + 1 := by
      rw [Rehydrated.step, hentry]
    have hproblems : (Rehydrated.step L jsonText s e).problems = s.problems := by
      rw [Rehydrated.step, hentry]
    have hspecs : (Rehydrated.step L jsonText s e).manager.specs =
        s.manager.specs.insert e.key (e.manifest.job L) := by
      rw [Rehydrated.step, hentry]
    obtain ⟨ihstored, ihregistered, ihproblems, ihspecs⟩ := ih (Rehydrated.step L jsonText s e)
      fun e' he' => by
        rw [hstored]
        exact hentries e' (List.mem_cons_of_mem _ he')
    rw [List.foldl_cons]
    refine ⟨ihstored.trans hstored, ihregistered.trans ?_, ihproblems.trans hproblems,
      fun k => (ihspecs k).trans ?_⟩
    · rw [hregistered, List.length_cons]
      omega
    · rw [hstored, hspecs, List.map_cons]
      by_cases hk : k ∈ entries.map Entry.key
      · rw [if_pos hk, if_pos (List.mem_cons_of_mem _ hk)]
      · rw [if_neg hk]
        by_cases he : k = e.key
        · subst he
          rw [AList.lookup_insert, if_pos (List.mem_cons_self ..), hs, Option.map_some]
        · rw [AList.lookup_insert_ne he, if_neg (by simp [he, hk])]

theorem mem_entries {e : Entry} :
    e ∈ m.entries ↔ m.stored.lookup e.key = some e.manifest := by
  rw [Manager.entries, List.mem_insertionSort, List.mem_map, ← Option.mem_def,
    AList.mem_lookup_iff]
  constructor
  · rintro ⟨f, hf, rfl⟩
    exact hf
  · intro he
    exact ⟨_, he, rfl⟩

/-- **Rehydration** of a store of restorable entries. -/
theorem rehydrate_restorable
    (h : ∀ k manifest, m.stored.lookup k = some manifest → Restorable k manifest) :
    let after := rehydratePersistedCache L jsonText m
    after.manager.stored = m.stored ∧ after.registered = m.stored.entries.length ∧
    after.problems = [] ∧
    ∀ k manifest, m.stored.lookup k = some manifest →
      after.manager.specs.lookup k = some (manifest.job L) := by
  have hfold : ∀ e ∈ m.entries, Restorable e.key e.manifest ∧
      m.stored.lookup e.key = some e.manifest :=
    fun e he => ⟨h _ _ (mem_entries.mp he), mem_entries.mp he⟩
  intro after
  have hafter : after = m.entries.foldl (Rehydrated.step L jsonText) ⟨m, 0, []⟩ := rfl
  obtain ⟨hstored, hregistered, hproblems, hspecs⟩ := foldl_step m.entries ⟨m, 0, []⟩ hfold
  rw [hafter]
  refine ⟨hstored, hregistered.trans ?_, hproblems, fun k manifest hk => (hspecs k).trans ?_⟩
  · rw [Nat.zero_add, Manager.entries, List.length_insertionSort, List.length_map]
  · have hmem : k ∈ m.entries.map Entry.key :=
      List.mem_map.mpr ⟨⟨k, manifest.descriptor, manifest.ttlSeconds⟩, mem_entries.mpr hk, rfl⟩
    rw [if_pos hmem, hk, Option.map_some]

/-! ## Entries published from catalog requests -/

/-- A catalog request: what `newCacheSpec` is called with. -/
structure Source where
  provider : Provider
  endpoint : Bytes
  target : URL
  headers : Values

/-- Its spec. -/
def Source.spec (L : Library) (s : Source) : Spec :=
  newCacheSpec L s.provider s.endpoint s.target s.headers

/-- The query of its target. -/
def Source.query (s : Source) : Values := (Values.parse s.target.rawQuery).1

/-- A cacheable request whose spec may be published. -/
structure Source.Admissible (L : Library) (jsonText : Bytes → Bytes) (s : Source) : Prop where
  /-- the id of the provider was read from JSON -/
  text : jsonText s.provider.id = s.provider.id
  noColon : colon ∉ s.provider.id
  cacheable : isCacheable s.endpoint s.query = true
  /-- the duration fits in an `int64`: the admin application allows at most 24 hours -/
  fits : (s.spec L).ttl = s.provider.cacheDurationHours * hour
  positive : 0 < (s.spec L).ttl
  valid : validateSpec (s.spec L) = true

/-- The stored manifest of a source. -/
def Source.publishedManifest (L : Library) (jsonText : Bytes → Bytes) (s : Source) : Manifest :=
  ⟨(s.spec L).descriptor.persisted jsonText, (s.spec L).ttl / second⟩

/-- The manager after publishing generations of these sources one after the other. -/
def publishAll (L : Library) (jsonText : Bytes → Bytes) (sources : List Source) : Manager :=
  sources.foldl (fun m s => m.publish jsonText (s.spec L)) ⟨∅, [], ∅⟩

/-- A new process: Redis is as it was, with whatever locks are left, and there are no jobs. -/
def Manager.restarted (m : Manager) (locked : List Bytes) : Manager := ⟨m.stored, locked, ∅⟩

theorem publishAll_concat (sources : List Source) (s : Source) :
    (publishAll L jsonText (sources ++ [s])).stored =
      (publishAll L jsonText sources).stored.insert (s.spec L).key (s.publishedManifest L jsonText) := by
  rw [publishAll, List.foldl_append]
  rfl

/-- What is stored was published. -/
theorem exists_source {sources : List Source} {k : Bytes}
    (h : (publishAll L jsonText sources).stored.lookup k = some manifest) :
    ∃ s ∈ sources, k = (s.spec L).key ∧ manifest = s.publishedManifest L jsonText := by
  induction sources using List.reverseRecOn with
  | nil => simp [publishAll] at h
  | append_singleton sources s ih =>
    rw [publishAll_concat] at h
    by_cases hk : k = (s.spec L).key
    · subst hk
      rw [AList.lookup_insert] at h
      exact ⟨s, by simp, rfl, (Option.some.inj h).symm⟩
    · rw [AList.lookup_insert_ne hk] at h
      obtain ⟨s', hs', hrest⟩ := ih h
      exact ⟨s', List.mem_append_left _ hs', hrest⟩

/-- What was published is stored. -/
theorem stored_of_source {sources : List Source} {s : Source} (h : s ∈ sources) :
    ∃ manifest, (publishAll L jsonText sources).stored.lookup (s.spec L).key = some manifest := by
  induction sources using List.reverseRecOn with
  | nil => cases h
  | append_singleton sources s' ih =>
    rw [publishAll_concat]
    by_cases hk : (s.spec L).key = (s'.spec L).key
    · rw [hk, AList.lookup_insert]
      exact ⟨_, rfl⟩
    · rw [AList.lookup_insert_ne hk]
      rcases List.mem_append.mp h with h | h
      · exact ih h
      · obtain rfl := List.mem_singleton.mp h
        exact absurd rfl hk

/-- The JSON of a descriptor keeps what the key is made of. -/
theorem persisted_source (hjson : ∀ t : Bytes, (∀ c ∈ t, c.val < 128) → jsonText t = t) {s : Source}
    (hs : s.Admissible L jsonText) :
    (s.publishedManifest L jsonText).descriptor.providerID = s.provider.id ∧
    (s.publishedManifest L jsonText).descriptor.endpoint = s.endpoint ∧
    (s.publishedManifest L jsonText).descriptor.query = (withoutCredentials s.query).encode := by
  have hendpoints : ∀ e ∈ [ascii "xmltv.php", ascii "get.php", ascii "player_api.php"],
      e.Forall fun c => c.val < 128 := by decide
  exact ⟨hs.text,
    hjson _ (List.forall_iff_forall_mem.mp (hendpoints _ (endpoint_of_isCacheable hs.cacheable))),
    hjson _ fun c hc => (encode_bytes _ c hc).1⟩

theorem key_spec (s : Source) : (s.spec L).key = (s.spec L).descriptor.cacheKey := rfl

/-- The lifetime survives. -/
theorem ttl_source {s : Source} (hs : s.Admissible L jsonText) :
    int64 ((s.publishedManifest L jsonText).ttlSeconds * second) = (s.spec L).ttl := by
  have hwhole : (s.spec L).ttl / second * second = (s.spec L).ttl := by
    rw [hs.fits, hour, ← Int.mul_assoc, Int.mul_ediv_cancel _ (by decide)]
  have hint : int64 (s.spec L).ttl = (s.spec L).ttl := Int.bmod_bmod
  rw [Source.publishedManifest, hwhole, hint]

/-- Published entries are restorable. -/
theorem restorable_source (hjson : ∀ t : Bytes, (∀ c ∈ t, c.val < 128) → jsonText t = t)
    {s : Source} (hs : s.Admissible L jsonText) :
    Restorable (s.spec L).key (s.publishedManifest L jsonText) := by
  obtain ⟨hid, hendpoint, hquery⟩ := persisted_source hjson hs
  have hvalid := hs.valid
  rw [validateSpec, decide_eq_true_eq] at hvalid
  refine ⟨?_, ?_, ?_, ?_, ?_⟩
  · rw [key_spec, Descriptor.cacheKey, Descriptor.cacheKey, hid, hendpoint, hquery]
    rfl
  · rw [hid]
    exact hvalid.1
  · rw [hendpoint, hquery, Values.parse_encode, isCacheable_same Values.sorted_same,
      isCacheable_withoutCredentials]
    exact hs.cacheable
  · rw [hquery, Values.parse_encode]
  · rw [ttl_source hs]
    exact hs.positive

/-- Sources with one key have the same provider, endpoint and query. -/
theorem same_source {s s' : Source} (hs : s.Admissible L jsonText) (hs' : s'.Admissible L jsonText)
    (h : (s.spec L).key = (s'.spec L).key) : s.provider.id = s'.provider.id ∧
      s.endpoint = s'.endpoint ∧
      (withoutCredentials s.query).encode = (withoutCredentials s'.query).encode :=
  (show _ → _ from cacheKey_injective hs.noColon hs'.noColon (colon_not_mem_endpoint hs.cacheable)
    (colon_not_mem_endpoint hs'.cacheable)) h

/-- The query with the credentials of a provider. -/
def withCredentials (p : Provider) (q : Values) : Values :=
  (q.set (ascii "username") p.upstreamUsername).set (ascii "password") p.upstreamPassword

theorem withCredentials_congr {p : Provider} {v w : Values}
    (h : ∀ k, k ∉ credentialKeys → v.values k = w.values k) :
    (withCredentials p v).encode = (withCredentials p w).encode := by
  refine Values.encode_congr fun k => ?_
  rw [withCredentials, withCredentials]
  by_cases hp : k = ascii "password"
  · rw [hp, Values.values_set_self, Values.values_set_self]
  · rw [Values.values_set_ne hp, Values.values_set_ne hp]
    by_cases hu : k = ascii "username"
    · rw [hu, Values.values_set_self, Values.values_set_self]
    · rw [Values.values_set_ne hu, Values.values_set_ne hu]
      exact h k (by simp [mem_credentialKeys, hu, hp])

/-- **The request of a job**: the provider as it is now, the endpoint at its host, and the query
with its credentials. -/
structure Requests (L : Library) (s : Source) (providers : List Provider) (t : Target) : Prop where
  /-- the provider of this id -/
  provider : Resolver.providerByID providers s.provider.id = .ok t.provider
  /-- the endpoint at its host, and the query with its credentials -/
  url : ∃ base, L.parseURL (trimSuffixSlash t.provider.host ++ slash :: trimPrefixSlash s.endpoint) =
    some base ∧ t.url = { base with rawQuery := (withCredentials t.provider s.query).encode }

/-- What a descriptor of a source fetches. -/
theorem targetFromCacheDescriptor_source {s : Source} {d : Descriptor} {providers : List Provider}
    (hid : d.providerID = s.provider.id) (hendpoint : d.endpoint = s.endpoint)
    (hquery : d.query = (withoutCredentials s.query).encode) :
    (∀ t, targetFromCacheDescriptor L providers d = .ok t → Requests L s providers t) ∧
    ∀ p base, Resolver.providerByID providers s.provider.id = .ok p →
      L.parseURL (trimSuffixSlash p.host ++ slash :: trimPrefixSlash s.endpoint) = some base →
      ∃ t, targetFromCacheDescriptor L providers d = .ok t := by
  have hcredentials : ∀ p : Provider, (withCredentials p (withoutCredentials s.query).sorted).encode =
      (withCredentials p s.query).encode := fun p => withCredentials_congr fun k hk => by
    rw [Values.sorted_same k, values_withoutCredentials, if_neg hk]
  rw [targetFromCacheDescriptor, hid, hendpoint, hquery, Values.parse_encode]
  constructor
  · intro t ht
    split at ht
    · cases ht
    next p hp =>
    split at ht
    · cases ht
    next base hbase =>
    obtain rfl := Except.ok.inj ht
    exact ⟨hp, base, hbase, congrArg (fun q => ({ base with rawQuery := q } : URL)) (hcredentials p)⟩
  · intro p base hp hbase
    rw [hp]
    dsimp only
    rw [hbase]
    exact ⟨_, rfl⟩

/-- Two jobs that fetch from the same place. -/
theorem fetch_congr {d d' : Descriptor} (hid : d.providerID = d'.providerID)
    (hendpoint : d.endpoint = d'.endpoint) (hquery : d.query = d'.query) (providers : List Provider) :
    (targetFromCacheDescriptor L providers d).map Target.url =
      (targetFromCacheDescriptor L providers d').map Target.url := by
  rw [targetFromCacheDescriptor, targetFromCacheDescriptor, hid, hendpoint, hquery]
  rcases Resolver.providerByID providers d'.providerID with e | p
  · rfl
  dsimp only
  rcases L.parseURL (trimSuffixSlash p.host ++ slash :: trimPrefixSlash d'.endpoint) with _ | base
  · rfl
  rcases Values.parse d'.query with ⟨q, _ | _⟩ <;> rfl

/-- **A restart loses no refresh knowledge.** After a restart, the pass over the entries published
from catalog requests removes none and reports no problem. It registers each entry under exactly
its key, with its lifetime. For any providers at the time of a refresh, the rebuilt job sends the
request of the original job: to the endpoint at the provider's host, with the query of the original
target and the provider's credentials. -/
theorem restart_restores (hjson : ∀ t : Bytes, (∀ c ∈ t, c.val < 128) → jsonText t = t)
    (sources : List Source) (hsources : ∀ s ∈ sources, s.Admissible L jsonText)
    (locked : List Bytes) :
    let before := (publishAll L jsonText sources).restarted locked
    let after := rehydratePersistedCache L jsonText before
    after.manager.stored = before.stored ∧ after.problems = [] ∧
    after.registered = before.stored.entries.length ∧
    (∀ key ∈ before.stored, ∃ spec, after.manager.specs.lookup key = some spec ∧ spec.key = key ∧
      ∃ s ∈ sources, spec.ttl = (s.spec L).ttl) ∧
    ∀ s ∈ sources, ∃ spec, after.manager.specs.lookup (s.spec L).key = some spec ∧
      ∀ providers,
        (spec.fetch providers).map Target.url = ((s.spec L).fetch providers).map Target.url ∧
        (∀ t, spec.fetch providers = .ok t → Requests L s providers t) ∧
        ∀ p base, Resolver.providerByID providers s.provider.id = .ok p →
          L.parseURL (trimSuffixSlash p.host ++ slash :: trimPrefixSlash s.endpoint) = some base →
          ∃ t, spec.fetch providers = .ok t := by
  intro before after
  have hrestorable : ∀ k manifest, before.stored.lookup k = some manifest →
      Restorable k manifest := by
    intro k manifest hk
    obtain ⟨s, hs, rfl, rfl⟩ := exists_source hk
    exact restorable_source hjson (hsources s hs)
  have hpass : _ ∧ after.registered = _ ∧ after.problems = [] ∧ _ :=
    rehydrate_restorable hrestorable
  obtain ⟨hstored, hregistered, hproblems, hspecs⟩ := hpass
  refine ⟨hstored, hproblems, hregistered, fun key hkey => ?_, fun s hs => ?_⟩
  · obtain ⟨manifest, hk⟩ := Option.isSome_iff_exists.mp (AList.lookup_isSome.mpr hkey)
    obtain ⟨s, hs, -, hmanifest⟩ := exists_source hk
    refine ⟨_, hspecs key manifest hk, (hrestorable key manifest hk).key_eq.symm, s, hs, ?_⟩
    rw [hmanifest]
    exact ttl_source (hsources s hs)
  · obtain ⟨manifest, hk⟩ : ∃ manifest, before.stored.lookup (s.spec L).key = some manifest :=
      stored_of_source hs
    refine ⟨_, hspecs _ manifest hk, fun providers => ?_⟩
    -- the entry may have been published last from another source with this key
    obtain ⟨s', hs', hkeys, rfl⟩ := exists_source hk
    obtain ⟨hid, hendpoint, hquery⟩ := same_source (hsources s hs) (hsources s' hs') hkeys
    obtain ⟨hid', hendpoint', hquery'⟩ := persisted_source hjson (hsources s' hs')
    exact ⟨fetch_congr (hid'.trans hid.symm) (hendpoint'.trans hendpoint.symm)
      (hquery'.trans hquery.symm) providers, targetFromCacheDescriptor_source (hid'.trans hid.symm)
        (hendpoint'.trans hendpoint.symm) (hquery'.trans hquery.symm)⟩

/-- A provider whose host has no path. -/
def restartLibrary : Library :=
  { asciiLibrary with
    parseURL := fun s => if s = ascii "http://upstream/player_api.php" then
      some ⟨ascii "http", ascii "upstream", ascii "/player_api.php", []⟩ else none }

/-- The series catalog of this provider. -/
def seriesSource : Source where
  provider := sampleProvider [sampleUser "1" "bob" "a"]
  endpoint := ascii "player_api.php"
  target := ⟨ascii "http", ascii "upstream", ascii "/player_api.php",
    ascii "action=get_series&password=SECRET&username=UP"⟩
  headers := []

/-- The job of the series catalog is restored. -/
theorem restart_restores_series :
    let after := rehydratePersistedCache restartLibrary (fun t => t)
      ((publishAll restartLibrary (fun t => t) [seriesSource]).restarted [])
    after.problems = [] ∧
    ∃ spec, after.manager.specs.lookup (seriesSource.spec restartLibrary).key = some spec ∧
      ∃ t, spec.fetch [seriesSource.provider] = .ok t ∧
        Requests restartLibrary seriesSource [seriesSource.provider] t := by
  have hadmissible : seriesSource.Admissible restartLibrary fun t => t := by
    constructor <;> decide
  have hsources : ∀ s ∈ [seriesSource], s.Admissible restartLibrary fun t => t :=
    fun s hs => List.mem_singleton.mp hs ▸ hadmissible
  obtain ⟨-, hproblems, -, -, hjobs⟩ := restart_restores (fun t _ => rfl) [seriesSource] hsources []
  obtain ⟨spec, hspec, hfetch⟩ := hjobs seriesSource (List.mem_singleton_self _)
  obtain ⟨-, hrequests, hok⟩ := hfetch [seriesSource.provider]
  obtain ⟨t, ht⟩ := hok seriesSource.provider
    ⟨ascii "http", ascii "upstream", ascii "/player_api.php", []⟩ rfl (by decide)
  exact ⟨hproblems, spec, hspec, t, ht, hrequests t ht⟩

end IptvProxy.Catalog
