import Mathlib.Data.Int.Notation
import Mathlib.Data.List.Basic

/-!
# The data of the metadata cache

The records of `internal/cache/manager.go`: descriptors, specs, responses, manifests and the
errors its operations return. Durations and clock readings are nanoseconds; a `time.Duration` is
an integer (it may be zero or negative, and `TTL <= 0` is a branch of the source), a clock reading
a natural number. Go strings that are map keys stay strings.

`Spec.Fetch` is a Go closure. Which response it returns is the environment's choice at the step
that calls it, so the model keeps only whether it is non-nil, which is what `validateSpec` reads.
-/

namespace IptvProxy.Cache

/-! ## Durations -/

/-- `time.Second` in nanoseconds. -/
def second : ℕ := 1000000000

/-- `time.Minute` in nanoseconds. -/
def minute : ℕ := 60 * second

/-- `time.Hour` in nanoseconds. -/
def hour : ℕ := 60 * minute

/-- Bodies are stored in pieces of eight mebibytes. -/
def bodyChunkSize : ℕ := 8 * 1024 * 1024

/-- The deadline a replacement gives its context. -/
def fetchTimeout : ℕ := 30 * minute

/-- How long a replacement lock survives its owner. -/
def lockTTL : ℕ := 35 * minute

/-- Expiry of the chunks of a generation that is not published yet. -/
def stagingGenerationTTL : ℕ := 2 * hour

/-- Expiry given to a retired generation that waits for its readers. -/
def retiredGenerationFallbackTTL : ℕ := hour

theorem fetchTimeout_lt_lockTTL : fetchTimeout < lockTTL := by decide

/-- `Time.Unix`: whole seconds. -/
def unix (now : ℕ) : ℤ := now / second

/-! ## Errors -/

/-- The errors the cache operations return. -/
inductive Error where
  /-- a Redis command failed, or its context had ended -/
  | redis
  /-- `spec.Fetch` failed -/
  | fetch
  /-- `ErrCacheUnavailable` -/
  | cacheUnavailable
  /-- `ErrReplacementInProgress` -/
  | replacementInProgress
  /-- `ErrSuspiciousEmptyReplacement` -/
  | suspiciousEmptyReplacement
  /-- the publish script found a staged chunk missing -/
  | missingStagedChunk
  /-- chunk `index` of `count` could not be read -/
  | readChunk (index count : ℕ)
  /-- the key has no `iptv:cache:` prefix -/
  | invalidCacheKey
  /-- `Spec.Fetch` is nil -/
  | fetchRequired
  /-- the descriptor names no provider or no endpoint -/
  | descriptorRequired
  /-- `replaceNow` found no spec for the key -/
  | noRegistration
  /-- `MigrateLegacy` with a spec whose TTL is not positive -/
  | migrateDisabled
  deriving DecidableEq, Repr

/-- The text of an error, as the source spells it; a Redis or provider error carries the text of
the failing call, which the model does not know. -/
def Error.text : Error → String
  | redis => "redis"
  | fetch => "fetch"
  | cacheUnavailable => "cache unavailable; refill started"
  | replacementInProgress => "cache replacement already in progress"
  | suspiciousEmptyReplacement =>
    "provider returned an empty catalog; existing non-empty cache was preserved"
  | missingStagedChunk => "missing staged cache chunk"
  | readChunk index count => s!"read cache chunk {index}/{count}"
  | invalidCacheKey => "invalid cache key"
  | fetchRequired => "cache fetch function is required"
  | descriptorRequired => "cache descriptor provider and endpoint are required"
  | noRegistration => "cache entry has no active fetch registration"
  | migrateDisabled => "cannot migrate a disabled cache entry"

/-! ## Requests -/

/-- The recipe of a cached request, persisted with its entry. -/
structure Descriptor where
  /-- `providerId` -/
  providerID : String
  /-- `endpoint` -/
  endpoint : String
  /-- the encoded query without credentials -/
  query : String
  /-- request headers to send upstream -/
  headers : List (String × String)
  deriving DecidableEq, Repr

/-- The prefix of every manifest key. -/
def cacheKeyPrefix : String := "iptv:cache:"

/-- The Redis key of a descriptor's manifest. -/
def Descriptor.cacheKey (d : Descriptor) : String :=
  let key := cacheKeyPrefix ++ d.providerID ++ ":" ++ d.endpoint
  if d.query ≠ "" then key ++ ":" ++ d.query else key

/-- A cacheable request: its key, the configured lifetime and the recipe. -/
structure Spec where
  /-- the manifest key; empty means "derive it from the descriptor" -/
  key : String
  /-- the configured cache lifetime -/
  ttl : ℤ
  /-- the recipe -/
  descriptor : Descriptor
  /-- whether `Fetch` is non-nil -/
  hasFetch : Bool
  deriving DecidableEq, Repr

/-- Fill in the key. -/
def Spec.normalized (s : Spec) : Spec :=
  if s.key = "" then { s with key := s.descriptor.cacheKey } else s

/-- `strings.HasPrefix(key, "iptv:cache:")`. -/
def hasCachePrefix (key : String) : Bool := cacheKeyPrefix.isPrefixOf key

/-- The error of a malformed spec, checked in the source's order. -/
def validateSpec (s : Spec) : Option Error :=
  if s.hasFetch = false then some .fetchRequired
  else if s.descriptor.providerID = "" ∨ s.descriptor.endpoint = "" then some .descriptorRequired
  else if hasCachePrefix s.key = false then some .invalidCacheKey
  else none

/-! ## Responses and manifests -/

/-- A response body. -/
abbrev Body : Type := List UInt8

/-- What `Fetch` returns and what a cache hit hands out. The `release` closure of a hit is part of
the thread that holds the lease, see `Thread.lease`. -/
structure Response where
  /-- HTTP status -/
  status : ℤ
  /-- `Content-Type` -/
  contentType : String
  /-- the bytes -/
  body : Body
  /-- number of catalog items, if known -/
  itemCount : ℤ
  /-- whether `itemCount` means anything -/
  itemCountKnown : Bool
  deriving DecidableEq, Repr

/-- `entryMeta`. -/
structure EntryMeta where
  /-- publication time in seconds -/
  fetchedAt : ℤ
  /-- end of the configured lifetime in seconds -/
  expiresAt : ℤ
  /-- the lifetime the entry was published with -/
  ttlSeconds : ℤ
  /-- length of the body -/
  sizeBytes : ℕ
  /-- number of catalog items, if known -/
  itemCount : ℤ
  /-- whether `itemCount` means anything -/
  itemCountKnown : Bool
  deriving DecidableEq, Repr

/-- The hash a manifest key holds. A legacy entry has no generation (`none`, the empty string of
the source) and its body inline. -/
structure Manifest where
  /-- HTTP status -/
  status : ℤ
  /-- `Content-Type` -/
  contentType : String
  /-- `meta` -/
  info : EntryMeta
  /-- `descriptor` -/
  descriptor : Descriptor
  /-- the generation whose chunks hold the body -/
  generation : Option ℕ
  /-- how many chunks it has -/
  chunkCount : ℕ
  deriving DecidableEq, Repr

/-- The generation a manifest points to, when it has chunks: the test
`Generation != "" && ChunkCount > 0` that guards every lease and every retirement. -/
def Manifest.pinned (m : Manifest) : Option ℕ :=
  if 0 < m.chunkCount then m.generation else none

/-- The response a manifest and a body make. -/
def Manifest.response (m : Manifest) (body : Body) : Response where
  status := m.status
  contentType := m.contentType
  body := body
  itemCount := m.info.itemCount
  itemCountKnown := m.info.itemCountKnown

/-! ## Chunks -/

/-- The number of chunks of a body. `writeGeneration` returns early for an empty one. -/
def chunkCount (body : Body) : ℕ :=
  if body.length = 0 then 0 else (body.length + bodyChunkSize - 1) / bodyChunkSize

/-- `body[i*bodyChunkSize : min((i+1)*bodyChunkSize, len(body))]`. -/
def bodyChunk (body : Body) (i : ℕ) : Body := (body.drop (i * bodyChunkSize)).take bodyChunkSize

/-! ## Delays -/

/-- `spec.TTL * refreshThreshold`, with 0.30 taken as exact. -/
def refreshThreshold (ttl : ℤ) : ℤ := ttl * 3 / 10

/-- The delay `scheduleAtThreshold` arms: 70 % of the lifetime. -/
def thresholdDelay (ttl : ℤ) : ℤ := ttl * 7 / 10

/-- The delay `scheduleFromMeta` arms at time `now`. -/
def delayFromMeta (ttl : ℤ) (info : EntryMeta) (now : ℕ) : ℤ :=
  max 0 (info.expiresAt * second - now - refreshThreshold ttl)

/-- The delay after a failed refresh: a twentieth of the lifetime, between one and five minutes. -/
def retryDelay (ttl : ℤ) : ℤ :=
  let delay := ttl.tdiv 20
  if delay < minute then minute
  else if delay > 5 * minute then 5 * minute
  else delay

/-! ## Chunk lemmas -/

theorem bodyChunkSize_pos : 0 < bodyChunkSize := by decide

@[simp] theorem chunkCount_nil : chunkCount [] = 0 := rfl

theorem chunkCount_pos {body : Body} (h : body ≠ []) : 0 < chunkCount body := by
  have hlen : 0 < body.length := List.length_pos_iff.mpr h
  unfold chunkCount
  rw [if_neg (Nat.ne_of_gt hlen)]
  apply Nat.div_pos
  · omega
  · exact bodyChunkSize_pos

/-- The chunks reach the end of the body. -/
theorem length_le_chunkCount_mul (body : Body) :
    body.length ≤ chunkCount body * bodyChunkSize := by
  unfold chunkCount
  split
  · omega
  · have h := Nat.div_add_mod (body.length + bodyChunkSize - 1) bodyChunkSize
    have hmod := Nat.mod_lt (body.length + bodyChunkSize - 1) bodyChunkSize_pos
    have hpos := bodyChunkSize_pos
    rw [Nat.mul_comm]
    omega

/-- The first `i` chunks of a body in order. -/
def chunkPrefix (body : Body) : ℕ → Body
  | 0 => []
  | i + 1 => chunkPrefix body i ++ bodyChunk body i

theorem chunkPrefix_eq_take (body : Body) (i : ℕ) :
    chunkPrefix body i = body.take (i * bodyChunkSize) := by
  induction i with
  | zero => simp [chunkPrefix]
  | succ i ih => rw [chunkPrefix, ih, bodyChunk, Nat.succ_mul, List.take_add]

/-- **Chunking loses nothing**: all chunks together are the body, whatever its length. -/
theorem chunkPrefix_chunkCount (body : Body) : chunkPrefix body (chunkCount body) = body := by
  rw [chunkPrefix_eq_take, List.take_of_length_le (length_le_chunkCount_mul body)]

end IptvProxy.Cache
