import IptvProxy.Lib.GenerationStore
import IptvProxy.Cache.Types

/-!
# Program points of the cache operations

The state of one Redis shared by processes `P`, each with one `Manager`, and the operations in
flight. An operation is a thread whose program point `Pc` says which command, mutex section or
provider call it executes next, with the locals the source has there. A program point that runs a
loop or a deferred call carries the point that follows it, so the order of the source's deferred
calls can be read off the constructors.

One step is one Redis command, one section under `mu`, one `Fetch` or one reading of the clock.
`Remove` is the only section with two commands under `mu`; it holds the mutex between them
(`Manager.mu`). `emit` only reads the event sink and is left out.
-/

namespace IptvProxy.Cache

/-! ## Redis -/

/-- A manifest key's hash: the manifest fields and the inline body of a legacy entry. -/
structure Hash where
  /-- the six manifest fields -/
  manifest : Manifest
  /-- the field `body` -/
  body : Option Body
  deriving DecidableEq

/-- `bodyKey(key, generation, index)`. The source hashes the key; different keys have different
hashes here. -/
abbrev ChunkKey : Type := GenerationStore.Chunk String

/-- The three kinds of keys the cache uses. Their prefixes differ, so they never collide. -/
structure Redis where
  /-- `iptv:cache:…` -/
  hash : String → Option Hash
  /-- `iptv:cache-body:…` -/
  chunks : ExpiringMap ChunkKey Body
  /-- `iptv:cache-lock:…`, by the manifest key; the value is the owner's operation id -/
  locks : ExpiringMap String ℕ

/-- How a command ends: it took effect and the client knows, it had no effect and the client got
an error, or it took effect but its reply was lost and the client got an error. -/
inductive Outcome where
  /-- executed, reply received -/
  | ok
  /-- not executed -/
  | fail
  /-- executed, reply lost -/
  | lost
  deriving DecidableEq, Repr

/-- The command was executed by the server. -/
def Outcome.applied : Outcome → Bool
  | .fail => false
  | _ => true

/-- The client received the reply. -/
def Outcome.replied : Outcome → Bool
  | .ok => true
  | _ => false

theorem Outcome.eq_ok {o : Outcome} (h : o.replied = true) : o = .ok := by
  cases o <;> first | rfl | cases h

theorem Outcome.applied_of_replied {o : Outcome} (h : o.replied = true) : o.applied = true := by
  rw [eq_ok h]
  rfl

theorem Outcome.eq_fail {o : Outcome} (h : ¬ o.applied = true) : o = .fail := by
  cases o <;> first | rfl | exact absurd rfl h

theorem Outcome.eq_lost {o : Outcome} (h : o.applied = true) (hr : o.replied = false) :
    o = .lost := by
  cases o with
  | ok => cases hr
  | fail => cases h
  | lost => rfl

/-- `loadManifest`. -/
def Redis.loadManifest (r : Redis) (key : String) : Option Manifest :=
  (r.hash key).map Hash.manifest

/-! ## Managers -/

/-- A generation that waits for its readers. -/
structure RetiredGeneration where
  /-- the manifest key -/
  key : String
  /-- the generation -/
  generation : ℕ
  /-- how many chunks it has -/
  chunkCount : ℕ
  /-- the descriptor it was retired with -/
  descriptor : Descriptor
  deriving DecidableEq

/-- A timer of the `timers` map. It stays in the map after it has fired. -/
structure Timer where
  /-- what the callback refreshes -/
  spec : Spec
  /-- when it fires -/
  due : ℕ
  /-- it has neither fired nor been stopped -/
  pending : Bool
  deriving DecidableEq

/-- `generationLeaseKey(key, generation)`. -/
abbrev LeaseKey : Type := String × ℕ

/-- The memory of one process. An absent `readers` entry is a zero. -/
structure Manager where
  /-- the thread that holds `mu` across two commands -/
  mu : Option ℕ
  /-- the refresh timers -/
  timers : String → Option Timer
  /-- the registered specs -/
  specs : String → Option Spec
  /-- how many requests use a generation -/
  readers : LeaseKey → ℕ
  /-- generations to delete at their last release -/
  retired : LeaseKey → Option RetiredGeneration

/-- `NewManager`. -/
def newManager : Manager where
  mu := none
  timers := fun _ => none
  specs := fun _ => none
  readers := fun _ => 0
  retired := fun _ => none

/-- `registerIfAbsent`: the spec in force for the key, and the memory after it. -/
def Manager.registerIfAbsent (m : Manager) (spec : Spec) : Spec × Manager :=
  match m.specs spec.key with
  | some existing => (existing, m)
  | none => (spec, { m with specs := Function.update m.specs spec.key (some spec) })

/-- `register`. -/
def Manager.register (m : Manager) (spec : Spec) : Manager :=
  { m with specs := Function.update m.specs spec.key (some spec) }

/-- `schedule` at time `now`: an existing timer of the key is stopped and replaced. -/
def Manager.schedule (m : Manager) (now : ℕ) (spec : Spec) (delay : ℤ) : Manager :=
  { m with timers := Function.update m.timers spec.key (some ⟨spec, now + delay.toNat, true⟩) }

/-- Stop the timer of a key and forget the key. -/
def Manager.forget (m : Manager) (key : String) : Manager :=
  { m with
    timers := Function.update m.timers key none
    specs := Function.update m.specs key none }

/-- Take a lease. -/
def Manager.pin (m : Manager) (lease : LeaseKey) : Manager :=
  { m with readers := Function.update m.readers lease (m.readers lease + 1) }

/-- The mutex section of `releaseGenerationReader`: the memory after it and the generation the
caller has to clean up. -/
def Manager.unpin (m : Manager) (lease : LeaseKey) : Manager × Option RetiredGeneration :=
  if 1 < m.readers lease then
    ({ m with readers := Function.update m.readers lease (m.readers lease - 1) }, none)
  else
    ({ m with
        readers := Function.update m.readers lease 0
        retired := Function.update m.retired lease none },
      m.retired lease)

/-- Record a generation that waits for its readers. -/
def Manager.retire (m : Manager) (r : RetiredGeneration) : Manager :=
  { m with retired := Function.update m.retired (r.key, r.generation) (some r) }

/-! ## Program points -/

/-- Who runs a replacement. -/
inductive Operation where
  /-- `refillMissing` -/
  | fill
  /-- `Warm` -/
  | warm
  /-- `Purge` -/
  | purge
  /-- a timer callback -/
  | refresh
  /-- `MigrateLegacy` from the given old key -/
  | migrate (oldKey : String)
  deriving DecidableEq, Repr

/-- How an operation ends. -/
inductive Result where
  /-- `nil` -/
  | ok
  /-- an error -/
  | error (e : Error)
  /-- a response and the flag `fromCache` -/
  | response (r : Response) (hit : Bool)
  deriving DecidableEq, Repr

/-- The locals of a replacement: its spec, the operation and its id, and the manifest it read
under the lock (`oldManifest, oldFound`). -/
structure Job where
  /-- what is replaced -/
  spec : Spec
  /-- who runs it -/
  operation : Operation
  /-- the value of the lock -/
  opID : ℕ
  /-- the manifest to retire -/
  old : Option Manifest
  deriving DecidableEq

/-- The locals of `publish`: the new generation and the response to publish. -/
structure Staged where
  /-- the new generation -/
  generation : ℕ
  /-- what is published -/
  response : Response
  deriving DecidableEq

/-- The callers of `get`. -/
inductive GetCaller where
  /-- `GetOrFetch` -/
  | getOrFetch (spec : Spec)
  /-- `MigrateLegacy` to the given spec -/
  | migrate (spec : Spec)
  deriving DecidableEq

/-- The spec a caller of `get` works with. -/
def GetCaller.spec : GetCaller → Spec
  | .getOrFetch spec => spec
  | .migrate spec => spec

/-- The next thing an operation executes. -/
inductive Pc where
  /-- `GetOrFetch` with a disabled cache: `spec.Fetch` -/
  | bypass (spec : Spec)
  /-- `get`: manifest selection and pin under `mu` -/
  | get (key : String) (caller : GetCaller)
  /-- `get`: `HGET body` of a legacy entry -/
  | getBody (key : String) (m : Manifest) (caller : GetCaller)
  /-- `readGeneration`: `GET` of chunk `i`, with the bytes read so far -/
  | getChunk (key : String) (m : Manifest) (generation : ℕ) (buffer : Body) (i : ℕ)
      (caller : GetCaller)
  /-- `releaseGenerationReader`: the section under `mu` -/
  | releaseReader (key : String) (generation : ℕ) (next : Pc)
  /-- `cleanupGeneration`: `DEL` of chunk `i`, in the background or under the caller's context -/
  | cleanup (key : String) (generation chunkCount i : ℕ) (background : Bool) (next : Pc)
  /-- `expireGenerationFallback`: `EXPIRE` of chunk `i` -/
  | expire (key : String) (generation chunkCount i : ℕ) (background : Bool) (next : Pc)
  /-- `GetOrFetch`: `registerIfAbsent` and what follows it, with the result of `get` -/
  | getRegister (spec : Spec) (found : Option (Manifest × Response))
  /-- `scheduleFromMeta`: read the clock -/
  | scheduleFromMeta (spec : Spec) (info : EntryMeta) (next : Pc)
  /-- `schedule` under `mu` -/
  | schedule (spec : Spec) (delay : ℤ) (next : Pc)
  /-- the goroutine of `refillMissing`: create its context -/
  | refillMissing (spec : Spec)
  /-- `Register`: `loadManifest` -/
  | registerLoad (spec : Spec) (next : Pc)
  /-- `Register`: `register` under `mu` -/
  | register (spec : Spec) (info : EntryMeta) (next : Pc)
  /-- `Warm`: `registerIfAbsent` under `mu` -/
  | warm (spec : Spec)
  /-- `replaceNow`: look the spec up under `mu` -/
  | replaceNow (key : String)
  /-- `acquire`: `SET NX` of the replacement lock -/
  | acquire (spec : Spec) (operation : Operation)
  /-- `replaceWithSpec` and `refillMissing`: `loadManifest` under the lock -/
  | loadOld (job : Job)
  /-- `spec.Fetch` is running -/
  | fetch (job : Job)
  /-- `writeGeneration`: `SET` of chunk `i` -/
  | writeChunk (job : Job) (staged : Staged) (i : ℕ)
  /-- `publish`: read the clock for the metadata -/
  | stamp (job : Job) (staged : Staged)
  /-- `publish`: the script and the retirement decision under `mu` -/
  | swap (job : Job) (staged : Staged) (fetchedAt : ℕ)
  /-- `release`: compare-and-delete of the lock -/
  | unlock (key : String) (opID : ℕ) (next : Pc)
  /-- `Remove`: `acquire` -/
  | removeAcquire (key : String)
  /-- `Remove`: lock `mu`, `loadManifest` -/
  | removeLoad (key : String) (opID : ℕ)
  /-- `Remove`: `DEL` of the manifest, retirement, unlock `mu` -/
  | removeDel (key : String) (opID : ℕ) (m : Option Manifest)
  /-- `MigrateLegacy`: `loadManifest` of the canonical key -/
  | migrateLoad (oldKey : String) (spec : Spec)
  /-- `MigrateLegacy`: start `publish` with the response read from the old key -/
  | migratePublish (oldKey : String) (spec : Spec) (response : Response)
  /-- `MigrateLegacy`: `register` under `mu` -/
  | migrateRegister (oldKey : String) (spec : Spec)
  /-- `deleteDuplicate`: `loadManifest` -/
  | duplicateLoad (key : String)
  /-- `deleteDuplicate`: stop the timer and forget the key under `mu` -/
  | duplicateForget (key : String)
  /-- `deleteDuplicate`: `DEL` of the manifest and the lock -/
  | duplicateDel (key : String)
  /-- the operation has returned -/
  | returned (result : Result)
  /-- its process has crashed -/
  | crashed
  deriving DecidableEq

/-- `cleanupGeneration` as a whole. -/
def Pc.cleanupGeneration (key : String) (generation chunkCount : ℕ) (background : Bool)
    (next : Pc) : Pc :=
  if 0 < chunkCount then .cleanup key generation chunkCount 0 background next else next

/-- `expireGenerationFallback` as a whole. -/
def Pc.expireGenerationFallback (key : String) (generation chunkCount : ℕ) (background : Bool)
    (next : Pc) : Pc :=
  if 0 < chunkCount then .expire key generation chunkCount 0 background next else next

/-- What a replacement does with an error once its lock is released: a timer callback arms a
retry, every other caller gets the error. -/
def Operation.failed (operation : Operation) (spec : Spec) (e : Error) : Pc :=
  match operation with
  | .refresh => .schedule spec (retryDelay spec.ttl) (.returned (.error e))
  | _ => .returned (.error e)

/-- An error after the lock was acquired: the deferred `release` runs first. `MigrateLegacy`
publishes without a lock. -/
def Job.failed (job : Job) (e : Error) : Pc :=
  match job.operation with
  | .migrate _ => .returned (.error e)
  | _ => .unlock job.spec.key job.opID (job.operation.failed job.spec e)

/-- What follows a successful `publish`: `scheduleAtThreshold`, then the deferred `release`.
`MigrateLegacy` registers the spec first and deletes the old entry last. -/
def Job.published (job : Job) : Pc :=
  match job.operation with
  | .migrate oldKey => .migrateRegister oldKey job.spec
  | _ => .schedule job.spec (thresholdDelay job.spec.ttl)
      (.unlock job.spec.key job.opID (.returned .ok))

/-- `writeGeneration` after `i` chunks. -/
def Job.staging (job : Job) (staged : Staged) (i : ℕ) : Pc :=
  if i < chunkCount staged.response.body then .writeChunk job staged i else .stamp job staged

/-- The manifest `publish` writes: `meta`, `descriptor`, `generation` and `chunk_count`. -/
def Job.manifest (job : Job) (staged : Staged) (fetchedAt : ℕ) : Manifest where
  status := staged.response.status
  contentType := staged.response.contentType
  info :=
    { fetchedAt := unix fetchedAt
      expiresAt := (fetchedAt + job.spec.ttl) / second
      ttlSeconds := job.spec.ttl.tdiv second
      sizeBytes := staged.response.body.length
      itemCount := staged.response.itemCount
      itemCountKnown := staged.response.itemCountKnown }
  descriptor := job.spec.descriptor
  generation := some staged.generation
  chunkCount := chunkCount staged.response.body

/-- The generation a successful swap to `generation` retires. -/
def Job.retires (job : Job) (generation : ℕ) : Option RetiredGeneration := do
  let m ← job.old
  let old ← m.pinned
  if old = generation then none
  else some ⟨job.spec.key, old, m.chunkCount, job.spec.descriptor⟩

/-- The known positive item count of the manifest would be replaced by a known zero. -/
def suspiciousEmpty (old : Option Manifest) (fresh : Response) : Bool :=
  match old with
  | none => false
  | some m => m.info.itemCountKnown && decide (0 < m.info.itemCount) &&
      fresh.itemCountKnown && decide (fresh.itemCount = 0)

/-- `GetOrFetch` and `MigrateLegacy` when `get` found an entry. -/
def GetCaller.found (caller : GetCaller) (oldKey : String) (m : Manifest) (r : Response) : Pc :=
  match caller with
  | .getOrFetch spec => .getRegister spec (some (m, r))
  | .migrate spec => .migratePublish oldKey spec r

/-- `GetOrFetch` and `MigrateLegacy` when `get` found nothing. -/
def GetCaller.notFound (caller : GetCaller) : Pc :=
  match caller with
  | .getOrFetch spec => .getRegister spec none
  | .migrate _ => .returned (.error .cacheUnavailable)

/-! ## Calls -/

/-- An operation a caller can start. -/
inductive Call where
  /-- `GetOrFetch` -/
  | getOrFetch (spec : Spec)
  /-- `Register` -/
  | register (spec : Spec)
  /-- `Warm` -/
  | warm (spec : Spec)
  /-- `Purge` -/
  | purge (key : String)
  /-- `Remove` -/
  | remove (key : String)
  /-- `MigrateLegacy` -/
  | migrateLegacy (oldKey : String) (spec : Spec)
  deriving DecidableEq

/-! ## Threads and states -/

/-- An operation in flight, or a response a client still holds. -/
structure Thread (P : Type) where
  /-- the process it runs in -/
  pid : P
  /-- the call it executes; none for the goroutine of a refill and for a timer callback -/
  call : Option Call
  /-- when it was started -/
  started : ℕ
  /-- the deadline of its context -/
  deadline : Option ℕ
  /-- whether its context derives from a caller's, who may cancel it -/
  cancellable : Bool
  /-- its context has been cancelled -/
  cancelled : Bool
  /-- the generation it has pinned and not released yet -/
  lease : Option LeaseKey
  /-- when it acquired its replacement lock: a history variable -/
  lockedAt : ℕ
  /-- where it is -/
  pc : Pc
  deriving DecidableEq

/-- The context of the thread has ended. -/
def Thread.ctxDone {P : Type} (t : Thread P) (now : ℕ) : Bool :=
  t.cancelled || t.deadline.any fun d => decide (d ≤ now)

/-- A command under the thread's context: once the context has ended it fails unsent. -/
def Thread.under {P : Type} (t : Thread P) (now : ℕ) (o : Outcome) : Outcome :=
  if t.ctxDone now then .fail else o

/-- `context.WithTimeout(ctx, fetchTimeout)`. -/
def Thread.withTimeout {P : Type} (t : Thread P) (now : ℕ) : Thread P :=
  { t with deadline := some (match t.deadline with
      | none => now + fetchTimeout
      | some d => min d (now + fetchTimeout)) }

/-- One executed publish script: a history variable. -/
structure Publication where
  /-- the manifest key -/
  key : String
  /-- the manifest it wrote -/
  manifest : Manifest
  /-- the body of the response it published -/
  body : Body
  /-- who published -/
  operation : Operation
  deriving DecidableEq

/-- The whole system: the clock, Redis, the memory of every process, the operations. Ids are
drawn from a counter, so `newID` never repeats. -/
structure State (P : Type) where
  /-- the clock -/
  now : ℕ
  /-- the server -/
  redis : Redis
  /-- the memory of each process -/
  mgr : P → Manager
  /-- every operation ever started, by its number -/
  threads : List (Thread P)
  /-- the next id of `newID` -/
  nextID : ℕ
  /-- the executed publish scripts, the newest first -/
  published : List Publication

/-! ## Entry points -/

/-- `Register` up to its first command. -/
def registerEntry (spec : Spec) (next : Pc) : Pc :=
  match validateSpec spec with
  | some e => .returned (.error e)
  | none => if spec.ttl ≤ 0 then next else .registerLoad spec next

/-- The checks an operation makes before its first command. -/
def Call.entry : Call → Pc
  | .getOrFetch spec =>
    let spec := spec.normalized
    if spec.ttl ≤ 0 then .bypass spec
    else match validateSpec spec with
      | some e => .returned (.error e)
      | none => .get spec.key (.getOrFetch spec)
  | .register spec => registerEntry spec.normalized (.returned .ok)
  | .warm spec =>
    let spec := spec.normalized
    if spec.ttl ≤ 0 then .returned .ok
    else match validateSpec spec with
      | some e => .returned (.error e)
      | none => .warm spec
  | .purge key => if hasCachePrefix key then .replaceNow key else .returned (.error .invalidCacheKey)
  | .remove key =>
    if hasCachePrefix key then .removeAcquire key else .returned (.error .invalidCacheKey)
  | .migrateLegacy oldKey spec =>
    let spec := spec.normalized
    if oldKey = spec.key then registerEntry spec (.returned .ok)
    else match validateSpec spec with
      | some e => .returned (.error e)
      | none => .migrateLoad oldKey spec

end IptvProxy.Cache
