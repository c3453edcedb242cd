import IptvProxy.Cache.Step

/-!
# What one step can do

`stepThread` case by case: `Moves` lists the sections that change nothing but the program point of
their thread, `Ran` adds those with an effect on the shared state. `Ran.of_stepThread` is the
only place that unfolds the step functions; every invariant is proved by cases on `Ran`.
-/

namespace IptvProxy.Cache

variable {P : Type} [DecidableEq P]

/-- Thread `t` goes on without an effect on the shared state. -/
inductive Moves (s : State P) (t : Thread P) (o : Outcome) : Pc → Pc → Prop where
  /-- a disabled cache: the provider's answer is returned as it is -/
  | bypass {spec r} (hr : r = .error .fetch ∨ ∃ fresh, r = .response fresh false) :
    Moves s t o (.bypass spec) (.returned r)
  /-- `get`: `loadManifest` failed -/
  | getFailed {key caller} : Moves s t o (.get key caller) (.returned (.error .redis))
  /-- `get`: there is no manifest -/
  | getMissing {key caller} (hm : s.redis.loadManifest key = none) :
    Moves s t o (.get key caller) caller.notFound
  /-- `get`: the entry has no generation to pin -/
  | getLegacy {key caller m} (hm : s.redis.loadManifest key = some m) (hp : m.pinned = none) :
    Moves s t o (.get key caller) (.getBody key m caller)
  /-- `get`: `HGET body` failed -/
  | getBodyFailed {key m caller} : Moves s t o (.getBody key m caller) (.returned (.error .redis))
  /-- `get`: there is no inline body -/
  | getBodyMissing {key m caller} (hb : (s.redis.hash key).bind Hash.body = none) :
    Moves s t o (.getBody key m caller) caller.notFound
  /-- `get`: the inline body -/
  | getBodyFound {key m caller body} (hb : (s.redis.hash key).bind Hash.body = some body) :
    Moves s t o (.getBody key m caller) (caller.found key m (m.response body))
  /-- `readGeneration` failed; the lease is released -/
  | getChunkFailed {key m g buffer j caller} :
    Moves s t o (.getChunk key m g buffer j caller)
      (.releaseReader key g (.returned (.error (.readChunk (j + 1) m.chunkCount))))
  /-- `readGeneration` reads a chunk -/
  | getChunkNext {key m g buffer j caller c}
      (hc : s.redis.chunks.lookup s.now ⟨key, g, j⟩ = some c) (hj : j + 1 < m.chunkCount) :
    Moves s t o (.getChunk key m g buffer j caller)
      (.getChunk key m g (buffer ++ c.value) (j + 1) caller)
  /-- `readGeneration` reads the last chunk -/
  | getChunkDone {key m g buffer j caller c}
      (hc : s.redis.chunks.lookup s.now ⟨key, g, j⟩ = some c) (hj : ¬ j + 1 < m.chunkCount) :
    Moves s t o (.getChunk key m g buffer j caller)
      (caller.found key m (m.response (buffer ++ c.value)))
  /-- a `DEL` of `cleanupGeneration` failed -/
  | cleanupFailed {key g n j background next}
      (ho : (if background then o else t.under s.now o).applied = false) :
    Moves s t o (.cleanup key g n j background next)
      (if j + 1 < n then .cleanup key g n (j + 1) background next else next)
  /-- an `EXPIRE` of `expireGenerationFallback` failed -/
  | expireFailed {key g n j background next}
      (ho : (if background then o else t.under s.now o).applied = false) :
    Moves s t o (.expire key g n j background next)
      (if j + 1 < n then .expire key g n (j + 1) background next else next)
  /-- `scheduleFromMeta` has read the clock -/
  | scheduleFromMeta {spec info next} :
    Moves s t o (.scheduleFromMeta spec info next)
      (.schedule spec (delayFromMeta spec.ttl info s.now) next)
  /-- `Register`: `loadManifest` failed or found nothing -/
  | registerLoadFailed {spec next e} :
    Moves s t o (.registerLoad spec next) (.returned (.error e))
  /-- `Register`: the entry is there -/
  | registerLoadFound {spec next m} (hm : s.redis.loadManifest spec.key = some m) :
    Moves s t o (.registerLoad spec next) (.register spec m.info next)
  /-- `replaceNow`: the key is not registered -/
  | replaceNowMissing {key} (hs : (s.mgr t.pid).specs key = none) :
    Moves s t o (.replaceNow key) (.returned (.error .noRegistration))
  /-- `refillMissing` finds an entry under the lock -/
  | loadOldStop {job m} (hop : job.operation = .fill)
      (hm : s.redis.loadManifest job.spec.key = some m) :
    Moves s t o (.loadOld job) (.unlock job.spec.key job.opID (.returned .ok))
  /-- `refillMissing` finds no entry, or cannot tell -/
  | loadOldFill {job} (hop : job.operation = .fill)
      (hm : (t.under s.now o).replied = true → s.redis.loadManifest job.spec.key = none) :
    Moves s t o (.loadOld job) (.fetch { job with old := none })
  /-- `replaceWithSpec`: `loadManifest` failed -/
  | loadOldFailed {job} (hop : job.operation ≠ .fill)
      (ho : (t.under s.now o).replied = false) :
    Moves s t o (.loadOld job) (job.failed .redis)
  /-- `replaceWithSpec` reads the manifest it is about to replace -/
  | loadOld {job} (hop : job.operation ≠ .fill) (ho : (t.under s.now o).replied = true) :
    Moves s t o (.loadOld job) (.fetch { job with old := s.redis.loadManifest job.spec.key })
  /-- `spec.Fetch` failed, or its response was rejected -/
  | fetchFailed {job e} : Moves s t o (.fetch job) (job.failed e)
  /-- a `SET` of `writeGeneration` failed -/
  | writeChunkFailed {job staged j} (ho : (t.under s.now o).applied = false) :
    Moves s t o (.writeChunk job staged j)
      (.cleanupGeneration job.spec.key staged.generation j true (job.failed .redis))
  /-- `publish` reads the clock -/
  | stamp {job staged} : Moves s t o (.stamp job staged) (.swap job staged s.now)
  /-- the publish script was not executed or found a chunk missing -/
  | swapFailed {job staged fetchedAt e}
      (ho : (t.under s.now o).applied = false ∨
        stagedChunksExist s.redis.chunks s.now job.spec.key staged.generation
          (chunkCount staged.response.body) = false) :
    Moves s t o (.swap job staged fetchedAt)
      (.cleanupGeneration job.spec.key staged.generation (chunkCount staged.response.body) true
        (job.failed e))
  /-- `release` failed -/
  | unlockFailed {key opID next} : Moves s t o (.unlock key opID next) next
  /-- `Remove`: `loadManifest` failed -/
  | removeLoadFailed {key opID} :
    Moves s t o (.removeLoad key opID) (.unlock key opID (.returned (.error .redis)))
  /-- `MigrateLegacy`: `loadManifest` failed -/
  | migrateLoadFailed {oldKey spec} :
    Moves s t o (.migrateLoad oldKey spec) (.returned (.error .redis))
  /-- `MigrateLegacy`: the canonical entry exists already -/
  | migrateLoadFound {oldKey spec} :
    Moves s t o (.migrateLoad oldKey spec) (registerEntry spec (.duplicateLoad oldKey))
  /-- `MigrateLegacy`: read the legacy entry -/
  | migrateLoadMissing {oldKey spec} :
    Moves s t o (.migrateLoad oldKey spec) (.get oldKey (.migrate spec))
  /-- `MigrateLegacy`: a disabled cache -/
  | migrateDisabled {oldKey spec r} :
    Moves s t o (.migratePublish oldKey spec r) (.returned (.error .migrateDisabled))
  /-- `deleteDuplicate`: `loadManifest` failed -/
  | duplicateLoadFailed {key} : Moves s t o (.duplicateLoad key) (.returned (.error .redis))
  /-- `deleteDuplicate`: no chunks to delete -/
  | duplicateLoadNone {key} : Moves s t o (.duplicateLoad key) (.duplicateForget key)
  /-- `deleteDuplicate`: delete the chunks -/
  | duplicateLoadSome {key} (r : RetiredGeneration) :
    Moves s t o (.duplicateLoad key)
      (.cleanupGeneration key r.generation r.chunkCount false (.duplicateForget key))
  /-- `deleteDuplicate`: the final `DEL` was not executed -/
  | duplicateDelFailed {key e} : Moves s t o (.duplicateDel key) (.returned (.error e))

/-- The state after an attempt on the replacement lock of `key` that leaves thread `i` outside. -/
def State.attempted (s : State P) (key : String) (applied : Bool) : State P :=
  if applied then
    s.bumpID.setLocks (s.redis.locks.setNX s.now key s.nextID (s.now + lockTTL))
  else s.bumpID

section Attempted

omit [DecidableEq P]

variable (s : State P) (key : String) (applied : Bool)

@[simp] theorem State.attempted_now : (s.attempted key applied).now = s.now := by
  cases applied <;> rfl

@[simp] theorem State.attempted_threads : (s.attempted key applied).threads = s.threads := by
  cases applied <;> rfl

@[simp] theorem State.attempted_mgr : (s.attempted key applied).mgr = s.mgr := by
  cases applied <;> rfl

@[simp] theorem State.attempted_hash : (s.attempted key applied).redis.hash = s.redis.hash := by
  cases applied <;> rfl

@[simp] theorem State.attempted_chunks :
    (s.attempted key applied).redis.chunks = s.redis.chunks := by
  cases applied <;> rfl

@[simp] theorem State.attempted_nextID : (s.attempted key applied).nextID = s.nextID + 1 := by
  cases applied <;> rfl

@[simp] theorem State.attempted_published : (s.attempted key applied).published = s.published := by
  cases applied <;> rfl

theorem State.attempted_setThread (i : ℕ) (t : Thread P) :
    ((s.attempted key applied).setThread i t).threads = s.threads.set i t := by
  cases applied <;> rfl

end Attempted

/-- Thread `i`, which is `t`, executes its next section. -/
inductive Ran (s : State P) (i : ℕ) (t : Thread P) (o : Outcome) : State P → Prop where
  /-- no effect on the shared state -/
  | move {pc pc'} (hpc : t.pc = pc) (hm : Moves s t o pc pc') : Ran s i t o (s.goto i t pc')
  /-- `get` pins a generation -/
  | pin {key caller m g} (hpc : t.pc = .get key caller) (hmu : (s.mgr t.pid).mu = none)
      (hm : s.redis.loadManifest key = some m) (hg : m.pinned = some g) :
    Ran s i t o
      ((s.setMgr t.pid ((s.mgr t.pid).pin (key, g))).setThread i
        { t with lease := some (key, g), pc := .getChunk key m g [] 0 caller })
  /-- `releaseGenerationReader` -/
  | unpin {key g next} (hpc : t.pc = .releaseReader key g next)
      (hmu : (s.mgr t.pid).mu = none) :
    Ran s i t o
      ((s.setMgr t.pid ((s.mgr t.pid).unpin (key, g)).1).setThread i
        { t with
          lease := none
          pc := match ((s.mgr t.pid).unpin (key, g)).2 with
            | none => next
            | some r => .cleanupGeneration r.key r.generation r.chunkCount true next })
  /-- `cleanupGeneration` deletes a chunk -/
  | cleanup {key g n j background next} (hpc : t.pc = .cleanup key g n j background next)
      (ho : (if background then o else t.under s.now o).applied = true) :
    Ran s i t o
      ((s.setChunks (s.redis.chunks.del ⟨key, g, j⟩)).goto i t
        (if j + 1 < n then .cleanup key g n (j + 1) background next else next))
  /-- `expireGenerationFallback` gives a chunk an expiry -/
  | expire {key g n j background next} (hpc : t.pc = .expire key g n j background next)
      (ho : (if background then o else t.under s.now o).applied = true) :
    Ran s i t o
      ((s.setChunks (s.redis.chunks.expire s.now ⟨key, g, j⟩
        (s.now + retiredGenerationFallbackTTL))).goto i t
        (if j + 1 < n then .expire key g n (j + 1) background next else next))
  /-- `GetOrFetch` registers after a hit -/
  | registerHit {spec manifest r} (hpc : t.pc = .getRegister spec (some (manifest, r)))
      (hmu : (s.mgr t.pid).mu = none) :
    Ran s i t o
      ((s.setMgr t.pid ((s.mgr t.pid).registerIfAbsent spec).2).goto i t
        (.scheduleFromMeta ((s.mgr t.pid).registerIfAbsent spec).1 manifest.info
          (.returned (.response r true))))
  /-- `GetOrFetch` registers after a miss and starts a refill -/
  | registerMiss {spec} (hpc : t.pc = .getRegister spec none)
      (hmu : (s.mgr t.pid).mu = none) :
    Ran s i t o
      (((s.setMgr t.pid ((s.mgr t.pid).registerIfAbsent spec).2).goto i t
        (.returned (.error .cacheUnavailable))).spawn
        { pid := t.pid, call := none, started := s.now, deadline := none, cancellable := false,
          cancelled := false, lease := none, lockedAt := 0,
          pc := .refillMissing ((s.mgr t.pid).registerIfAbsent spec).1 })
  /-- `schedule` -/
  | schedule {spec delay next} (hpc : t.pc = .schedule spec delay next)
      (hmu : (s.mgr t.pid).mu = none) :
    Ran s i t o ((s.setMgr t.pid ((s.mgr t.pid).schedule s.now spec delay)).goto i t next)
  /-- `refillMissing` creates its context -/
  | refill {spec} (hpc : t.pc = .refillMissing spec) :
    Ran s i t o (s.goto i (t.withTimeout s.now) (.acquire spec .fill))
  /-- `Register` -/
  | register {spec info next} (hpc : t.pc = .register spec info next)
      (hmu : (s.mgr t.pid).mu = none) :
    Ran s i t o
      ((s.setMgr t.pid ((s.mgr t.pid).register spec)).goto i t (.scheduleFromMeta spec info next))
  /-- `Warm` registers and enters `replaceWithSpec` -/
  | warm {spec} (hpc : t.pc = .warm spec) (hmu : (s.mgr t.pid).mu = none) :
    Ran s i t o
      ((s.setMgr t.pid ((s.mgr t.pid).registerIfAbsent spec).2).goto i (t.withTimeout s.now)
        (.acquire ((s.mgr t.pid).registerIfAbsent spec).1 .warm))
  /-- `Purge` enters `replaceWithSpec` with the registered spec -/
  | purge {key spec} (hpc : t.pc = .replaceNow key) (hs : (s.mgr t.pid).specs key = some spec) :
    Ran s i t o (s.goto i (t.withTimeout s.now) (.acquire spec .purge))
  /-- the lock could not be acquired -/
  | acquireFailed {spec operation e applied} (hpc : t.pc = .acquire spec operation)
      (ho : applied = true → (t.under s.now o).applied = true) :
    Ran s i t o ((s.attempted spec.key applied).goto i t (operation.failed spec e))
  /-- the lock is acquired -/
  | acquired {spec operation} (hpc : t.pc = .acquire spec operation)
      (ho : (t.under s.now o).replied = true) (hfree : s.redis.locks.has s.now spec.key = false) :
    Ran s i t o
      ((s.attempted spec.key true).goto i { t with lockedAt := s.now }
        (.loadOld ⟨spec, operation, s.nextID, none⟩))
  /-- `publish` starts with an accepted response -/
  | stage {job fresh} (hpc : t.pc = .fetch job) (hs : suspiciousEmpty job.old fresh = false) :
    Ran s i t o (s.bumpID.goto i t (job.staging ⟨s.nextID, fresh⟩ 0))
  /-- `writeGeneration` writes a chunk -/
  | writeChunk {job staged j} (hpc : t.pc = .writeChunk job staged j)
      (ho : (t.under s.now o).applied = true) :
    Ran s i t o
      ((s.setChunks (s.redis.chunks.set ⟨job.spec.key, staged.generation, j⟩
        (bodyChunk staged.response.body j) (some (s.now + stagingGenerationTTL)))).goto i t
        (if (t.under s.now o).replied then job.staging staged (j + 1)
          else .cleanupGeneration job.spec.key staged.generation j true (job.failed .redis)))
  /-- the publish script was executed, but its reply was lost -/
  | swapLost {job staged fetchedAt} (hpc : t.pc = .swap job staged fetchedAt)
      (hmu : (s.mgr t.pid).mu = none) (ho : t.under s.now o = .lost)
      (hexist : stagedChunksExist s.redis.chunks s.now job.spec.key staged.generation
        (chunkCount staged.response.body) = true) :
    Ran s i t o
      ((publishGenerationScript s job staged fetchedAt).goto i t
        (.cleanupGeneration job.spec.key staged.generation (chunkCount staged.response.body) true
          (job.failed .redis)))
  /-- the publish script was executed, and there is no old generation to take out of use -/
  | swapFirst {job staged fetchedAt} (hpc : t.pc = .swap job staged fetchedAt)
      (hmu : (s.mgr t.pid).mu = none) (ho : t.under s.now o = .ok)
      (hexist : stagedChunksExist s.redis.chunks s.now job.spec.key staged.generation
        (chunkCount staged.response.body) = true)
      (hr : job.retires staged.generation = none) :
    Ran s i t o ((publishGenerationScript s job staged fetchedAt).goto i t job.published)
  /-- the publish script was executed, and the old generation waits for its readers -/
  | swapWaits {job staged fetchedAt r} (hpc : t.pc = .swap job staged fetchedAt)
      (hmu : (s.mgr t.pid).mu = none) (ho : t.under s.now o = .ok)
      (hexist : stagedChunksExist s.redis.chunks s.now job.spec.key staged.generation
        (chunkCount staged.response.body) = true)
      (hr : job.retires staged.generation = some r)
      (hpos : 0 < (s.mgr t.pid).readers (job.spec.key, r.generation)) :
    Ran s i t o
      (((publishGenerationScript s job staged fetchedAt).setMgr t.pid
        ((s.mgr t.pid).retire r)).goto i t
        (.expireGenerationFallback job.spec.key r.generation r.chunkCount true job.published))
  /-- the publish script was executed, and the old generation is deleted -/
  | swapClears {job staged fetchedAt r} (hpc : t.pc = .swap job staged fetchedAt)
      (hmu : (s.mgr t.pid).mu = none) (ho : t.under s.now o = .ok)
      (hexist : stagedChunksExist s.redis.chunks s.now job.spec.key staged.generation
        (chunkCount staged.response.body) = true)
      (hr : job.retires staged.generation = some r)
      (hzero : (s.mgr t.pid).readers (job.spec.key, r.generation) = 0) :
    Ran s i t o
      ((publishGenerationScript s job staged fetchedAt).goto i t
        (.cleanupGeneration job.spec.key r.generation r.chunkCount true job.published))
  /-- `release` -/
  | unlock {key opID next} (hpc : t.pc = .unlock key opID next) (ho : o.applied = true) :
    Ran s i t o ((s.setLocks (s.redis.locks.delIfEq s.now key opID)).goto i t next)
  /-- `Remove` could not acquire the lock -/
  | removeAcquireFailed {key e applied} (hpc : t.pc = .removeAcquire key)
      (ho : applied = true → (t.under s.now o).applied = true) :
    Ran s i t o ((s.attempted key applied).goto i t (.returned (.error e)))
  /-- `Remove` acquires the lock -/
  | removeAcquired {key} (hpc : t.pc = .removeAcquire key)
      (ho : (t.under s.now o).replied = true) (hfree : s.redis.locks.has s.now key = false) :
    Ran s i t o
      ((s.attempted key true).goto i { t with lockedAt := s.now } (.removeLoad key s.nextID))
  /-- `Remove` locks `mu` and reads the manifest -/
  | removeLoad {key opID} (hpc : t.pc = .removeLoad key opID) (hmu : (s.mgr t.pid).mu = none) :
    Ran s i t o
      ((s.setMgr t.pid { s.mgr t.pid with mu := some i }).goto i t
        (.removeDel key opID (s.redis.loadManifest key)))
  /-- `Remove`: the `DEL` of the manifest failed -/
  | removeDelFailed {key opID m} (hpc : t.pc = .removeDel key opID m)
      (hmu : (s.mgr t.pid).mu = some i) (ho : (t.under s.now o).applied = false) :
    Ran s i t o
      ((s.setMgr t.pid { s.mgr t.pid with mu := none }).goto i t
        (.unlock key opID (.returned (.error .redis))))
  /-- `Remove`: the manifest was deleted, but the reply was lost -/
  | removeDelLost {key opID m} (hpc : t.pc = .removeDel key opID m)
      (hmu : (s.mgr t.pid).mu = some i) (ho : t.under s.now o = .lost) :
    Ran s i t o
      (((s.setHash key none).setMgr t.pid { s.mgr t.pid with mu := none }).goto i t
        (.unlock key opID (.returned (.error .redis))))
  /-- `Remove` deletes the manifest and forgets the key; there are no chunks -/
  | removeEmpty {key opID m} (hpc : t.pc = .removeDel key opID m)
      (hmu : (s.mgr t.pid).mu = some i) (ho : (t.under s.now o).replied = true)
      (hr : removeRetires key m = none) :
    Ran s i t o
      (((s.setHash key none).setMgr t.pid
        (Manager.forget { s.mgr t.pid with mu := none } key)).goto i t
        (.unlock key opID (.returned .ok)))
  /-- `Remove` deletes the manifest and forgets the key; the generation waits for its readers -/
  | removeWaits {key opID m r} (hpc : t.pc = .removeDel key opID m)
      (hmu : (s.mgr t.pid).mu = some i) (ho : (t.under s.now o).replied = true)
      (hr : removeRetires key m = some r)
      (hpos : 0 < (s.mgr t.pid).readers (key, r.generation)) :
    Ran s i t o
      (((s.setHash key none).setMgr t.pid
        ((Manager.forget { s.mgr t.pid with mu := none } key).retire r)).goto i t
        (.expireGenerationFallback key r.generation r.chunkCount false
          (.unlock key opID (.returned .ok))))
  /-- `Remove` deletes the manifest, forgets the key and deletes the chunks -/
  | removeClears {key opID m r} (hpc : t.pc = .removeDel key opID m)
      (hmu : (s.mgr t.pid).mu = some i) (ho : (t.under s.now o).replied = true)
      (hr : removeRetires key m = some r)
      (hzero : (s.mgr t.pid).readers (key, r.generation) = 0) :
    Ran s i t o
      (((s.setHash key none).setMgr t.pid
        (Manager.forget { s.mgr t.pid with mu := none } key)).goto i t
        (.cleanupGeneration key r.generation r.chunkCount false
          (.unlock key opID (.returned .ok))))
  /-- `MigrateLegacy` starts to publish -/
  | migratePublish {oldKey spec r} (hpc : t.pc = .migratePublish oldKey spec r)
      (httl : 0 < spec.ttl) :
    Ran s i t o
      (s.bumpID.goto i t (Job.staging ⟨spec, .migrate oldKey, 0, none⟩ ⟨s.nextID, r⟩ 0))
  /-- `MigrateLegacy` registers -/
  | migrateRegister {oldKey spec} (hpc : t.pc = .migrateRegister oldKey spec)
      (hmu : (s.mgr t.pid).mu = none) :
    Ran s i t o
      ((s.setMgr t.pid ((s.mgr t.pid).register spec)).goto i t
        (.schedule spec (thresholdDelay spec.ttl) (.duplicateLoad oldKey)))
  /-- `deleteDuplicate` forgets the key -/
  | duplicateForget {key} (hpc : t.pc = .duplicateForget key)
      (hmu : (s.mgr t.pid).mu = none) :
    Ran s i t o ((s.setMgr t.pid ((s.mgr t.pid).forget key)).goto i t (.duplicateDel key))
  /-- `deleteDuplicate` deletes the manifest and the lock -/
  | duplicateDel {key r} (hpc : t.pc = .duplicateDel key) :
    Ran s i t o
      (((s.setHash key none).setLocks (s.redis.locks.del key)).goto i t (.returned r))

/-! ## The cases are all -/

omit [DecidableEq P] in
theorem State.eq_of_locked {s s' next : State P} {p : P} (h : s.locked p next = some s') :
    (s.mgr p).mu = none ∧ s' = next := by
  unfold State.locked at h
  split at h
  · next hmu => exact ⟨hmu, (Option.some.inj h).symm⟩
  · cases h

namespace Ran

variable {s s' : State P} {i : ℕ} {t : Thread P} {o : Outcome}

theorem of_stepGet {key : String} {caller : GetCaller} (hpc : t.pc = .get key caller)
    (h : stepGet s i t o key caller = some s') : Ran s i t o s' := by
  obtain ⟨hmu, rfl⟩ := State.eq_of_locked h
  split
  · exact .move hpc .getFailed
  · split
    · next hm => exact .move hpc (.getMissing hm)
    · next m hm =>
      split
      · next hp => exact .move hpc (.getLegacy hm hp)
      · next g hg => exact .pin hpc hmu hm hg

theorem of_stepGetBody {key : String} {m : Manifest} {caller : GetCaller}
    (hpc : t.pc = .getBody key m caller) : Ran s i t o (stepGetBody s i t o key m caller) := by
  unfold stepGetBody
  split
  · exact .move hpc .getBodyFailed
  · split
    · next hb => exact .move hpc (.getBodyMissing hb)
    · next body hb => exact .move hpc (.getBodyFound hb)

theorem of_stepGetChunk {key : String} {m : Manifest} {g : ℕ} {buffer : Body} {j : ℕ}
    {caller : GetCaller} (hpc : t.pc = .getChunk key m g buffer j caller) :
    Ran s i t o (stepGetChunk s i t o key m g buffer j caller) := by
  unfold stepGetChunk
  dsimp only
  split
  · exact .move hpc .getChunkFailed
  · split
    · exact .move hpc .getChunkFailed
    · next c hc =>
      split
      · next hj => exact .move hpc (.getChunkNext hc hj)
      · next hj => exact .move hpc (.getChunkDone hc hj)

theorem of_stepReleaseReader {key : String} {g : ℕ} {next : Pc}
    (hpc : t.pc = .releaseReader key g next)
    (h : stepReleaseReader s i t key g next = some s') : Ran s i t o s' := by
  obtain ⟨hmu, rfl⟩ := State.eq_of_locked h
  exact .unpin hpc hmu

theorem of_stepCleanup {key : String} {g n j : ℕ} {background : Bool} {next : Pc}
    (hpc : t.pc = .cleanup key g n j background next) :
    Ran s i t o (stepCleanup s i t o key g n j background next) := by
  unfold stepCleanup
  dsimp only
  by_cases ho : (if background then o else t.under s.now o).applied = true
  · rw [if_pos ho]
    exact .cleanup hpc ho
  · rw [if_neg ho]
    exact .move hpc (.cleanupFailed (eq_false_of_ne_true ho))

theorem of_stepExpire {key : String} {g n j : ℕ} {background : Bool} {next : Pc}
    (hpc : t.pc = .expire key g n j background next) :
    Ran s i t o (stepExpire s i t o key g n j background next) := by
  unfold stepExpire
  dsimp only
  by_cases ho : (if background then o else t.under s.now o).applied = true
  · rw [if_pos ho]
    exact .expire hpc ho
  · rw [if_neg ho]
    exact .move hpc (.expireFailed (eq_false_of_ne_true ho))

theorem of_stepGetRegister {spec : Spec} {found : Option (Manifest × Response)}
    (hpc : t.pc = .getRegister spec found) (h : stepGetRegister s i t spec found = some s') :
    Ran s i t o s' := by
  obtain ⟨hmu, rfl⟩ := State.eq_of_locked h
  rcases found with _ | ⟨manifest, r⟩
  · exact .registerMiss hpc hmu
  · exact .registerHit hpc hmu

theorem of_stepRegisterLoad {spec : Spec} {next : Pc} (hpc : t.pc = .registerLoad spec next) :
    Ran s i t o (stepRegisterLoad s i t o spec next) := by
  unfold stepRegisterLoad
  split
  · exact .move hpc .registerLoadFailed
  · split
    · exact .move hpc .registerLoadFailed
    · next m hm => exact .move hpc (.registerLoadFound hm)

theorem of_stepReplaceNow {key : String} (hpc : t.pc = .replaceNow key)
    (h : stepReplaceNow s i t key = some s') : Ran s i t o s' := by
  obtain ⟨-, rfl⟩ := State.eq_of_locked h
  split
  · next hs => exact .move hpc (.replaceNowMissing hs)
  · next spec hs => exact .purge hpc hs

omit [DecidableEq P] in
/-- A failed attempt, as `stepAcquire` and `stepRemoveAcquire` write it. -/
theorem attempted_eq (s : State P) (key : String) (o : Outcome) :
    (if o.applied then
      s.bumpID.setLocks (s.redis.locks.setNX s.now key s.nextID (s.now + lockTTL))
    else s.bumpID) = s.attempted key o.applied := rfl

theorem of_stepAcquire {spec : Spec} {operation : Operation}
    (hpc : t.pc = .acquire spec operation) :
    Ran s i t o (stepAcquire s i t o spec operation) := by
  unfold stepAcquire
  dsimp only
  rw [show s.bumpID.redis.locks = s.redis.locks from rfl, show s.bumpID.now = s.now from rfl,
    attempted_eq]
  split
  · exact .acquireFailed hpc id
  · next ho =>
    split
    · exact .acquireFailed hpc id
    · next hfree =>
      have hrep : (t.under s.now o).replied = true := by simpa using ho
      rw [Outcome.applied_of_replied hrep]
      exact .acquired hpc hrep (eq_false_of_ne_true hfree)

theorem of_stepLoadOld {job : Job} (hpc : t.pc = .loadOld job) :
    Ran s i t o (stepLoadOld s i t o job) := by
  unfold stepLoadOld
  dsimp only
  split
  · next hop =>
    split
    · next hcur =>
      rw [Bool.and_eq_true] at hcur
      obtain ⟨m, hm⟩ := Option.isSome_iff_exists.mp hcur.2
      exact .move hpc (.loadOldStop hop hm)
    · next hcur =>
      refine .move hpc (.loadOldFill hop fun ho => ?_)
      rw [ho, Bool.true_and] at hcur
      simpa using hcur
  · next hop =>
    split
    · next ho => exact .move hpc (.loadOld hop ho)
    · next ho => exact .move hpc (.loadOldFailed hop (eq_false_of_ne_true ho))

theorem of_stepFetch {fetched : Option Response} {job : Job} (hpc : t.pc = .fetch job) :
    Ran s i t o (stepFetch s i t fetched job) := by
  unfold stepFetch
  split
  · exact .move hpc .fetchFailed
  · split
    · exact .move hpc .fetchFailed
    · next hs => exact .stage hpc (eq_false_of_ne_true hs)

theorem of_stepWriteChunk {job : Job} {staged : Staged} {j : ℕ}
    (hpc : t.pc = .writeChunk job staged j) :
    Ran s i t o (stepWriteChunk s i t o job staged j) := by
  unfold stepWriteChunk
  dsimp only
  by_cases happ : (t.under s.now o).applied = true
  · rw [if_pos happ]
    have h := Ran.writeChunk (s := s) (i := i) hpc happ
    split at h <;> split <;> first | exact h | contradiction
  · rw [if_neg happ]
    have hrep : ¬ (t.under s.now o).replied = true := by
      rw [Outcome.eq_fail happ]
      exact Bool.false_ne_true
    rw [if_neg hrep]
    exact .move hpc (.writeChunkFailed (eq_false_of_ne_true happ))

theorem of_stepSwap {job : Job} {staged : Staged} {fetchedAt : ℕ}
    (hpc : t.pc = .swap job staged fetchedAt)
    (h : stepSwap s i t o job staged fetchedAt = some s') : Ran s i t o s' := by
  obtain ⟨hmu, rfl⟩ := State.eq_of_locked h
  dsimp only
  split
  · next hdone =>
    rw [Bool.and_eq_true] at hdone
    obtain ⟨happ, hexist⟩ := hdone
    split
    · next hrep =>
      exact .swapLost hpc hmu (Outcome.eq_lost happ hrep) hexist
    · next hrep =>
      have hok : t.under s.now o = .ok := Outcome.eq_ok (by simpa using hrep)
      split
      · next hr => exact .swapFirst hpc hmu hok hexist hr
      · next r hr =>
        split
        · next hpos => exact .swapWaits hpc hmu hok hexist hr hpos
        · next hzero => exact .swapClears hpc hmu hok hexist hr (Nat.eq_zero_of_not_pos hzero)
  · next hdone =>
    refine .move hpc (.swapFailed ?_)
    rw [Bool.and_eq_true, not_and_or] at hdone
    exact hdone.imp eq_false_of_ne_true eq_false_of_ne_true

theorem of_stepUnlock {key : String} {opID : ℕ} {next : Pc} (hpc : t.pc = .unlock key opID next) :
    Ran s i t o (stepUnlock s i t o key opID next) := by
  unfold stepUnlock
  split
  · next ho => exact .unlock hpc ho
  · exact .move hpc .unlockFailed

theorem of_stepRemoveAcquire {key : String} (hpc : t.pc = .removeAcquire key) :
    Ran s i t o (stepRemoveAcquire s i t o key) := by
  unfold stepRemoveAcquire
  dsimp only
  rw [show s.bumpID.redis.locks = s.redis.locks from rfl, show s.bumpID.now = s.now from rfl,
    attempted_eq]
  split
  · exact .removeAcquireFailed hpc id
  · next ho =>
    split
    · exact .removeAcquireFailed hpc id
    · next hfree =>
      have hrep : (t.under s.now o).replied = true := by simpa using ho
      rw [Outcome.applied_of_replied hrep]
      exact .removeAcquired hpc hrep (eq_false_of_ne_true hfree)

theorem of_stepRemoveLoad {key : String} {opID : ℕ} (hpc : t.pc = .removeLoad key opID)
    (h : stepRemoveLoad s i t o key opID = some s') : Ran s i t o s' := by
  obtain ⟨hmu, rfl⟩ := State.eq_of_locked h
  split
  · exact .removeLoad hpc hmu
  · exact .move hpc .removeLoadFailed

theorem of_stepRemoveDel {key : String} {opID : ℕ} {m : Option Manifest}
    (hpc : t.pc = .removeDel key opID m) (h : stepRemoveDel s i t o key opID m = some s') :
    Ran s i t o s' := by
  unfold stepRemoveDel at h
  split at h
  · next hmu =>
    dsimp only at h
    split at h
    · next ho =>
      rw [if_pos (Outcome.applied_of_replied ho)] at h
      obtain rfl := Option.some.inj h
      split
      · next hr => exact .removeEmpty hpc hmu ho hr
      · next r hr =>
        split
        · next hpos => exact .removeWaits hpc hmu ho hr hpos
        · next hzero => exact .removeClears hpc hmu ho hr (Nat.eq_zero_of_not_pos hzero)
    · next ho =>
      obtain rfl := Option.some.inj h
      by_cases happ : (t.under s.now o).applied = true
      · rw [if_pos happ]
        exact .removeDelLost hpc hmu (Outcome.eq_lost happ (eq_false_of_ne_true ho))
      · rw [if_neg happ]
        exact .removeDelFailed hpc hmu (eq_false_of_ne_true happ)
  · cases h

theorem of_stepMigrateLoad {oldKey : String} {spec : Spec} (hpc : t.pc = .migrateLoad oldKey spec) :
    Ran s i t o (stepMigrateLoad s i t o oldKey spec) := by
  unfold stepMigrateLoad
  split
  · exact .move hpc .migrateLoadFailed
  · split
    · exact .move hpc .migrateLoadFound
    · exact .move hpc .migrateLoadMissing

theorem of_stepMigratePublish {oldKey : String} {spec : Spec} {r : Response}
    (hpc : t.pc = .migratePublish oldKey spec r) :
    Ran s i t o (stepMigratePublish s i t oldKey spec r) := by
  unfold stepMigratePublish
  split
  · exact .move hpc .migrateDisabled
  · next httl => exact .migratePublish hpc (Int.not_le.mp httl)

theorem of_stepDuplicateLoad {key : String} (hpc : t.pc = .duplicateLoad key) :
    Ran s i t o (stepDuplicateLoad s i t o key) := by
  unfold stepDuplicateLoad
  split
  · exact .move hpc .duplicateLoadFailed
  · split
    · exact .move hpc .duplicateLoadNone
    · next r _ => exact .move hpc (.duplicateLoadSome r)

theorem of_stepDuplicateDel {key : String} (hpc : t.pc = .duplicateDel key) :
    Ran s i t o (stepDuplicateDel s i t o key) := by
  unfold stepDuplicateDel
  dsimp only
  by_cases happ : (t.under s.now o).applied = true
  · rw [if_pos happ]
    split <;> exact .duplicateDel hpc
  · rw [if_neg happ]
    have hrep : ¬ (t.under s.now o).replied = true := by
      rw [Outcome.eq_fail happ]
      exact Bool.false_ne_true
    rw [if_neg hrep]
    exact .move hpc .duplicateDelFailed

/-- **Inversion**: every section is one of the cases. -/
theorem of_stepThread {fetched : Option Response} (h : stepThread s i t o fetched = some s') :
    Ran s i t o s' := by
  cases hpc : t.pc <;> simp only [stepThread, hpc] at h
  case get => exact of_stepGet hpc h
  case releaseReader => exact of_stepReleaseReader hpc h
  case getRegister => exact of_stepGetRegister hpc h
  case replaceNow => exact of_stepReplaceNow hpc h
  case swap => exact of_stepSwap hpc h
  case removeLoad => exact of_stepRemoveLoad hpc h
  case removeDel => exact of_stepRemoveDel hpc h
  case schedule =>
    obtain ⟨hmu, rfl⟩ := State.eq_of_locked h
    exact .schedule hpc hmu
  case register =>
    obtain ⟨hmu, rfl⟩ := State.eq_of_locked h
    exact .register hpc hmu
  case warm =>
    obtain ⟨hmu, rfl⟩ := State.eq_of_locked h
    exact .warm hpc hmu
  case migrateRegister =>
    obtain ⟨hmu, rfl⟩ := State.eq_of_locked h
    exact .migrateRegister hpc hmu
  case duplicateForget =>
    obtain ⟨hmu, rfl⟩ := State.eq_of_locked h
    exact .duplicateForget hpc hmu
  case bypass =>
    rcases fetched with _ | fresh
    · obtain rfl := Option.some.inj h
      exact .move hpc (.bypass (.inl rfl))
    · obtain rfl := Option.some.inj h
      exact .move hpc (.bypass (.inr ⟨fresh, rfl⟩))
  case returned => cases h
  case crashed => cases h
  all_goals obtain rfl := Option.some.inj h
  case getBody => exact of_stepGetBody hpc
  case getChunk => exact of_stepGetChunk hpc
  case cleanup => exact of_stepCleanup hpc
  case expire => exact of_stepExpire hpc
  case scheduleFromMeta => exact .move hpc .scheduleFromMeta
  case refillMissing => exact .refill hpc
  case registerLoad => exact of_stepRegisterLoad hpc
  case acquire => exact of_stepAcquire hpc
  case loadOld => exact of_stepLoadOld hpc
  case fetch => exact of_stepFetch hpc
  case writeChunk => exact of_stepWriteChunk hpc
  case stamp => exact .move hpc .stamp
  case unlock => exact of_stepUnlock hpc
  case removeAcquire => exact of_stepRemoveAcquire hpc
  case migrateLoad => exact of_stepMigrateLoad hpc
  case migratePublish => exact of_stepMigratePublish hpc
  case duplicateLoad => exact of_stepDuplicateLoad hpc
  case duplicateDel => exact of_stepDuplicateDel hpc

end Ran

/-- A section replaces its own thread and may start one. -/
theorem Ran.threads {s s' : State P} {i : ℕ} {t : Thread P} {o : Outcome} (h : Ran s i t o s') :
    ∃ t', s'.threads = s.threads.set i t' ∨ ∃ u, s'.threads = s.threads.set i t' ++ [u] := by
  cases h with
  | registerMiss => exact ⟨_, .inr ⟨_, rfl⟩⟩
  | acquireFailed | acquired | removeAcquireFailed | removeAcquired =>
    exact ⟨_, .inl (State.attempted_setThread ..)⟩
  | _ => exact ⟨_, .inl rfl⟩

/-- The other threads stay as they are. -/
theorem Ran.other {s s' : State P} {i j : ℕ} {t u : Thread P} {o : Outcome} (h : Ran s i t o s')
    (hji : j ≠ i) (hj : s.threads[j]? = some u) : s'.threads[j]? = some u := by
  have hset : ∀ t', (s.threads.set i t')[j]? = some u := by
    intro t'
    rw [List.getElem?_set_ne hji.symm]
    exact hj
  obtain ⟨t', heq | ⟨w, heq⟩⟩ := h.threads
  · rw [heq]
    exact hset t'
  · rw [heq, List.getElem?_append_left (List.getElem?_eq_some_iff.mp (hset t')).1]
    exact hset t'

/-- After `release` the deferred call is over. -/
theorem Ran.unlocked {s s' : State P} {i : ℕ} {t : Thread P} {o : Outcome} {key : String}
    {opID : ℕ} {next : Pc} (h : Ran s i t o s') (hi : s.threads[i]? = some t)
    (hpc : t.pc = .unlock key opID next) : s'.threads[i]? = some { t with pc := next } := by
  have hset : ∀ u : Thread P, (s.threads.set i u)[i]? = some u :=
    fun u => List.getElem?_set_self (List.getElem?_eq_some_iff.mp hi).1
  cases h with
  | move hpc' hm =>
    rw [hpc] at hpc'
    subst hpc'
    cases hm
    exact hset _
  | unlock hpc' _ =>
    rw [hpc] at hpc'
    cases hpc'
    exact hset _
  | _ hpc' =>
    rw [hpc] at hpc'
    cases hpc'

/-- An operation that has returned does nothing any more. -/
theorem Ran.not_returned {s s' : State P} {i : ℕ} {t : Thread P} {o : Outcome} {r : Result}
    (h : Ran s i t o s') (hpc : t.pc = .returned r) : False := by
  cases h with
  | move hpc' hm =>
    rw [hpc] at hpc'
    subst hpc'
    cases hm
  | _ hpc' =>
    rw [hpc] at hpc'
    cases hpc'

/-- Neither does one whose process has crashed. -/
theorem Ran.not_crashed {s s' : State P} {i : ℕ} {t : Thread P} {o : Outcome}
    (h : Ran s i t o s') (hpc : t.pc = .crashed) : False := by
  cases h with
  | move hpc' hm =>
    rw [hpc] at hpc'
    subst hpc'
    cases hm
  | _ hpc' =>
    rw [hpc] at hpc'
    cases hpc'

/-- Sections take no time. -/
theorem Ran.now {s s' : State P} {i : ℕ} {t : Thread P} {o : Outcome} (h : Ran s i t o s') :
    s'.now = s.now := by
  cases h with
  | acquireFailed | acquired | removeAcquireFailed | removeAcquired =>
    exact State.attempted_now ..
  | _ => rfl

/-- The entries stay, a publish script is executed, or an entry is deleted. -/
theorem Ran.hash {s s' : State P} {i : ℕ} {t : Thread P} {o : Outcome} (h : Ran s i t o s') :
    s'.redis.hash = s.redis.hash ∨
      (∃ job staged fetchedAt, t.pc = .swap job staged fetchedAt ∧
        (t.under s.now o).applied = true ∧
        stagedChunksExist s.redis.chunks s.now job.spec.key staged.generation
          (chunkCount staged.response.body) = true ∧
        s'.redis.hash = Function.update s.redis.hash job.spec.key
          (some ⟨job.manifest staged fetchedAt, none⟩)) ∨
      ∃ key, ((∃ opID m, t.pc = .removeDel key opID m) ∨ t.pc = .duplicateDel key) ∧
        s'.redis.hash = Function.update s.redis.hash key none := by
  cases h with
  | acquireFailed | acquired | removeAcquireFailed | removeAcquired =>
    exact .inl (State.attempted_hash ..)
  | swapLost hpc _ ho hexist =>
    exact .inr (.inl ⟨_, _, _, hpc, by rw [ho]; rfl, hexist, rfl⟩)
  | swapFirst hpc _ ho hexist | swapWaits hpc _ ho hexist | swapClears hpc _ ho hexist =>
    exact .inr (.inl ⟨_, _, _, hpc, by rw [ho]; rfl, hexist, rfl⟩)
  | removeDelLost hpc | removeEmpty hpc | removeWaits hpc | removeClears hpc =>
    exact .inr (.inr ⟨_, .inl ⟨_, _, hpc⟩, rfl⟩)
  | duplicateDel hpc => exact .inr (.inr ⟨_, .inr hpc, rfl⟩)
  | _ => exact .inl rfl

/-! ## Actions -/

/-- Where a call starts. -/
inductive Call.Enters : Call → Pc → Prop where
  /-- the call is rejected, or there is nothing to do -/
  | done {call r} (hr : r = .ok ∨ ∃ e, r = .error e) : Enters call (.returned r)
  /-- `GetOrFetch` with a disabled cache -/
  | bypass {spec : Spec} (httl : spec.normalized.ttl ≤ 0) :
    Enters (.getOrFetch spec) (.bypass spec.normalized)
  /-- `GetOrFetch` -/
  | get {spec : Spec} (httl : 0 < spec.normalized.ttl) :
    Enters (.getOrFetch spec) (.get spec.normalized.key (.getOrFetch spec.normalized))
  /-- `Register` -/
  | register {spec : Spec} (httl : 0 < spec.normalized.ttl) :
    Enters (.register spec) (.registerLoad spec.normalized (.returned .ok))
  /-- `Warm` -/
  | warm {spec : Spec} (httl : 0 < spec.normalized.ttl) :
    Enters (.warm spec) (.warm spec.normalized)
  /-- `Purge` -/
  | purge {key : String} : Enters (.purge key) (.replaceNow key)
  /-- `Remove` -/
  | remove {key : String} : Enters (.remove key) (.removeAcquire key)
  /-- `MigrateLegacy` of a canonical key -/
  | migrateRegister {oldKey : String} {spec : Spec} (httl : 0 < spec.normalized.ttl) :
    Enters (.migrateLegacy oldKey spec) (.registerLoad spec.normalized (.returned .ok))
  /-- `MigrateLegacy` -/
  | migrate {oldKey : String} {spec : Spec} :
    Enters (.migrateLegacy oldKey spec) (.migrateLoad oldKey spec.normalized)

theorem Call.enters (call : Call) : call.Enters call.entry := by
  cases call with
  | getOrFetch spec =>
    unfold Call.entry
    dsimp only
    split
    · next httl => exact .bypass httl
    · next httl =>
      split
      · exact .done (.inr ⟨_, rfl⟩)
      · exact .get (Int.not_le.mp httl)
  | register spec =>
    unfold Call.entry registerEntry
    dsimp only
    split
    · exact .done (.inr ⟨_, rfl⟩)
    · split
      · exact .done (.inl rfl)
      · next httl => exact .register (Int.not_le.mp httl)
  | warm spec =>
    unfold Call.entry
    dsimp only
    split
    · exact .done (.inl rfl)
    · next httl =>
      split
      · exact .done (.inr ⟨_, rfl⟩)
      · exact .warm (Int.not_le.mp httl)
  | purge key =>
    unfold Call.entry
    dsimp only
    split
    · exact .purge
    · exact .done (.inr ⟨_, rfl⟩)
  | remove key =>
    unfold Call.entry
    dsimp only
    split
    · exact .remove
    · exact .done (.inr ⟨_, rfl⟩)
  | migrateLegacy oldKey spec =>
    unfold Call.entry registerEntry
    dsimp only
    split
    · split
      · exact .done (.inr ⟨_, rfl⟩)
      · split
        · exact .done (.inl rfl)
        · next httl => exact .migrateRegister (Int.not_le.mp httl)
    · split
      · exact .done (.inr ⟨_, rfl⟩)
      · exact .migrate

/-- What an action does. -/
inductive Steps (s : State P) : Action P → State P → Prop where
  /-- a caller starts an operation -/
  | start {p call deadline} :
    Steps s (.start p call deadline)
      (s.spawn
        { pid := p, call := some call, started := s.now, deadline := deadline,
          cancellable := true, cancelled := false, lease := none, lockedAt := 0,
          pc := call.entry })
  /-- a thread executes a section -/
  | run {i o fetched t s'} (hi : s.threads[i]? = some t) (h : Ran s i t o s') :
    Steps s (.run i o fetched) s'
  /-- a timer fires -/
  | fire {p key tm} (htm : (s.mgr p).timers key = some tm) (hp : tm.pending = true)
      (hdue : tm.due ≤ s.now) :
    Steps s (.fire p key)
      ((s.setMgr p
        { s.mgr p with
          timers := Function.update (s.mgr p).timers key (some { tm with pending := false }) }).spawn
        { pid := p, call := none, started := s.now, deadline := some (s.now + fetchTimeout),
          cancellable := false, cancelled := false, lease := none, lockedAt := 0,
          pc := .acquire tm.spec .refresh })
  /-- the first `Release` of a response -/
  | release {i t r hit key g} (hi : s.threads[i]? = some t)
      (hpc : t.pc = .returned (.response r hit)) (hl : t.lease = some (key, g)) :
    Steps s (.release i) (s.goto i t (.releaseReader key g (.returned (.response r hit))))
  /-- any other `Release` -/
  | releaseAgain {i} : Steps s (.release i) s
  /-- a caller cancels its context -/
  | cancel {i t} (hi : s.threads[i]? = some t) (hc : t.cancellable = true) :
    Steps s (.cancel i) (s.setThread i { t with cancelled := true })
  /-- time passes -/
  | tick {d} : Steps s (.tick d) { s with now := s.now + d }
  /-- a process is restarted -/
  | restart {p} : Steps s (.restart p) (stepRestart s p)

theorem Steps.of_step {s s' : State P} {a : Action P} (h : step s a = some s') : Steps s a s' := by
  cases a with
  | start p call deadline =>
    obtain rfl := Option.some.inj h
    exact .start
  | run i o fetched =>
    simp only [step] at h
    split at h
    · cases h
    · next t hi => exact .run hi (.of_stepThread h)
  | fire p key =>
    simp only [step, stepFire] at h
    split at h
    · cases h
    · next tm htm =>
      split at h
      · next hdue =>
        obtain rfl := Option.some.inj h
        exact .fire htm hdue.1 hdue.2
      · cases h
  | release i =>
    simp only [step, stepRelease] at h
    split at h
    · cases h
    · next t hi =>
      split at h
      · next r hit key g hpc hl =>
        obtain rfl := Option.some.inj h
        exact .release hi hpc hl
      · obtain rfl := Option.some.inj h
        exact .releaseAgain
  | cancel i =>
    simp only [step] at h
    split at h
    · cases h
    · next t hi =>
      split at h
      · next hc =>
        obtain rfl := Option.some.inj h
        exact .cancel hi hc
      · cases h
  | tick d =>
    obtain rfl := Option.some.inj h
    exact .tick
  | restart p =>
    obtain rfl := Option.some.inj h
    exact .restart

end IptvProxy.Cache
