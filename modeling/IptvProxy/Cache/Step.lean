import IptvProxy.Cache.Program

/-!
# One step of the cache

Each function below is the part of a source function that runs between two switch points: it
takes the state, the number `i` of the thread, the thread `t` and the outcome `o` of the command
the section issues. `none` means that the step is not enabled, which only a mutex held by another
thread causes. `step` dispatches on the program point and adds the environment: starting
operations, firing timers, `Release` calls, cancelled contexts, the clock and process restarts.
-/

namespace IptvProxy.Cache

variable {P : Type} [DecidableEq P]

namespace State

/-- Replace thread `i`. -/
def setThread (s : State P) (i : ℕ) (t : Thread P) : State P :=
  { s with threads := s.threads.set i t }

/-- Thread `i`, which is `t`, continues at `pc`. -/
def goto (s : State P) (i : ℕ) (t : Thread P) (pc : Pc) : State P :=
  s.setThread i { t with pc := pc }

/-- Replace the memory of a process. -/
def setMgr (s : State P) (p : P) (m : Manager) : State P :=
  { s with mgr := Function.update s.mgr p m }

/-- Replace the chunks. -/
def setChunks (s : State P) (c : ExpiringMap ChunkKey Body) : State P :=
  { s with redis := { s.redis with chunks := c } }

/-- Replace the locks. -/
def setLocks (s : State P) (l : ExpiringMap String ℕ) : State P :=
  { s with redis := { s.redis with locks := l } }

/-- Replace the hash of one manifest key. -/
def setHash (s : State P) (key : String) (h : Option Hash) : State P :=
  { s with redis := { s.redis with hash := Function.update s.redis.hash key h } }

/-- `newID`: use up an id. -/
def bumpID (s : State P) : State P := { s with nextID := s.nextID + 1 }

/-- Start an operation. -/
def spawn (s : State P) (t : Thread P) : State P := { s with threads := s.threads ++ [t] }

/-- A mutex section that is entered only while `mu` is free. -/
def locked (s : State P) (p : P) (next : State P) : Option (State P) :=
  if (s.mgr p).mu = none then some next else none

end State

open State

/-! ## Reading -/

/-- `get` up to the end of its mutex section. -/
def stepGet (s : State P) (i : ℕ) (t : Thread P) (o : Outcome) (key : String)
    (caller : GetCaller) : Option (State P) :=
  s.locked t.pid <|
    if (t.under s.now o).replied = false then s.goto i t (.returned (.error .redis))
    else match s.redis.loadManifest key with
      | none => s.goto i t caller.notFound
      | some m => match m.pinned with
        | none => s.goto i t (.getBody key m caller)
        | some g =>
          (s.setMgr t.pid ((s.mgr t.pid).pin (key, g))).setThread i
            { t with lease := some (key, g), pc := .getChunk key m g [] 0 caller }

/-- `get` of a legacy entry. -/
def stepGetBody (s : State P) (i : ℕ) (t : Thread P) (o : Outcome) (key : String) (m : Manifest)
    (caller : GetCaller) : State P :=
  if (t.under s.now o).replied = false then s.goto i t (.returned (.error .redis))
  else match (s.redis.hash key).bind Hash.body with
    | none => s.goto i t caller.notFound
    | some body => s.goto i t (caller.found key m (m.response body))

/-- One turn of the loop of `readGeneration`. -/
def stepGetChunk (s : State P) (i : ℕ) (t : Thread P) (o : Outcome) (key : String) (m : Manifest)
    (g : ℕ) (buffer : Body) (j : ℕ) (caller : GetCaller) : State P :=
  let failed := s.goto i t
    (.releaseReader key g (.returned (.error (.readChunk (j + 1) m.chunkCount))))
  if (t.under s.now o).replied = false then failed
  else match s.redis.chunks.lookup s.now ⟨key, g, j⟩ with
    | none => failed
    | some c =>
      if j + 1 < m.chunkCount then
        s.goto i t (.getChunk key m g (buffer ++ c.value) (j + 1) caller)
      else s.goto i t (caller.found key m (m.response (buffer ++ c.value)))

/-- `releaseGenerationReader`. -/
def stepReleaseReader (s : State P) (i : ℕ) (t : Thread P) (key : String) (g : ℕ) (next : Pc) :
    Option (State P) :=
  s.locked t.pid <|
    let (m, pending) := (s.mgr t.pid).unpin (key, g)
    let pc := match pending with
      | none => next
      | some r => .cleanupGeneration r.key r.generation r.chunkCount true next
    (s.setMgr t.pid m).setThread i { t with lease := none, pc := pc }

/-- One turn of the loop of `cleanupGeneration`; errors are ignored. -/
def stepCleanup (s : State P) (i : ℕ) (t : Thread P) (o : Outcome) (key : String) (g n j : ℕ)
    (background : Bool) (next : Pc) : State P :=
  let o := if background then o else t.under s.now o
  let pc := if j + 1 < n then .cleanup key g n (j + 1) background next else next
  if o.applied then (s.setChunks (s.redis.chunks.del ⟨key, g, j⟩)).goto i t pc else s.goto i t pc

/-- One turn of the loop of `expireGenerationFallback`; errors are ignored. -/
def stepExpire (s : State P) (i : ℕ) (t : Thread P) (o : Outcome) (key : String) (g n j : ℕ)
    (background : Bool) (next : Pc) : State P :=
  let o := if background then o else t.under s.now o
  let pc := if j + 1 < n then .expire key g n (j + 1) background next else next
  if o.applied then
    (s.setChunks (s.redis.chunks.expire s.now ⟨key, g, j⟩
      (s.now + retiredGenerationFallbackTTL))).goto i t pc
  else s.goto i t pc

/-! ## Registration and timers -/

/-- `GetOrFetch` after `get`: `registerIfAbsent`, then `scheduleFromMeta` on a hit and the
goroutine of `refillMissing` on a miss. -/
def stepGetRegister (s : State P) (i : ℕ) (t : Thread P) (spec : Spec)
    (found : Option (Manifest × Response)) : Option (State P) :=
  s.locked t.pid <|
    let (active, m) := (s.mgr t.pid).registerIfAbsent spec
    let s := s.setMgr t.pid m
    match found with
    | some (manifest, r) =>
      s.goto i t (.scheduleFromMeta active manifest.info (.returned (.response r true)))
    | none =>
      (s.goto i t (.returned (.error .cacheUnavailable))).spawn
        { pid := t.pid, call := none, started := s.now, deadline := none, cancellable := false,
          cancelled := false, lease := none, lockedAt := 0, pc := .refillMissing active }

/-- `schedule`. -/
def stepSchedule (s : State P) (i : ℕ) (t : Thread P) (spec : Spec) (delay : ℤ) (next : Pc) :
    Option (State P) :=
  s.locked t.pid <|
    (s.setMgr t.pid ((s.mgr t.pid).schedule s.now spec delay)).goto i t next

/-- `Register`: its `loadManifest`. -/
def stepRegisterLoad (s : State P) (i : ℕ) (t : Thread P) (o : Outcome) (spec : Spec)
    (next : Pc) : State P :=
  if (t.under s.now o).replied = false then s.goto i t (.returned (.error .redis))
  else match s.redis.loadManifest spec.key with
    | none => s.goto i t (.returned (.error .cacheUnavailable))
    | some m => s.goto i t (.register spec m.info next)

/-- `Register`: `register`. -/
def stepRegister (s : State P) (i : ℕ) (t : Thread P) (spec : Spec) (info : EntryMeta)
    (next : Pc) : Option (State P) :=
  s.locked t.pid <|
    (s.setMgr t.pid ((s.mgr t.pid).register spec)).goto i t (.scheduleFromMeta spec info next)

/-- `Warm`: `registerIfAbsent`, then into `replaceWithSpec`. -/
def stepWarm (s : State P) (i : ℕ) (t : Thread P) (spec : Spec) : Option (State P) :=
  s.locked t.pid <|
    let (active, m) := (s.mgr t.pid).registerIfAbsent spec
    (s.setMgr t.pid m).goto i (t.withTimeout s.now) (.acquire active .warm)

/-- `replaceNow`, then into `replaceWithSpec`. -/
def stepReplaceNow (s : State P) (i : ℕ) (t : Thread P) (key : String) : Option (State P) :=
  s.locked t.pid <|
    match (s.mgr t.pid).specs key with
    | none => s.goto i t (.returned (.error .noRegistration))
    | some spec => s.goto i (t.withTimeout s.now) (.acquire spec .purge)

/-! ## Replacement -/

/-- `acquire`, called by `replaceWithSpec` and `refillMissing`. -/
def stepAcquire (s : State P) (i : ℕ) (t : Thread P) (o : Outcome) (spec : Spec)
    (operation : Operation) : State P :=
  let o := t.under s.now o
  let busy := s.redis.locks.has s.now spec.key
  let opID := s.nextID
  let s := s.bumpID
  let s := if o.applied then
      s.setLocks (s.redis.locks.setNX s.now spec.key opID (s.now + lockTTL))
    else s
  if o.replied = false then s.goto i t (operation.failed spec .redis)
  else if busy then s.goto i t (operation.failed spec .replacementInProgress)
  else s.goto i { t with lockedAt := s.now } (.loadOld ⟨spec, operation, opID, none⟩)

/-- `loadManifest` under the lock. `refillMissing` stops if it finds an entry and goes on without
one otherwise, also when the command failed; `replaceWithSpec` returns the error. -/
def stepLoadOld (s : State P) (i : ℕ) (t : Thread P) (o : Outcome) (job : Job) : State P :=
  let replied := (t.under s.now o).replied
  let current := s.redis.loadManifest job.spec.key
  match job.operation with
  | .fill =>
    if replied && current.isSome then
      s.goto i t (.unlock job.spec.key job.opID (.returned .ok))
    else s.goto i t (.fetch { job with old := none })
  | _ =>
    if replied then s.goto i t (.fetch { job with old := current })
    else s.goto i t (job.failed .redis)

/-- `spec.Fetch` returns; a suspicious empty replacement is rejected. -/
def stepFetch (s : State P) (i : ℕ) (t : Thread P) (fetched : Option Response) (job : Job) :
    State P :=
  match fetched with
  | none => s.goto i t (job.failed .fetch)
  | some fresh =>
    if suspiciousEmpty job.old fresh then s.goto i t (job.failed .suspiciousEmptyReplacement)
    else s.bumpID.goto i t (job.staging ⟨s.nextID, fresh⟩ 0)

/-- One turn of the loop of `writeGeneration`. -/
def stepWriteChunk (s : State P) (i : ℕ) (t : Thread P) (o : Outcome) (job : Job)
    (staged : Staged) (j : ℕ) : State P :=
  let o := t.under s.now o
  let s := if o.applied then
      s.setChunks (s.redis.chunks.set ⟨job.spec.key, staged.generation, j⟩
        (bodyChunk staged.response.body j) (some (s.now + stagingGenerationTTL)))
    else s
  if o.replied then s.goto i t (job.staging staged (j + 1))
  else s.goto i t
    (.cleanupGeneration job.spec.key staged.generation j true (job.failed .redis))

/-- The first loop of the publish script: chunks `0 … n-1` exist. -/
def stagedChunksExist (c : ExpiringMap ChunkKey Body) (now : ℕ) (key : String) (g : ℕ) : ℕ → Bool
  | 0 => true
  | n + 1 => stagedChunksExist c now key g n && c.has now ⟨key, g, n⟩

/-- The second loop of the publish script: `PERSIST` of chunks `0 … n-1`. -/
def persistChunks (c : ExpiringMap ChunkKey Body) (now : ℕ) (key : String) (g : ℕ) :
    ℕ → ExpiringMap ChunkKey Body
  | 0 => c
  | n + 1 => (persistChunks c now key g n).persist now ⟨key, g, n⟩

/-- The effect of the publish script, once its existence checks have passed. -/
def publishGenerationScript (s : State P) (job : Job) (staged : Staged) (fetchedAt : ℕ) :
    State P :=
  let key := job.spec.key
  let m := job.manifest staged fetchedAt
  let s := s.setChunks (persistChunks s.redis.chunks s.now key staged.generation m.chunkCount)
  let s := s.setHash key (some ⟨m, none⟩)
  { s with published := ⟨key, m, staged.response.body, job.operation⟩ :: s.published }

/-- `publish` from `m.mu.Lock()` on: the script, and on success the retirement of the old
generation. -/
def stepSwap (s : State P) (i : ℕ) (t : Thread P) (o : Outcome) (job : Job) (staged : Staged)
    (fetchedAt : ℕ) : Option (State P) :=
  s.locked t.pid <|
    let o := t.under s.now o
    let key := job.spec.key
    let n := chunkCount staged.response.body
    let exist := stagedChunksExist s.redis.chunks s.now key staged.generation n
    let failed (e : Error) :=
      Pc.cleanupGeneration key staged.generation n true (job.failed e)
    if o.applied && exist then
      let s := publishGenerationScript s job staged fetchedAt
      if o.replied = false then s.goto i t (failed .redis)
      else match job.retires staged.generation with
        | none => s.goto i t job.published
        | some r =>
          if 0 < (s.mgr t.pid).readers (key, r.generation) then
            (s.setMgr t.pid ((s.mgr t.pid).retire r)).goto i t
              (.expireGenerationFallback key r.generation r.chunkCount true job.published)
          else s.goto i t
            (.cleanupGeneration key r.generation r.chunkCount true job.published)
    else s.goto i t (failed (if o.replied then .missingStagedChunk else .redis))

/-- `release`. -/
def stepUnlock (s : State P) (i : ℕ) (t : Thread P) (o : Outcome) (key : String) (opID : ℕ)
    (next : Pc) : State P :=
  if o.applied then (s.setLocks (s.redis.locks.delIfEq s.now key opID)).goto i t next
  else s.goto i t next

/-! ## Remove -/

/-- `Remove`: `acquire`. -/
def stepRemoveAcquire (s : State P) (i : ℕ) (t : Thread P) (o : Outcome) (key : String) :
    State P :=
  let o := t.under s.now o
  let busy := s.redis.locks.has s.now key
  let opID := s.nextID
  let s := s.bumpID
  let s := if o.applied then
      s.setLocks (s.redis.locks.setNX s.now key opID (s.now + lockTTL))
    else s
  if o.replied = false then s.goto i t (.returned (.error .redis))
  else if busy then s.goto i t (.returned (.error .replacementInProgress))
  else s.goto i { t with lockedAt := s.now } (.removeLoad key opID)

/-- `Remove`: lock `mu` and read the manifest. -/
def stepRemoveLoad (s : State P) (i : ℕ) (t : Thread P) (o : Outcome) (key : String) (opID : ℕ) :
    Option (State P) :=
  s.locked t.pid <|
    if (t.under s.now o).replied then
      (s.setMgr t.pid { s.mgr t.pid with mu := some i }).goto i t
        (.removeDel key opID (s.redis.loadManifest key))
    else s.goto i t (.unlock key opID (.returned (.error .redis)))

/-- The generation `Remove` retires. -/
def removeRetires (key : String) (m : Option Manifest) : Option RetiredGeneration := do
  let m ← m
  let g ← m.pinned
  some ⟨key, g, m.chunkCount, m.descriptor⟩

/-- `Remove`: delete the manifest, forget the key, retire the generation, unlock `mu`. -/
def stepRemoveDel (s : State P) (i : ℕ) (t : Thread P) (o : Outcome) (key : String) (opID : ℕ)
    (m : Option Manifest) : Option (State P) :=
  if (s.mgr t.pid).mu = some i then
    let o := t.under s.now o
    let mgr := { s.mgr t.pid with mu := none }
    let s := if o.applied then s.setHash key none else s
    if o.replied then
      let mgr := mgr.forget key
      some <| match removeRetires key m with
        | none => (s.setMgr t.pid mgr).goto i t (.unlock key opID (.returned .ok))
        | some r =>
          if 0 < mgr.readers (key, r.generation) then
            (s.setMgr t.pid (mgr.retire r)).goto i t
              (.expireGenerationFallback key r.generation r.chunkCount false
                (.unlock key opID (.returned .ok)))
          else (s.setMgr t.pid mgr).goto i t
            (.cleanupGeneration key r.generation r.chunkCount false
              (.unlock key opID (.returned .ok)))
    else some ((s.setMgr t.pid mgr).goto i t (.unlock key opID (.returned (.error .redis))))
  else none

/-! ## MigrateLegacy -/

/-- `MigrateLegacy`: `loadManifest` of the canonical key. -/
def stepMigrateLoad (s : State P) (i : ℕ) (t : Thread P) (o : Outcome) (oldKey : String)
    (spec : Spec) : State P :=
  if (t.under s.now o).replied = false then s.goto i t (.returned (.error .redis))
  else match s.redis.loadManifest spec.key with
    | some _ => s.goto i t (registerEntry spec (.duplicateLoad oldKey))
    | none => s.goto i t (.get oldKey (.migrate spec))

/-- `MigrateLegacy` with the response of the old key in hand. -/
def stepMigratePublish (s : State P) (i : ℕ) (t : Thread P) (oldKey : String) (spec : Spec)
    (r : Response) : State P :=
  if spec.ttl ≤ 0 then s.goto i t (.returned (.error .migrateDisabled))
  else s.bumpID.goto i t
    (Job.staging ⟨spec, .migrate oldKey, 0, none⟩ ⟨s.nextID, r⟩ 0)

/-- `MigrateLegacy`: `register`, then `scheduleAtThreshold` and `deleteDuplicate`. -/
def stepMigrateRegister (s : State P) (i : ℕ) (t : Thread P) (oldKey : String) (spec : Spec) :
    Option (State P) :=
  s.locked t.pid <|
    (s.setMgr t.pid ((s.mgr t.pid).register spec)).goto i t
      (.schedule spec (thresholdDelay spec.ttl) (.duplicateLoad oldKey))

/-- `deleteDuplicate`: `loadManifest` and the cleanup of its generation. -/
def stepDuplicateLoad (s : State P) (i : ℕ) (t : Thread P) (o : Outcome) (key : String) :
    State P :=
  if (t.under s.now o).replied = false then s.goto i t (.returned (.error .redis))
  else match removeRetires key (s.redis.loadManifest key) with
    | none => s.goto i t (.duplicateForget key)
    | some r => s.goto i t
      (.cleanupGeneration key r.generation r.chunkCount false (.duplicateForget key))

/-- `deleteDuplicate`: stop the timer and forget the key. -/
def stepDuplicateForget (s : State P) (i : ℕ) (t : Thread P) (key : String) : Option (State P) :=
  s.locked t.pid <|
    (s.setMgr t.pid ((s.mgr t.pid).forget key)).goto i t (.duplicateDel key)

/-- `deleteDuplicate`: `DEL` of the manifest and of its lock. -/
def stepDuplicateDel (s : State P) (i : ℕ) (t : Thread P) (o : Outcome) (key : String) :
    State P :=
  let o := t.under s.now o
  let s := if o.applied then
      (s.setHash key none).setLocks (s.redis.locks.del key)
    else s
  if o.replied then s.goto i t (.returned .ok) else s.goto i t (.returned (.error .redis))

/-! ## The step function -/

/-- A thread executes its next section. -/
def stepThread (s : State P) (i : ℕ) (t : Thread P) (o : Outcome) (fetched : Option Response) :
    Option (State P) :=
  match t.pc with
  | .bypass _ => match fetched with
    | none => some (s.goto i t (.returned (.error .fetch)))
    | some r => some (s.goto i t (.returned (.response r false)))
  | .get key caller => stepGet s i t o key caller
  | .getBody key m caller => some (stepGetBody s i t o key m caller)
  | .getChunk key m g buffer j caller => some (stepGetChunk s i t o key m g buffer j caller)
  | .releaseReader key g next => stepReleaseReader s i t key g next
  | .cleanup key g n j background next => some (stepCleanup s i t o key g n j background next)
  | .expire key g n j background next => some (stepExpire s i t o key g n j background next)
  | .getRegister spec found => stepGetRegister s i t spec found
  | .scheduleFromMeta spec info next =>
    some (s.goto i t (.schedule spec (delayFromMeta spec.ttl info s.now) next))
  | .schedule spec delay next => stepSchedule s i t spec delay next
  | .refillMissing spec => some (s.goto i (t.withTimeout s.now) (.acquire spec .fill))
  | .registerLoad spec next => some (stepRegisterLoad s i t o spec next)
  | .register spec info next => stepRegister s i t spec info next
  | .warm spec => stepWarm s i t spec
  | .replaceNow key => stepReplaceNow s i t key
  | .acquire spec operation => some (stepAcquire s i t o spec operation)
  | .loadOld job => some (stepLoadOld s i t o job)
  | .fetch job => some (stepFetch s i t fetched job)
  | .writeChunk job staged j => some (stepWriteChunk s i t o job staged j)
  | .stamp job staged => some (s.goto i t (.swap job staged s.now))
  | .swap job staged fetchedAt => stepSwap s i t o job staged fetchedAt
  | .unlock key opID next => some (stepUnlock s i t o key opID next)
  | .removeAcquire key => some (stepRemoveAcquire s i t o key)
  | .removeLoad key opID => stepRemoveLoad s i t o key opID
  | .removeDel key opID m => stepRemoveDel s i t o key opID m
  | .migrateLoad oldKey spec => some (stepMigrateLoad s i t o oldKey spec)
  | .migratePublish oldKey spec r => some (stepMigratePublish s i t oldKey spec r)
  | .migrateRegister oldKey spec => stepMigrateRegister s i t oldKey spec
  | .duplicateLoad key => some (stepDuplicateLoad s i t o key)
  | .duplicateForget key => stepDuplicateForget s i t key
  | .duplicateDel key => some (stepDuplicateDel s i t o key)
  | .returned _ => none
  | .crashed => none

/-- Everything that can happen next. -/
inductive Action (P : Type) where
  /-- a caller starts an operation, under a context that may have a deadline -/
  | start (p : P) (call : Call) (deadline : Option ℕ)
  /-- thread `i` executes its next section; `fetched` is what a running `Fetch` returns -/
  | run (i : ℕ) (o : Outcome) (fetched : Option Response)
  /-- the timer of a key fires -/
  | fire (p : P) (key : String)
  /-- the holder of the response of thread `i` calls `Release` -/
  | release (i : ℕ)
  /-- the caller of thread `i` cancels its context -/
  | cancel (i : ℕ)
  /-- time passes -/
  | tick (d : ℕ)
  /-- process `p` crashes and is started again -/
  | restart (p : P)
  deriving DecidableEq

/-- A timer fires: its callback `refresh` starts, under a context of its own. -/
def stepFire (s : State P) (p : P) (key : String) : Option (State P) :=
  match (s.mgr p).timers key with
  | none => none
  | some tm =>
    if tm.pending ∧ tm.due ≤ s.now then
      let m := s.mgr p
      let m := { m with timers := Function.update m.timers key (some { tm with pending := false }) }
      some <| (s.setMgr p m).spawn
        { pid := p, call := none, started := s.now, deadline := some (s.now + fetchTimeout),
          cancellable := false, cancelled := false, lease := none, lockedAt := 0,
          pc := .acquire tm.spec .refresh }
    else none

/-- `Response.Release`: the first call runs `releaseGenerationReader`, later ones do nothing. -/
def stepRelease (s : State P) (i : ℕ) : Option (State P) :=
  match s.threads[i]? with
  | none => none
  | some t => match t.pc, t.lease with
    | .returned (.response r hit), some (key, g) =>
      some (s.goto i t (.releaseReader key g (.returned (.response r hit))))
    | _, _ => some s

/-- A process loses its memory and its operations; Redis keeps everything. -/
def stepRestart (s : State P) (p : P) : State P :=
  { s with
    mgr := Function.update s.mgr p newManager
    threads := s.threads.map fun t =>
      if t.pid = p then { t with lease := none, pc := .crashed } else t }

/-- **The step function** of the system. -/
def step (s : State P) : Action P → Option (State P)
  | .start p call deadline =>
    some <| s.spawn
      { pid := p, call := some call, started := s.now, deadline := deadline, cancellable := true,
        cancelled := false, lease := none, lockedAt := 0, pc := call.entry }
  | .run i o fetched => match s.threads[i]? with
    | none => none
    | some t => stepThread s i t o fetched
  | .fire p key => stepFire s p key
  | .release i => stepRelease s i
  | .cancel i => match s.threads[i]? with
    | none => none
    | some t => if t.cancellable then some (s.setThread i { t with cancelled := true }) else none
  | .tick d => some { s with now := s.now + d }
  | .restart p => some (stepRestart s p)

/-- An empty server and fresh processes. -/
def init : State P where
  now := 0
  redis := ⟨fun _ => none, .empty, .empty⟩
  mgr := fun _ => newManager
  threads := []
  nextID := 1
  published := []

end IptvProxy.Cache
