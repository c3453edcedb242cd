import IptvProxy.Cache.Program

/-!
# The bulk cache refresh and its status record

`internal/proxy/cache_bulk.go` and `runWarmAllCache` of `internal/proxy/cache_warm.go`. Any number
of processes start bulk refreshes and poll `CacheBulkStatus`; they share two Redis keys, the
ownership lock and the persisted record. A caller is a thread, its program point says which Redis
command or call it executes next, and one step is one command, one `warmOne`, one look at the
context or one call of `resolver.Providers`.

`newBulkOperationID` draws twelve random bytes; here an id is a number that is never drawn twice.
Clock readings are nanoseconds.
-/

namespace IptvProxy.Bulk

open Cache (Outcome hour minute second)

/-- `bulkCacheLockKey` -/
def bulkCacheLockKey : String := "iptv:cache-bulk-lock"

/-- `bulkCacheStateKey` -/
def bulkCacheStateKey : String := "iptv:cache-bulk-state"

/-- How long the ownership lock survives its owner. -/
def bulkCacheLockTTL : ℕ := 3 * hour + 10 * minute

/-- Expiry of the record of an active refresh. -/
def bulkCacheActiveTTL : ℕ := 3 * hour + 15 * minute

/-- Expiry of the record of an ended refresh. -/
def bulkCacheHistoryTTL : ℕ := 7 * 24 * hour

/-! ## The record -/

/-- The field `status`. -/
inductive Status where
  | idle
  | refreshing
  | interrupted
  | failed
  /-- `partial` -/
  | partially
  | succeeded
  deriving DecidableEq, Repr

/-- `BulkCacheState` -/
structure BulkCacheState where
  /-- `status` -/
  status : Status
  /-- `operationId`, `none` for the empty string -/
  operationID : Option ℕ
  /-- `startedAt`, in seconds -/
  startedAt : ℕ
  /-- `updatedAt` -/
  updatedAt : ℕ
  /-- `finishedAt` -/
  finishedAt : ℕ
  /-- entries begun -/
  started : ℕ
  /-- entries refreshed -/
  succeeded : ℕ
  /-- entries that failed -/
  failed : ℕ
  /-- entries another operation was refreshing -/
  skipped : ℕ
  /-- what went wrong -/
  errors : List String
  deriving DecidableEq, Repr

namespace BulkCacheState

/-- What a poll reports when nothing is stored. -/
def idle : BulkCacheState := ⟨.idle, none, 0, 0, 0, 0, 0, 0, 0, []⟩

/-- The record `beginBulkCacheRefresh` starts with. -/
def begun (now id : ℕ) : BulkCacheState :=
  ⟨.refreshing, some id, now / second, now / second, 0, 0, 0, 0, 0, []⟩

/-- What `saveBulkCacheState` encodes. -/
def saved (now : ℕ) (st : BulkCacheState) : BulkCacheState := { st with updatedAt := now / second }

/-- A failure of the whole run or of one entry. -/
def fail (st : BulkCacheState) (err : String) : BulkCacheState :=
  { st with failed := st.failed + 1, errors := st.errors ++ [err] }

/-- The switch of `finishBulkCacheRefresh`. -/
def finalStatus (st : BulkCacheState) : Status :=
  if st.failed > 0 ∧ st.succeeded = 0 ∧ st.skipped = 0 then .failed
  else if st.failed > 0 then .partially
  else .succeeded

/-- The record `finishBulkCacheRefresh` stores. -/
def finish (now : ℕ) (st : BulkCacheState) : BulkCacheState :=
  { st with finishedAt := now / second, status := st.finalStatus }

/-- The record a poll stores when it finds no lock. -/
def interrupt (now : ℕ) (st : BulkCacheState) : BulkCacheState :=
  { st with
    status := .interrupted
    finishedAt := now / second
    errors := if st.errors.length = 0 then
      ["Cache refresh process ended before recording completion."] else st.errors }

@[simp] theorem saved_status (now : ℕ) (st : BulkCacheState) :
    (saved now st).status = st.status := rfl

@[simp] theorem saved_operationID (now : ℕ) (st : BulkCacheState) :
    (saved now st).operationID = st.operationID := rfl

@[simp] theorem fail_status (st : BulkCacheState) (err : String) :
    (st.fail err).status = st.status := rfl

@[simp] theorem fail_operationID (st : BulkCacheState) (err : String) :
    (st.fail err).operationID = st.operationID := rfl

@[simp] theorem finish_operationID (now : ℕ) (st : BulkCacheState) :
    (finish now st).operationID = st.operationID := rfl

@[simp] theorem interrupt_status (now : ℕ) (st : BulkCacheState) :
    (interrupt now st).status = .interrupted := rfl

@[simp] theorem interrupt_operationID (now : ℕ) (st : BulkCacheState) :
    (interrupt now st).operationID = st.operationID := rfl

end BulkCacheState

/-- The statuses `finishBulkCacheRefresh` stores. -/
def Status.final : Status → Bool
  | .failed | .partially | .succeeded => true
  | _ => false

theorem BulkCacheState.finalStatus_final (st : BulkCacheState) : st.finalStatus.final = true := by
  unfold finalStatus
  split
  · rfl
  · split <;> rfl

/-! ## Threads -/

/-- How `warmOne` ends. -/
inductive Warmed where
  | ok
  /-- `ErrReplacementInProgress` -/
  | busy
  /-- any other error, with the text that goes into the record -/
  | error (text : String)
  deriving DecidableEq, Repr

/-- The record after one entry. -/
def BulkCacheState.warmed (st : BulkCacheState) : Warmed → BulkCacheState
  | .ok => { st with succeeded := st.succeeded + 1 }
  | .busy => { st with skipped := st.skipped + 1 }
  | .error text => st.fail text

/-- Where a caller is, with the record it has in hand. `left` counts the cache entries after the
current one. -/
inductive Pc where
  /-- `beginBulkCacheRefresh`: `SETNX` of the lock -/
  | acquire (st : BulkCacheState)
  /-- `beginBulkCacheRefresh`: first save -/
  | saveBegun (st : BulkCacheState)
  /-- `beginBulkCacheRefresh`: the first save failed, release the lock -/
  | releaseFailed (st : BulkCacheState)
  /-- `beginBulkCacheRefresh` returned an error -/
  | beginFailed (st : BulkCacheState)
  /-- `runWarmAllCache`: `resolver.Providers` -/
  | providers (st : BulkCacheState)
  /-- `runWarmAllCache`: look at the context before the next entry -/
  | nextEntry (st : BulkCacheState) (left : ℕ)
  /-- `runWarmAllCache`: save that an entry is started -/
  | saveStarted (st : BulkCacheState) (left : ℕ)
  /-- `runWarmAllCache`: `warmOne` -/
  | warmOne (st : BulkCacheState) (left : ℕ)
  /-- `runWarmAllCache`: save the outcome of an entry -/
  | saveWarmed (st : BulkCacheState) (left : ℕ)
  /-- `runWarmAllCache`: the save before an early return -/
  | saveStopped (st : BulkCacheState)
  /-- `finishBulkCacheRefresh`: save the final record -/
  | saveFinal (st : BulkCacheState)
  /-- `finishBulkCacheRefresh`: release the lock -/
  | release (st : BulkCacheState)
  /-- the refresh is over -/
  | finished (st : BulkCacheState)
  /-- `CacheBulkStatus`: `GET` -/
  | pollRead
  /-- `CacheBulkStatus`: `EXISTS` of the lock, after reading an active record -/
  | pollLock (read : BulkCacheState)
  /-- `CacheBulkStatus`: save the interrupted record -/
  | pollSave (read st : BulkCacheState)
  /-- `CacheBulkStatus` returned this record -/
  | reported (st : BulkCacheState)
  /-- `CacheBulkStatus` returned an error -/
  | pollFailed
  /-- the process is gone; the operation it was executing -/
  | crashed (operation : Option ℕ)
  deriving DecidableEq, Repr

/-- The rest of the loop of `runWarmAllCache`: the next entry, or `finishBulkCacheRefresh`. -/
def Pc.loop (now : ℕ) (st : BulkCacheState) : ℕ → Pc
  | 0 => .saveFinal (st.finish now)
  | left + 1 => .nextEntry st left

/-- The bulk operation the caller executes or executed. -/
def Pc.operation : Pc → Option ℕ
  | acquire st | saveBegun st | releaseFailed st | beginFailed st | providers st | nextEntry st _
  | saveStarted st _ | warmOne st _ | saveWarmed st _ | saveStopped st | saveFinal st | release st
  | finished st => st.operationID
  | pollRead | pollLock _ | pollSave _ _ | reported _ | pollFailed => none
  | crashed operation => operation

/-- The caller has returned or is gone. -/
def Pc.ended : Pc → Bool
  | beginFailed _ | finished _ | reported _ | pollFailed | crashed _ => true
  | _ => false

/-! ## Steps -/

/-- Redis, the clock and the callers. -/
structure State where
  /-- clock -/
  now : ℕ
  /-- the next operation id -/
  nextID : ℕ
  /-- the ownership lock -/
  locks : ExpiringMap String ℕ
  /-- the persisted record -/
  records : ExpiringMap String BulkCacheState
  /-- the callers -/
  threads : List Pc

/-- Nothing stored, nobody there. -/
def init : State := ⟨0, 0, ExpiringMap.empty, ExpiringMap.empty, []⟩

namespace State

/-- The lock exists. -/
def locked (s : State) : Bool := s.locks.has s.now bulkCacheLockKey

/-- The stored record. -/
def record (s : State) : Option BulkCacheState :=
  (s.records.lookup s.now bulkCacheStateKey).map Expiring.value

/-- Thread `i` goes on to `pc`. -/
def goto (s : State) (i : ℕ) (pc : Pc) : State := { s with threads := s.threads.set i pc }

/-- A new caller. -/
def spawn (s : State) (pc : Pc) : State := { s with threads := s.threads ++ [pc] }

/-- `SETNX` of the lock. -/
def setLock (s : State) (o : Outcome) (id : ℕ) : State :=
  if o.applied then
    { s with locks := s.locks.setNX s.now bulkCacheLockKey id (s.now + bulkCacheLockTTL) }
  else s

/-- `saveBulkCacheState` -/
def saveBulkCacheState (s : State) (o : Outcome) (st : BulkCacheState) (ttl : ℕ) : State :=
  if o.applied then
    { s with records := s.records.set bulkCacheStateKey (st.saved s.now) (some (s.now + ttl)) }
  else s

/-- `releaseBulkCacheLockScript` -/
def releaseBulkCacheLock (s : State) (o : Outcome) (st : BulkCacheState) : State :=
  match o.applied, st.operationID with
  | true, some id => { s with locks := s.locks.delIfEq s.now bulkCacheLockKey id }
  | _, _ => s

end State

/-- What the environment decides at a step: how a command ends, what `resolver.Providers` returns
(the number of providers with caching on), whether the context has ended, how `warmOne` ends. -/
inductive Choice where
  | redis (o : Outcome)
  | providers (r : Except String ℕ)
  | context (ended : Option String)
  | warm (r : Warmed)

/-- `standardWarmSpecs` has five entries. -/
def standardWarmSpecs : ℕ := 5

/-- The lock command of `beginBulkCacheRefresh`; a busy lock makes the caller a poll. -/
def stepAcquire (s : State) (i : ℕ) (st : BulkCacheState) (id : ℕ) (o : Outcome) : State :=
  (s.setLock o id).goto i <|
    if o.replied = false then .beginFailed st
    else if s.locked then .pollRead
    else .saveBegun st

/-- The first command of `CacheBulkStatus`. -/
def stepPollRead (s : State) (i : ℕ) (o : Outcome) : State :=
  s.goto i <|
    if o.replied = false then .pollFailed
    else match s.record with
      | none => .reported .idle
      | some st => if st.status = .refreshing then .pollLock st else .reported st

/-- The second command of `CacheBulkStatus`. -/
def stepPollLock (s : State) (i : ℕ) (read : BulkCacheState) (o : Outcome) : State :=
  s.goto i <|
    if o.replied = false ∨ s.locked = true then .reported read
    else .pollSave read (read.interrupt s.now)

/-- One step of thread `i`. -/
def stepThread (s : State) (i : ℕ) : Pc → Choice → Option State
  | .acquire st, .redis o => st.operationID.map fun id => stepAcquire s i st id o
  | .saveBegun st, .redis o =>
    some ((s.saveBulkCacheState o st bulkCacheActiveTTL).goto i
      (if o.replied then .providers st else .releaseFailed st))
  | .releaseFailed st, .redis o => some ((s.releaseBulkCacheLock o st).goto i (.beginFailed st))
  | .providers st, .providers (.error text) => some (s.goto i (.saveStopped (st.fail text)))
  | .providers st, .providers (.ok n) => some (s.goto i (.loop s.now st (standardWarmSpecs * n)))
  | .nextEntry st _, .context (some text) => some (s.goto i (.saveStopped (st.fail text)))
  | .nextEntry st left, .context none =>
    some (s.goto i (.saveStarted { st with started := st.started + 1 } left))
  | .saveStarted st left, .redis o =>
    some ((s.saveBulkCacheState o st bulkCacheActiveTTL).goto i (.warmOne st left))
  | .warmOne st left, .warm r => some (s.goto i (.saveWarmed (st.warmed r) left))
  | .saveWarmed st left, .redis o =>
    some ((s.saveBulkCacheState o st bulkCacheActiveTTL).goto i (.loop s.now st left))
  | .saveStopped st, .redis o =>
    some ((s.saveBulkCacheState o st bulkCacheActiveTTL).goto i (.saveFinal (st.finish s.now)))
  | .saveFinal st, .redis o =>
    some ((s.saveBulkCacheState o st bulkCacheHistoryTTL).goto i (.release st))
  | .release st, .redis o => some ((s.releaseBulkCacheLock o st).goto i (.finished st))
  | .pollRead, .redis o => some (stepPollRead s i o)
  | .pollLock read, .redis o => some (stepPollLock s i read o)
  | .pollSave _ st, .redis o =>
    some ((s.saveBulkCacheState o st bulkCacheHistoryTTL).goto i (.reported st))
  | _, _ => none

/-- What happens next. -/
inductive Action where
  /-- somebody calls `beginBulkCacheRefresh` and, if it gets the lock, runs the refresh -/
  | start
  /-- somebody calls `CacheBulkStatus` -/
  | poll
  /-- a step of thread `i` -/
  | run (i : ℕ) (c : Choice)
  /-- time passes -/
  | tick (d : ℕ)
  /-- the process of thread `i` is killed -/
  | crash (i : ℕ)

/-- The step function. -/
def step (s : State) : Action → Option State
  | .start =>
    some { s.spawn (.acquire (.begun s.now s.nextID)) with nextID := s.nextID + 1 }
  | .poll => some (s.spawn .pollRead)
  | .run i c => s.threads[i]?.bind fun pc => stepThread s i pc c
  | .tick d => some { s with now := s.now + d }
  | .crash i => s.threads[i]?.bind fun pc =>
    if pc.ended then none else some (s.goto i (.crashed pc.operation))

end IptvProxy.Bulk
