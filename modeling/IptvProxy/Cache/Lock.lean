import IptvProxy.Lib.Transition
import IptvProxy.Lib.LeaseLock
import IptvProxy.Cache.Shape

/-!
# Replacement locks

The cache operations use the replacement lock of a key as a lock that expires. `Pc.holds` reads
the critical section of a thread off its program point: from a successful `acquire` to the deferred
`release`. Every step of the cache is then a step of `LeaseLock` (`Steps.lockView`), and the
theorems about such locks hold of the cache.
-/

namespace IptvProxy.Cache

open Agents LeaseLock Transition

variable {P : Type} [DecidableEq P]

/-- The lock a thread has acquired and not released: its key and its value. -/
def Pc.holds : Pc → Option (String × ℕ)
  | .loadOld job => some (job.spec.key, job.opID)
  | .fetch job => some (job.spec.key, job.opID)
  | .writeChunk job _ _ => some (job.spec.key, job.opID)
  | .stamp job _ => some (job.spec.key, job.opID)
  | .swap job _ _ => some (job.spec.key, job.opID)
  | .removeLoad key opID => some (key, opID)
  | .removeDel key opID _ => some (key, opID)
  | .unlock key opID _ => some (key, opID)
  | .cleanup _ _ _ _ _ next => next.holds
  | .expire _ _ _ _ _ next => next.holds
  | .schedule _ _ next => next.holds
  | _ => none

/-- The critical section of a thread. -/
def Thread.held (t : Thread P) : Option (Held String) :=
  t.pc.holds.map fun h => ⟨h.1, h.2, t.lockedAt⟩

/-- What the locks see of the system. -/
def lockView (s : State P) : LeaseLock.System String where
  now := s.now
  locks := s.redis.locks
  agents := s.threads.map Thread.held
  nextID := s.nextID

/-! ## Where the lock is held -/

@[simp] theorem Pc.holds_of_final {pc : Pc} (h : pc.final) : pc.holds = none := by
  induction pc with
  | returned => rfl
  | schedule _ _ next ih => exact ih h
  | _ => exact h.elim

@[simp] theorem Pc.holds_cleanupGeneration (key : String) (g n : ℕ) (background : Bool)
    (next : Pc) : (Pc.cleanupGeneration key g n background next).holds = next.holds := by
  unfold Pc.cleanupGeneration
  split <;> rfl

@[simp] theorem Pc.holds_expireGenerationFallback (key : String) (g n : ℕ) (background : Bool)
    (next : Pc) : (Pc.expireGenerationFallback key g n background next).holds = next.holds := by
  unfold Pc.expireGenerationFallback
  split <;> rfl

theorem Job.holds_failed {job : Job} (h : job.operation.plain) (e : Error) :
    (job.failed e).holds = some (job.spec.key, job.opID) := by
  unfold Job.failed
  split
  · next hop =>
    rw [hop] at h
    exact h.elim
  · rfl

theorem Job.holds_published {job : Job} (h : job.operation.plain) :
    job.published.holds = some (job.spec.key, job.opID) := by
  rw [Job.published_of_plain h]
  rfl

@[simp] theorem Job.holds_staging (job : Job) (staged : Staged) (i : ℕ) :
    (job.staging staged i).holds = some (job.spec.key, job.opID) := by
  unfold Job.staging
  split <;> rfl

@[simp] theorem GetCaller.holds_found {caller : GetCaller} (key : String) (m : Manifest)
    (r : Response) : (caller.found key m r).holds = none := by
  cases caller <;> rfl

@[simp] theorem GetCaller.holds_notFound {caller : GetCaller} : caller.notFound.holds = none := by
  cases caller <;> rfl

theorem Call.holds_entry (call : Call) : call.entry.holds = none := by
  have h := call.enters
  generalize call.entry = pc at h
  cases h <;> rfl

omit [DecidableEq P] in
/-- A thread keeps its lock, or leaves the critical section without releasing it. -/
theorem Moves.holds {s : State P} {t : Thread P} {o : Outcome} {pc pc' : Pc}
    (h : Moves s t o pc pc') (hp : pc.plain) : pc'.holds = pc.holds ∨ pc'.holds = none := by
  cases h with
  | getMissing | getBodyMissing => exact .inr GetCaller.holds_notFound
  | getBodyFound | getChunkDone => exact .inr (GetCaller.holds_found ..)
  | cleanupFailed | expireFailed =>
    refine .inl ?_
    split <;> rfl
  | loadOldFailed | fetchFailed => exact .inl (Job.holds_failed hp _)
  | writeChunkFailed | swapFailed =>
    refine .inl ?_
    rw [Pc.holds_cleanupGeneration, Job.holds_failed hp]
    rfl
  | scheduleFromMeta => exact .inr (Pc.holds_of_final hp)
  | unlockFailed => exact .inr (Pc.holds_of_final hp)
  | loadOldStop | loadOldFill | loadOld | stamp | removeLoadFailed => exact .inl rfl
  | bypass | getFailed | getLegacy | getBodyFailed | getChunkFailed | getChunkNext |
    registerLoadFailed | registerLoadFound | replaceNowMissing => exact .inr rfl
  | _ => exact hp.elim

/-! ## Steps -/

section Change

variable {s s' : State P} {i : ℕ} {t u : Thread P}

omit [DecidableEq P] in
/-- A step that leaves the server's locks alone and lets no thread in. -/
theorem lockStep_change (hnow : s'.now = s.now) (hlocks : s'.redis.locks = s.redis.locks)
    (hid : s'.nextID = s.nextID)
    (hsub : ∀ (j : ℕ) (u : Thread P) (h : Held String), s'.threads[j]? = some u →
      u.held = some h → ∃ u₀, s.threads[j]? = some u₀ ∧ u₀.held = some h) :
    LeaseLock.Step lockTTL (lockView s) (lockView s') := by
  have heq : lockView s' = { lockView s with agents := s'.threads.map Thread.held } := by
    unfold lockView
    rw [hnow, hlocks, hid]
  rw [heq]
  refine .change fun j h hj => ?_
  rw [List.getElem?_map] at hj
  obtain ⟨u, hu, huh⟩ := Option.map_eq_some_iff.mp hj
  obtain ⟨u₀, hu₀, hu₀h⟩ := hsub j u h hu huh
  change (s.threads.map Thread.held)[j]? = _
  rw [List.getElem?_map, hu₀, Option.map_some, hu₀h]

omit [DecidableEq P] in
/-- Thread `i` keeps its lock or leaves, the others stay. -/
theorem held_of_set (hi : s.threads[i]? = some t) (hheld : u.held = t.held ∨ u.held = none)
    {j : ℕ} {v : Thread P} {h : Held String} (hj : (s.threads.set i u)[j]? = some v)
    (hv : v.held = some h) : ∃ v₀, s.threads[j]? = some v₀ ∧ v₀.held = some h := by
  rcases getElem?_set_cases hj with ⟨rfl, rfl⟩ | ⟨-, hj⟩
  · rcases hheld with he | he
    · exact ⟨t, hi, by rw [← he]; exact hv⟩
    · rw [he] at hv
      cases hv
  · exact ⟨v, hj, hv⟩

omit [DecidableEq P] in
/-- A new thread holds nothing. -/
theorem held_of_append {ts : List (Thread P)} (hu : u.held = none) {j : ℕ} {v : Thread P}
    {h : Held String} (hj : (ts ++ [u])[j]? = some v) (hv : v.held = some h) :
    ts[j]? = some v := by
  rcases getElem?_append_cases hj with hj | rfl
  · exact hj
  · rw [hu] at hv
    cases hv

end Change

/-- A run of the lock server. -/
abbrev LockRun : LeaseLock.System String → LeaseLock.System String → Prop :=
  Relation.ReflTransGen (LeaseLock.Step lockTTL)

section Moved

variable {s s' : State P} {i : ℕ} {t u : Thread P}

omit [DecidableEq P] in
theorem held_of_holds (hpc : u.pc.holds = t.pc.holds ∨ u.pc.holds = none)
    (hat : u.lockedAt = t.lockedAt) : u.held = t.held ∨ u.held = none := by
  unfold Thread.held
  rcases hpc with h | h
  · exact .inl (by rw [h, hat])
  · exact .inr (by rw [h]; rfl)

omit [DecidableEq P] in
/-- Thread `i` goes on, and nothing happens to the locks. -/
theorem lockRun_goto (hi : s.threads[i]? = some t) (hnow : s'.now = s.now)
    (hlocks : s'.redis.locks = s.redis.locks) (hid : s'.nextID = s.nextID)
    (hthreads : s'.threads = s.threads.set i u)
    (hpc : u.pc.holds = t.pc.holds ∨ u.pc.holds = none) (hat : u.lockedAt = t.lockedAt) :
    LockRun (lockView s) (lockView s') := by
  refine .single (lockStep_change hnow hlocks hid fun j v h hj hv => ?_)
  rw [hthreads] at hj
  exact held_of_set hi (held_of_holds hpc hat) hj hv

omit [DecidableEq P] in
/-- The same with a new id. -/
theorem lockRun_bump (hi : s.threads[i]? = some t) (hnow : s'.now = s.now)
    (hlocks : s'.redis.locks = s.redis.locks) (hid : s'.nextID = s.nextID + 1)
    (hthreads : s'.threads = s.threads.set i u)
    (hpc : u.pc.holds = t.pc.holds ∨ u.pc.holds = none) (hat : u.lockedAt = t.lockedAt) :
    LockRun (lockView s) (lockView s') :=
  .head (b := lockView s.bumpID) .newID
    (lockRun_goto (s := s.bumpID) hi hnow hlocks hid hthreads hpc hat)

omit [DecidableEq P] in
/-- A thread outside every critical section tries to take a lock and stays outside. -/
theorem lockRun_attempt (hi : s.threads[i]? = some t) (hout : t.pc.holds = none) {key : String}
    {applied : Bool} {pc : Pc} (hpc : pc.holds = none) :
    LockRun (lockView s) (lockView ((s.attempted key applied).goto i t pc)) := by
  have hstep : LeaseLock.Step lockTTL (lockView s) (lockView (s.attempted key applied)) := by
    cases applied with
    | true => exact .attempt
    | false => exact .newID
  refine .head hstep (lockRun_goto (t := t) ?_ rfl rfl rfl rfl (.inl ?_) rfl)
  · rw [State.attempted_threads]
    exact hi
  · rw [hpc, hout]

omit [DecidableEq P] in
/-- A thread outside every critical section takes a free lock. -/
theorem lockRun_enter (hi : s.threads[i]? = some t) (hout : t.pc.holds = none) {key : String}
    (hfree : s.redis.locks.has s.now key = false) {pc : Pc}
    (hpc : pc.holds = some (key, s.nextID)) :
    LockRun (lockView s)
      (lockView ((s.attempted key true).goto i { t with lockedAt := s.now } pc)) := by
  have hagent : (s.threads.map Thread.held)[i]? = some none := by
    rw [List.getElem?_map, hi, Option.map_some, Thread.held, hout]
    rfl
  refine .single ?_
  have henter := @LeaseLock.Step.enter _ _ lockTTL (lockView s) _ _ hagent hfree
  have heq : lockView ((s.attempted key true).goto i { t with lockedAt := s.now } pc) =
      { lockView s with
        locks := (lockView s).locks.set key (lockView s).nextID
          (some ((lockView s).now + lockTTL))
        agents := (lockView s).agents.set i (some ⟨key, (lockView s).nextID, (lockView s).now⟩)
        nextID := (lockView s).nextID + 1 } := by
    have hset : s.redis.locks.setNX s.now key s.nextID (s.now + lockTTL) =
        s.redis.locks.set key s.nextID (some (s.now + lockTTL)) := by
      rw [ExpiringMap.setNX, if_neg (by rw [hfree]; exact Bool.false_ne_true)]
    have hheld : Thread.held { t with lockedAt := s.now, pc := pc } =
        some ⟨key, s.nextID, s.now⟩ := by
      rw [Thread.held, hpc]
      rfl
    unfold lockView
    simp only [State.goto, State.setThread, State.attempted, State.setLocks, State.bumpID,
      if_true, List.map_set, hheld, hset]
  rw [heq]
  exact henter

omit [DecidableEq P] in
/-- A thread releases its lock. -/
theorem lockRun_leave (hi : s.threads[i]? = some t) {key : String} {opID : ℕ} {next : Pc}
    (hpc : t.pc = .unlock key opID next) (hnext : next.holds = none) :
    LockRun (lockView s)
      (lockView ((s.setLocks (s.redis.locks.delIfEq s.now key opID)).goto i t next)) := by
  have hagent : (s.threads.map Thread.held)[i]? = some (some ⟨key, opID, t.lockedAt⟩) := by
    rw [List.getElem?_map, hi, Option.map_some, Thread.held, hpc]
    rfl
  refine .single ?_
  have hleave := @LeaseLock.Step.leave _ _ lockTTL (lockView s) _ _ hagent
  have heq : lockView ((s.setLocks (s.redis.locks.delIfEq s.now key opID)).goto i t next) =
      { lockView s with
        locks := (lockView s).locks.delIfEq (lockView s).now key opID
        agents := (lockView s).agents.set i none } := by
    have hheld : Thread.held { t with pc := next } = none := by
      rw [Thread.held, hnext]
      rfl
    unfold lockView
    simp only [State.goto, State.setThread, State.setLocks, List.map_set, hheld]
  rw [heq]
  exact hleave

end Moved

theorem Ran.lockView {s s' : State P} {i : ℕ} {t : Thread P} {o : Outcome} (h : Ran s i t o s')
    (hi : s.threads[i]? = some t) (hs : s.Shape) :
    LockRun (lockView s) (lockView s') := by
  have hp : t.pc.plain := (hs t (List.mem_of_getElem? hi)).plain
  cases h with
  | move hpc hm =>
    rw [hpc] at hp
    exact lockRun_goto hi rfl rfl rfl rfl (by rw [hpc]; exact hm.holds hp) rfl
  | pin _ _ _ _ => exact lockRun_goto hi rfl rfl rfl rfl (.inr rfl) rfl
  | unpin hpc _ =>
    rw [hpc] at hp
    refine lockRun_goto hi rfl rfl rfl rfl (.inr ?_) rfl
    dsimp only
    split
    · exact Pc.holds_of_final hp
    · rw [Pc.holds_cleanupGeneration]
      exact Pc.holds_of_final hp
  | cleanup hpc _ | expire hpc _ =>
    refine lockRun_goto hi rfl rfl rfl rfl (.inl ?_) rfl
    rw [hpc]
    dsimp only
    split <;> rfl
  | registerHit _ _ => exact lockRun_goto hi rfl rfl rfl rfl (.inr rfl) rfl
  | registerMiss _ _ =>
    -- neither the caller nor the goroutine it starts holds a lock
    refine .single (lockStep_change rfl rfl rfl fun j v h hj hv => ?_)
    have hold : (s.threads.set i { t with pc := .returned (.error .cacheUnavailable) })[j]? =
        some v := by
      refine held_of_append ?_ hj hv
      rfl
    refine held_of_set hi ?_ hold hv
    exact .inr rfl
  | schedule hpc _ => exact lockRun_goto hi rfl rfl rfl rfl (.inl (by rw [hpc]; rfl)) rfl
  | refill _ | register _ _ | warm _ _ | purge _ _ =>
    exact lockRun_goto hi rfl rfl rfl rfl (.inr rfl) rfl
  | @acquireFailed spec operation e applied hpc _ =>
    exact lockRun_attempt hi (by rw [hpc]; rfl) (Pc.holds_of_final (Operation.final_failed ..))
  | acquired hpc _ hfree => exact lockRun_enter hi (by rw [hpc]; rfl) hfree rfl
  | stage hpc _ =>
    refine lockRun_bump hi rfl rfl rfl rfl (.inl ?_) rfl
    rw [hpc]
    exact Job.holds_staging ..
  | writeChunk hpc _ =>
    rw [hpc] at hp
    refine lockRun_goto hi rfl rfl rfl rfl (.inl ?_) rfl
    rw [hpc]
    dsimp only
    -- the error path holds the lock until its `unlock`
    split
    · exact Job.holds_staging ..
    · rw [Pc.holds_cleanupGeneration, Job.holds_failed hp]
      rfl
  | swapLost hpc _ _ _ =>
    rw [hpc] at hp
    refine lockRun_goto hi rfl rfl rfl rfl (.inl ?_) rfl
    rw [hpc]
    dsimp only
    rw [Pc.holds_cleanupGeneration, Job.holds_failed hp]
    rfl
  | swapFirst hpc _ _ _ _ =>
    rw [hpc] at hp
    refine lockRun_goto hi rfl rfl rfl rfl (.inl ?_) rfl
    rw [hpc]
    exact Job.holds_published hp
  | swapWaits hpc _ _ _ _ _ =>
    rw [hpc] at hp
    refine lockRun_goto hi rfl rfl rfl rfl (.inl ?_) rfl
    rw [hpc]
    dsimp only
    rw [Pc.holds_expireGenerationFallback, Job.holds_published hp]
    rfl
  | swapClears hpc _ _ _ _ _ =>
    rw [hpc] at hp
    refine lockRun_goto hi rfl rfl rfl rfl (.inl ?_) rfl
    rw [hpc]
    dsimp only
    rw [Pc.holds_cleanupGeneration, Job.holds_published hp]
    rfl
  | unlock hpc _ =>
    rw [hpc] at hp
    exact lockRun_leave hi hpc (Pc.holds_of_final hp)
  | removeAcquireFailed hpc _ => exact lockRun_attempt hi (by rw [hpc]; rfl) rfl
  | removeAcquired hpc _ hfree => exact lockRun_enter hi (by rw [hpc]; rfl) hfree rfl
  | removeLoad hpc _ | removeDelFailed hpc _ _ | removeDelLost hpc _ _ | removeEmpty hpc _ _ _ =>
    exact lockRun_goto hi rfl rfl rfl rfl (.inl (by rw [hpc]; rfl)) rfl
  | removeWaits hpc _ _ _ _ =>
    refine lockRun_goto hi rfl rfl rfl rfl (.inl ?_) rfl
    rw [hpc]
    exact Pc.holds_expireGenerationFallback ..
  | removeClears hpc _ _ _ _ =>
    refine lockRun_goto hi rfl rfl rfl rfl (.inl ?_) rfl
    rw [hpc]
    exact Pc.holds_cleanupGeneration ..
  | migratePublish hpc _ | migrateRegister hpc _ | duplicateForget hpc _ | duplicateDel hpc =>
    rw [hpc] at hp
    exact hp.elim

/-- **Every step of the cache is a run of the lock server.** -/
theorem Steps.lockView {s s' : State P} {a : Action P} (h : Steps s a s') (hs : s.Shape) :
    LockRun (lockView s) (lockView s') := by
  cases h with
  | @start p call deadline =>
    refine .single (lockStep_change rfl rfl rfl fun j v h hj hv => ⟨v, ?_, hv⟩)
    refine held_of_append ?_ hj hv
    simp only [Thread.held, Call.holds_entry, Option.map_none]
  | run hi h => exact h.lockView hi hs
  | fire _ _ _ =>
    refine .single (lockStep_change rfl rfl rfl fun j v h hj hv => ⟨v, ?_, hv⟩)
    refine held_of_append ?_ hj hv
    rfl
  | release hi _ _ => exact lockRun_goto hi rfl rfl rfl rfl (.inr rfl) rfl
  | releaseAgain => exact .refl
  | cancel hi _ => exact lockRun_goto hi rfl rfl rfl rfl (.inl rfl) rfl
  | tick => exact .single (.tick _)
  | @restart p =>
    refine .single (lockStep_change rfl rfl rfl fun j v h hj hv => ?_)
    obtain ⟨u, hu, rfl⟩ := Option.map_eq_some_iff.mp (List.getElem?_map ▸ hj)
    refine ⟨u, hu, ?_⟩
    split at hv
    · cases hv
    · exact hv

/-- **The locks in every reachable state**: whoever has been inside the critical section of a key
for less than `lockTTL` owns the key's lock. -/
theorem lockInv {ok : State P → Action P → Prop} (hok : ∀ s a, ok s a → a.plain) {s : State P}
    (h : Run step ok init s) : LeaseLock.Inv lockTTL (lockView s) := by
  have hrun : LockRun (lockView (init : State P)) (lockView s) := by
    refine h.simulate (I := State.Shape) ?_ ?_ init_shape
    · exact fun s a t hs ha hstep => (Steps.of_step hstep).shape (hok s a ha) hs
    · exact fun s a t hs _ hstep => (Steps.of_step hstep).lockView hs
  exact (LeaseLock.Inv.empty 0 1).run hrun

theorem shape_of_run {ok : State P → Action P → Prop} (hok : ∀ s a, ok s a → a.plain)
    {s : State P} (h : Run step ok init s) : s.Shape :=
  h.invariant (fun s a _ hs ha hstep => (Steps.of_step hstep).shape (hok s a ha) hs) init_shape

end IptvProxy.Cache
